import JourneyPlanner.Proofs.Journey.Renamed
import JourneyPlanner.Proofs.Request.Context
import JourneyPlanner.Proofs.Request.StreetLegs
import JourneyPlanner.Proofs.Search.Beside
import JourneyPlanner.Proofs.Timetable.Refused

/-!
Trips that a request refuses make no difference to its answer. They may split the stopping patterns
into more trip patterns and so give other numbers and names to the patterns that are ridden; nothing
else of the answer can be told from the answer without them.
-/

namespace JourneyPlanner

namespace Itinerary

/-- The leg without the name of its pattern. -/
def Leg.withoutPatternId : Leg → Leg
  | ride routeId routeName mode submode _ tripId date source target departure arrival geometry =>
      ride routeId routeName mode submode "" tripId date source target departure arrival geometry
  | leg => leg

def withoutPatternIds (i : Itinerary) : Itinerary :=
  { i with legs := i.legs.map Leg.withoutPatternId }

variable {layer other : Layer} {name : PatternIndex → PatternIndex} {access egress : StreetLegs}
  {date : Date}

theorem legOf_renamed (stops : other.stops = layer.stops)
    (footpaths : other.footpaths = layer.footpaths) {leg : Journey.Leg}
    (patterns : ∀ p ∈ leg.pattern?, (other.pattern (name p)).unnamed = (layer.pattern p).unnamed) :
    (legOf other access egress date (leg.renamed name)).withoutPatternId =
      (legOf layer access egress date leg).withoutPatternId := by
  have stop : other.stop = layer.stop := by
    funext index
    rw [Layer.stop, stops, Layer.stop]
  have place : place other = place layer := by
    funext index
    rw [Itinerary.place, stop, Itinerary.place]
  have footpath : other.footpath = layer.footpath := by
    funext index
    rw [Layer.footpath, Layer.footpathsFrom, footpaths, Layer.footpath, Layer.footpathsFrom]
  cases leg with
  | access =>
      simp only [Journey.Leg.renamed, legOf, place]
  | walk =>
      simp only [Journey.Leg.renamed, legOf, place, footpath]
  | egress =>
      simp only [Journey.Leg.renamed, legOf, place]
  | ride p =>
      have same := patterns p rfl
      obtain ⟨id, equal⟩ : ∃ id, other.pattern (name p) = { layer.pattern p with id := id } :=
        ⟨(other.pattern (name p)).id, congrArg (fun q : TripPattern =>
          { q with id := (other.pattern (name p)).id }) same⟩
      simp only [Journey.Leg.renamed, legOf, place, stop, equal]
      rfl

theorem ofJourney_renamed (stops : other.stops = layer.stops)
    (footpaths : other.footpaths = layer.footpaths) {j : Journey}
    (patterns : ∀ p ∈ j.patterns, (other.pattern (name p)).unnamed = (layer.pattern p).unnamed) :
    (ofJourney other access egress date (j.renamed name)).withoutPatternIds =
      (ofJourney layer access egress date j).withoutPatternIds := by
  have legs : ((j.legs.map (Journey.Leg.renamed name)).map (legOf other access egress date)).map
      Leg.withoutPatternId =
        (j.legs.map (legOf layer access egress date)).map Leg.withoutPatternId := by
    simp only [List.map_map]
    exact List.map_congr_left fun leg member => legOf_renamed stops footpaths
      fun p boards => patterns p (List.mem_filterMap.2 ⟨leg, member, boards⟩)
  simp only [withoutPatternIds, ofJourney, Journey.renamed, legs]

end Itinerary

namespace Request

open Search

variable {n m : Network} {layer other : Layer} {r : Request} {c : Context}

theorem journeys_renamed {d : Context} {name back : PatternIndex → PatternIndex}
    (h : IsRenaming name c d)
    (undone : ∀ line < c.timetable.nbOfLines,
      back (name (c.timetable.line line).patternIndex) = (c.timetable.line line).patternIndex)
    (regular : Journey.IsRegular c) (regularToo : Journey.IsRegular d) (same : run d = run c) :
    journeys d (run d) = (journeys c (run c)).map (Journey.renamed name) := by
  have consistent : Consistent d (run c).state := same ▸ consistent_run d .never
  have named : ∀ j ∈ Journey.extract c (run c).state (c.query.maxBoardings == 0),
      ∀ p ∈ j.patterns, back (name p) = p := by
    intro j member p among
    obtain ⟨line, inside, rfl⟩ :=
      Journey.exists_line_of_mem_patterns (consistent_run c .never) member among
    exact undone line inside
  rw [journeys, journeys, same,
    Journey.extract_renamed h regular regularToo (consistent_run c .never) consistent]
  exact Journey.distinct_renamed named

theorem exists_context_of_differsByRefused (built : Layer.build n = .ok layer)
    (builtToo : Layer.build m = .ok other) (differs : n.DiffersByRefused m r.filters)
    (accepted : r.context layer = .ok c) :
    ∃ t : Timetable, r.context other = .ok { c with timetable := t } ∧ c.timetable.RunsAs t ∧
      ∃ name back : PatternIndex → PatternIndex, IsRenaming name c { c with timetable := t } ∧
        ∀ line < c.timetable.nbOfLines, back (name (c.timetable.line line).patternIndex) =
          (c.timetable.line line).patternIndex := by
  obtain ⟨stops, -, calendar, -⟩ := Layer.acceptedUnnamed_eq differs built builtToo
  obtain ⟨timetable, acceptedToo⟩ := context_of_calendar calendar accepted r.access
  obtain ⟨-, -, -, query⟩ := context_spec accepted
  have queryToo : r.query other = c.query := by
    rw [query, Request.query, Request.query, StreetLegs.ofReaches_congr stops,
      StreetLegs.ofReaches_congr stops]
  let t : Timetable := .ofLayer other r.departure.date r.dayRange r.filters r.walkSpeed
  have alike : c.timetable.RunsAs t := by
    rw [timetable]
    exact Timetable.runsAs_of_differsByRefused built builtToo differs ..
  have apart : Set.InjOn (fun line => (c.timetable.line line).patternIndex)
      {line | line < c.timetable.nbOfLines} := by
    rw [timetable]
    exact Timetable.injOn_patternIndex ..
  exact ⟨t, queryToo ▸ acceptedToo, alike,
    exists_isRenaming rfl alike apart (Timetable.injOn_patternIndex ..)⟩

theorem unnamed_pattern_renamed {d : Context} {name : PatternIndex → PatternIndex}
    (accepted : r.context layer = .ok c) (acceptedToo : r.context other = .ok d)
    (alike : c.timetable.RunsAs d.timetable) (h : IsRenaming name c d) {line : LineIndex}
    (inside : line < c.timetable.nbOfLines) :
    (other.pattern (name (c.timetable.line line).patternIndex)).unnamed =
      (layer.pattern (c.timetable.line line).patternIndex).unnamed := by
  have within : line < d.timetable.nbOfLines := alike.nbOfLines_eq.symm ▸ inside
  have own := ((context_spec accepted).1.lines line inside).pattern_layer
  have others := ((context_spec acceptedToo).1.lines line within).pattern_layer
  rw [← h.patternIndex_eq line inside, own, others]
  exact congrArg Line.pattern (alike.line_eq line)

/-- A refused trip is of no consequence. Of two networks that differ in trips which the filters of a
request refuse, the answers have the same itineraries in the same order, the names of the patterns
aside, and the same statistics, and both are complete or neither. -/
theorem route_of_differsByRefused (built : Layer.build n = .ok layer)
    (builtToo : Layer.build m = .ok other) (differs : n.DiffersByRefused m r.filters)
    {first : Response} (answered : layer.route r = .ok first) :
    ∃ second, other.route r = .ok second ∧
      second.itineraries.map Itinerary.withoutPatternIds =
          first.itineraries.map Itinerary.withoutPatternIds ∧
        second.truncated = first.truncated ∧ second.stats = first.stats := by
  obtain ⟨c, accepted, -⟩ := bind_eq_ok.1 answered
  rw [route_of_stopped accepted] at answered
  cases answered
  obtain ⟨stops, footpaths, -, -⟩ := Layer.acceptedUnnamed_eq differs built builtToo
  obtain ⟨t, acceptedToo, alike, name, back, h, undone⟩ :=
    exists_context_of_differsByRefused built builtToo differs accepted
  have same : run { c with timetable := t } = run c := run_eq_of_runsAs alike
  have shown := journeys_renamed h undone (isRegular built accepted)
    (isRegular builtToo acceptedToo) same
  refine ⟨_, route_of_stopped acceptedToo, ?_, congrArg Outcome.truncated same,
    congrArg Outcome.stats same⟩
  simp only [response, shown, List.map_map]
  refine List.map_congr_left fun j member => ?_
  refine Itinerary.ofJourney_renamed stops footpaths fun p boards => ?_
  obtain ⟨line, inside, rfl⟩ := Journey.exists_line_of_mem_patterns (consistent_run c .never)
    (Journey.mem_of_mem_distinct member) boards
  exact unnamed_pattern_renamed accepted acceptedToo alike h inside

end Request

/-- The relay with flights among its trips. -/
def Network.relayWithFlights : Network :=
  { Network.relay with
    patterns := #[⟨"p", "r", ["a", "b"],
        [⟨"f", "s", some .air, none, [⟨30400, 30400⟩, ⟨30500, 30500⟩]⟩,
          ⟨"t", "s", none, none, [⟨30900, 30900⟩, ⟨31200, 31200⟩]⟩]⟩,
      ⟨"q", "r", ["c", "d"], [⟨"u", "s", none, none, [⟨31500, 31500⟩, ⟨32100, 32100⟩]⟩]⟩,
      ⟨"o", "r", ["a", "d"], [⟨"v", "s", none, none, [⟨30330, 30330⟩, ⟨31800, 31800⟩]⟩,
        ⟨"g", "s", some .air, none, [⟨30700, 30700⟩, ⟨30800, 30800⟩]⟩]⟩] }

/-- The relay by bus. -/
def Request.relayByBus : Request :=
  { Request.relay with filters := { modes := ModeFilter.none.allow .bus } }

theorem Network.differsByRefused_relayWithFlights :
    Network.relay.DiffersByRefused .relayWithFlights Request.relayByBus.filters :=
  ⟨rfl, .cons ⟨rfl, rfl⟩ (.cons ⟨rfl, rfl⟩ (.cons ⟨rfl, rfl⟩ .nil))⟩

theorem Request.route_of_differsByRefused_relay : ∃ layer other first second i,
    Layer.build .relay = .ok layer ∧ Layer.build .relayWithFlights = .ok other ∧
      layer.route relayByBus = .ok first ∧ other.route relayByBus = .ok second ∧
        i ∈ first.itineraries ∧ i.nbOfTransfers = 1 ∧
          second.itineraries.map Itinerary.withoutPatternIds =
            first.itineraries.map Itinerary.withoutPatternIds ∧
              second.truncated = first.truncated ∧ second.stats = first.stats := by
  have found : (Layer.build .relay).toOption.any (fun layer =>
      (relayByBus.context layer).toOption.any fun c =>
        ((Journey.extract c (Search.run c).state (c.query.maxBoardings == 0)).foldl
          Journey.keep []).any (·.nbOfTransfers == 1)) = true := by
    decide +kernel
  have foundToo : (Layer.build .relayWithFlights).toOption.any (fun _ => true) = true := by
    decide +kernel
  obtain ⟨layer, built, found⟩ := exists_ok_of_any found
  obtain ⟨c, accepted, found⟩ := exists_ok_of_any found
  obtain ⟨j, kept, once⟩ := List.any_eq_true.1 found
  obtain ⟨other, builtToo, -⟩ := exists_ok_of_any foundToo
  have answered := route_of_stopped accepted
  obtain ⟨second, answeredToo, same⟩ := route_of_differsByRefused built builtToo
    Network.differsByRefused_relayWithFlights answered
  exact ⟨layer, other, _, second, _, built, builtToo, answered, answeredToo,
    mem_itineraries.2 ⟨j, kept, rfl⟩, eq_of_beq once, same⟩

end JourneyPlanner
