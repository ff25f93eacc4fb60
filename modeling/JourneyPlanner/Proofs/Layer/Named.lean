import JourneyPlanner.Proofs.Filter.Entries
import JourneyPlanner.Proofs.Layer.Complete

/-!
The identifiers of the trip patterns. A stopping pattern with one kind of vehicle passes its own
identifier on; one that is split adds the kind after a colon, so that its parts are told apart. An
identifier may have colons of its own: parts of different stopping patterns are called the same just
where the identifier of one stopping pattern goes on from that of the other one, into the name of a
part of it.
-/

namespace JourneyPlanner

namespace Text

theorem exists_rest_of_append {a b c d : String} (same : a ++ b = c ++ d) :
    (∃ rest, c = a ++ rest ∧ b = rest ++ d) ∨ ∃ rest, a = c ++ rest ∧ d = rest ++ b := by
  rw [← String.toList_inj, String.toList_append, String.toList_append,
    List.append_eq_append_iff] at same
  rcases same with ⟨rest, longer, left⟩ | ⟨rest, longer, left⟩
  · refine .inl ⟨String.ofList rest, ?_, ?_⟩ <;> simp [← String.toList_inj, longer, left]
  · refine .inr ⟨String.ofList rest, ?_, ?_⟩ <;> simp [← String.toList_inj, longer, left]

/-- Nothing, or what stands from a colon on. -/
def FromColon (text : String) : Prop :=
  ∀ c ∈ text.toList.head?, c = ':'

theorem fromColon_empty : FromColon "" := by
  simp [FromColon]

theorem fromColon_colon (text : String) : FromColon (":" ++ text) := by
  simp [FromColon]

theorem colon_append_ne_empty (text : String) : ":" ++ text ≠ "" := by
  rw [← String.toList_inj.ne]
  simp

theorem FromColon.left {a b : String} (h : FromColon (a ++ b)) : FromColon a := by
  intro c first
  refine h c ?_
  rw [String.toList_append, List.head?_append, Option.mem_def.1 first]
  rfl

theorem FromColon.eq_empty {text : String} (h : FromColon text) (plain : ':' ∉ text.toList) :
    text = "" := by
  rw [← String.toList_inj]
  cases letters : text.toList with
  | nil => rfl
  | cons first rest =>
      rw [letters] at plain
      have colon : first = ':' := h first (by rw [letters]; rfl)
      exact absurd (colon ▸ List.mem_cons_self) plain

theorem exists_rest_of_colon {name tail taken left : String} (plain : ':' ∉ name.toList)
    (some : taken ≠ "") (added : FromColon left) (same : ":" ++ name ++ tail = taken ++ left) :
    ∃ rest, taken = ":" ++ name ++ rest ∧ tail = rest ++ left := by
  rcases exists_rest_of_append same with inTail | ⟨rest, inName, rfl⟩
  · exact inTail
  · -- The first colon is taken, and the name has no other one at which an addition could begin.
    have noColon : ':' ∉ rest.toList := by
      intro member
      have letters := congrArg String.toList inName
      rw [String.toList_append, String.toList_append] at letters
      cases first : taken.toList with
      | nil => exact some (String.toList_inj.1 first)
      | cons colon more =>
          rw [first] at letters
          have name_eq : name.toList = more ++ rest.toList := (List.cons.inj letters).2
          exact plain (name_eq ▸ List.mem_append_right more member)
    obtain rfl := added.left.eq_empty noColon
    exact ⟨"", by simpa using inName.symm, by simp⟩

end Text

theorem Mode.name_injective : Function.Injective Mode.name := by
  intro m n same
  have found := Mode.ofName?_name m
  rw [same, Mode.ofName?_name] at found
  exact (Option.some.inj found).symm

namespace Layer.Build.VehicleKind

/-- What follows the mode in a suffix. -/
def tail (kind : VehicleKind) : String :=
  match kind.submode with
  | some submode => ":" ++ submode
  | none => ""

theorem fromColon_tail (kind : VehicleKind) : Text.FromColon kind.tail := by
  obtain ⟨mode, submode⟩ := kind
  cases submode with
  | none => exact Text.fromColon_empty
  | some submode => exact Text.fromColon_colon submode

theorem suffix_eq (kind : VehicleKind) : kind.suffix = ":" ++ kind.mode.name ++ kind.tail := by
  obtain ⟨mode, submode⟩ := kind
  cases submode <;> simp [suffix, tail, String.append_assoc]

theorem fromColon_suffix (kind : VehicleKind) : Text.FromColon kind.suffix := by
  rw [suffix_eq, String.append_assoc]
  exact Text.fromColon_colon _

theorem submode_inj {mode : Mode} {submode other : Option String}
    (same : tail ⟨mode, submode⟩ = tail ⟨mode, other⟩) : submode = other := by
  cases submode <;> cases other <;> simp_all [tail, ← String.toList_inj]

theorem suffix_injective : Function.Injective suffix := by
  rintro ⟨mode, submode⟩ ⟨other, another⟩ same
  rw [suffix_eq, suffix_eq] at same
  obtain ⟨rest, names, tails⟩ := Text.exists_rest_of_colon mode.colon_not_mem_name
    (Text.colon_append_ne_empty other.name) (fromColon_tail ⟨other, another⟩) same
  rw [String.append_assoc, String.append_right_inj] at names
  have added : Text.FromColon (rest ++ tail ⟨other, another⟩) := tails ▸ fromColon_tail _
  obtain rfl : rest = "" := added.left.eq_empty fun member =>
    other.colon_not_mem_name (by simp [names, member])
  obtain rfl : other = mode := Mode.name_injective (by simpa using names)
  have submodes : submode = another := submode_inj (by simpa using tails)
  rw [submodes]

end Layer.Build.VehicleKind

/-- The kind of vehicle of a trip pattern. -/
def TripPattern.kind (p : TripPattern) : Layer.Build.VehicleKind :=
  ⟨p.mode, p.submode⟩

namespace Layer

open Build

variable {network : Network} {layer : Layer}

/-- Whether the stopping pattern of a trip pattern has another kind of vehicle too. -/
def isSplit (layer : Layer) (p : TripPattern) : Bool :=
  layer.patterns.any fun q => q.sourceId == p.sourceId && q.kind ≠ p.kind

theorem isSplit_iff {p : TripPattern} : layer.isSplit p = true ↔
    ∃ q ∈ layer.patterns, q.sourceId = p.sourceId ∧ q.kind ≠ p.kind := by
  simp only [isSplit, Array.any_eq_true', Bool.and_eq_true, beq_iff_eq, decide_eq_true_eq]

/-- What a trip pattern adds to the identifier of its stopping pattern. -/
def addition (layer : Layer) (p : TripPattern) : String :=
  if layer.isSplit p then p.kind.suffix else ""

theorem fromColon_addition (layer : Layer) (p : TripPattern) :
    Text.FromColon (layer.addition p) := by
  rw [addition]
  split
  · exact VehicleKind.fromColon_suffix _
  · exact Text.fromColon_empty

/-- The identifier of the stopping pattern of `q` goes on from that of `p`, a part by its mode, into
the submode of `p`; what is left of it is just what `q` adds. -/
def Meets (layer : Layer) (p q : TripPattern) : Prop :=
  layer.isSplit p = true ∧ ∃ rest, q.sourceId = p.sourceId ++ ":" ++ p.mode.name ++ rest ∧
    p.kind.tail = rest ++ layer.addition q

theorem mem_parts_iff (unique : network.HasUniqueIds) (built : Layer.build network = .ok layer)
    {source : StopPattern} (known : source ∈ network.patterns) {own : List TripPattern}
    (accepted : Build.pattern network source = .ok own) {p : TripPattern} :
    p ∈ own ↔ p ∈ layer.patterns ∧ p.sourceId = source.id := by
  constructor
  · intro member
    obtain ⟨-, -, parts, each, listed⟩ := exists_parts built
    obtain ⟨part, among, made⟩ := exists_of_mem_of_forall₂ each.flip (Array.mem_toList_iff.2 known)
    obtain rfl : own = part := Except.ok.inj (accepted.symm.trans made)
    rw [← Array.mem_toList_iff, listed]
    exact ⟨List.mem_flatten.2 ⟨own, among, member⟩, sourceId_of_mem accepted member⟩
  · rintro ⟨member, ofSource⟩
    obtain ⟨other, knownToo, part, made, inPart⟩ := exists_source_of_mem built member
    have sameId : other.id = source.id := (sourceId_of_mem made inPart).symm.trans ofSource
    obtain rfl : other = source := List.inj_on_of_nodup_map unique.2.2.2
      (Array.mem_toList_iff.2 knownToo) (Array.mem_toList_iff.2 known) sameId
    obtain rfl : own = part := Except.ok.inj (accepted.symm.trans made)
    exact inPart

theorem length_eq_one_iff_of_nodup {α : Type} {l : List α} (distinct : l.Nodup) {a : α}
    (member : a ∈ l) : l.length = 1 ↔ ∀ b ∈ l, b = a := by
  constructor
  · intro one b among
    obtain ⟨c, rfl⟩ := List.length_eq_one_iff.1 one
    rw [List.mem_singleton.1 among, List.mem_singleton.1 member]
  · intro same
    have repeated := List.eq_replicate_of_mem same
    rw [repeated, List.nodup_replicate] at distinct
    have some := List.length_pos_of_mem member
    omega

theorem names_of_pattern {source : StopPattern} {own : List TripPattern}
    (accepted : Build.pattern network source = .ok own) :
    (own.map TripPattern.kind).Nodup ∧ ∀ p ∈ own,
      p.id = if own.length = 1 then source.id else source.id ++ p.kind.suffix := by
  obtain ⟨route, stops, schedules, -, -, -, rfl⟩ := pattern_eq_ok accepted
  have ofKinds : (split source route stops schedules).map TripPattern.kind = kinds schedules := by
    rw [split_eq, List.map_map]
    exact List.map_id _
  refine ⟨ofKinds ▸ nodup_kinds schedules, fun p member => ?_⟩
  obtain ⟨kind, -, rfl⟩ := List.mem_map.1 member
  rw [split_eq, List.length_map]
  rfl

theorem id_eq (unique : network.HasUniqueIds) (built : Layer.build network = .ok layer)
    {p : TripPattern} (member : p ∈ layer.patterns) : p.id = p.sourceId ++ layer.addition p := by
  obtain ⟨source, known, own, accepted, inOwn⟩ := exists_source_of_mem built member
  obtain ⟨distinct, named⟩ := names_of_pattern accepted
  have sourceId := sourceId_of_mem accepted inOwn
  have alone : own.length = 1 ↔ ¬layer.isSplit p = true := by
    rw [← List.length_map TripPattern.kind,
      length_eq_one_iff_of_nodup distinct (List.mem_map_of_mem inOwn), isSplit_iff,
      List.forall_mem_map, sourceId]
    simp only [mem_parts_iff unique built known accepted, not_exists, not_and, not_not, and_imp]
  rw [named p inOwn, sourceId, addition]
  by_cases split : layer.isSplit p = true
  · rw [if_pos split, if_neg (mt alone.1 (not_not.2 split))]
  · rw [if_neg split, if_pos (alone.2 split), String.append_empty]

theorem eq_of_sourceId (unique : network.HasUniqueIds) (built : Layer.build network = .ok layer)
    {p q : TripPattern} (member : p ∈ layer.patterns) (memberToo : q ∈ layer.patterns)
    (sameSource : p.sourceId = q.sourceId) (same : p.id = q.id) : p = q := by
  have keys := (isComplete_build unique built).distinct
  refine List.inj_on_of_nodup_map keys (Array.mem_toList_iff.2 member)
    (Array.mem_toList_iff.2 memberToo) ?_
  by_contra differs
  -- Their kinds differ, so the stopping pattern is split and both have a suffix.
  have otherKind : q.kind ≠ p.kind := by
    intro sameKind
    refine differs ?_
    simp only [TripPattern.kind, VehicleKind.mk.injEq] at sameKind
    rw [TripPattern.key, TripPattern.key, sameSource, sameKind.1, sameKind.2]
  have split : layer.isSplit p = true := isSplit_iff.2 ⟨q, memberToo, sameSource.symm, otherKind⟩
  have splitToo : layer.isSplit q = true :=
    isSplit_iff.2 ⟨p, member, sameSource, otherKind.symm⟩
  rw [id_eq unique built member, id_eq unique built memberToo, sameSource, String.append_right_inj,
    addition, addition, if_pos split, if_pos splitToo] at same
  exact otherKind (VehicleKind.suffix_injective same).symm

theorem Meets.sourceId_ne {p q : TripPattern} (h : layer.Meets p q) : p.sourceId ≠ q.sourceId := by
  intro same
  obtain ⟨-, rest, longer, -⟩ := h
  have sizes := congrArg String.length longer
  simp only [String.length_append, same] at sizes
  have colon : ":".length = 1 := rfl
  omega

theorem Meets.same {p q : TripPattern} (h : layer.Meets p q) :
    p.sourceId ++ layer.addition p = q.sourceId ++ layer.addition q := by
  obtain ⟨split, rest, longer, left⟩ := h
  rw [longer, addition, if_pos split, VehicleKind.suffix_eq, left]
  simp only [String.append_assoc]
  rfl

theorem meets_of_append {p q : TripPattern} {taken : String} (some : taken ≠ "")
    (longer : q.sourceId = p.sourceId ++ taken)
    (same : layer.addition p = taken ++ layer.addition q) : layer.Meets p q := by
  -- What is not split adds nothing of which anything could be taken.
  have split : layer.isSplit p = true := by
    by_contra whole
    rw [addition, if_neg whole] at same
    have letters := congrArg String.toList same
    rw [String.toList_append] at letters
    exact some (String.toList_inj.1 (List.append_eq_nil_iff.1 letters.symm).1)
  rw [addition, if_pos split, VehicleKind.suffix_eq] at same
  obtain ⟨rest, rfl, left⟩ := Text.exists_rest_of_colon p.kind.mode.colon_not_mem_name some
    (layer.fromColon_addition q) same
  exact ⟨split, rest, by rw [longer]; simp only [String.append_assoc]; rfl, left⟩

theorem same_iff {p q : TripPattern} (differs : p.sourceId ≠ q.sourceId) :
    p.sourceId ++ layer.addition p = q.sourceId ++ layer.addition q ↔
      layer.Meets p q ∨ layer.Meets q p := by
  constructor
  · intro same
    rcases Text.exists_rest_of_append same with ⟨taken, longer, left⟩ | ⟨taken, longer, left⟩
    · refine .inl (meets_of_append ?_ longer left)
      rintro rfl
      exact differs (by simpa using longer.symm)
    · refine .inr (meets_of_append ?_ longer left)
      rintro rfl
      exact differs (by simpa using longer)
  · rintro (meets | meets)
    · exact meets.same
    · exact meets.same.symm

/-- How the trip patterns of a layer are called, and when two of them are called the same. -/
structure IsNamed (layer : Layer) : Prop where
  whole : ∀ p ∈ layer.patterns, layer.isSplit p = false → p.id = p.sourceId
  part : ∀ p ∈ layer.patterns, layer.isSplit p = true → p.id = p.sourceId ++ p.kind.suffix
  siblings : ∀ p ∈ layer.patterns, ∀ q ∈ layer.patterns, p.sourceId = q.sourceId →
    p.id = q.id → p = q
  distinct_iff : (layer.patterns.toList.map TripPattern.id).Nodup ↔
    ∀ p ∈ layer.patterns, ∀ q ∈ layer.patterns, ¬layer.Meets p q

theorem IsNamed.nodup (h : layer.IsNamed)
    (apart : ∀ p ∈ layer.patterns, ∀ q ∈ layer.patterns, ∀ rest,
      q.sourceId ≠ p.sourceId ++ ":" ++ rest) :
    (layer.patterns.toList.map TripPattern.id).Nodup := by
  refine h.distinct_iff.2 fun p member q memberToo meets => ?_
  obtain ⟨-, rest, longer, -⟩ := meets
  exact apart p member q memberToo (p.mode.name ++ rest) (by rw [longer, String.append_assoc])

theorem isNamed_build (unique : network.HasUniqueIds) (built : Layer.build network = .ok layer) :
    layer.IsNamed := by
  have named {p : TripPattern} (member : p ∈ layer.patterns) := id_eq unique built member
  have onlyOnce : layer.patterns.toList.Nodup :=
    List.Nodup.of_map _ (isComplete_build unique built).distinct
  refine ⟨fun p member whole => ?_, fun p member split => ?_, fun p member q memberToo =>
    eq_of_sourceId unique built member memberToo, ?_⟩
  · rw [named member, addition, if_neg (Bool.eq_false_iff.1 whole), String.append_empty]
  · rw [named member, addition, if_pos split]
  · rw [List.nodup_map_iff_inj_on onlyOnce]
    simp only [Array.mem_toList_iff]
    constructor
    · intro distinct p member q memberToo meets
      have same : p.id = q.id := by
        rw [named member, named memberToo, meets.same]
      exact meets.sourceId_ne (congrArg TripPattern.sourceId (distinct p member q memberToo same))
    · intro apart p member q memberToo same
      by_cases sameSource : p.sourceId = q.sourceId
      · exact eq_of_sourceId unique built member memberToo sameSource same
      · rw [named member, named memberToo, same_iff sameSource] at same
        exact absurd same (not_or.2 ⟨apart p member q memberToo, apart q memberToo p member⟩)

/-- How the trip patterns of a compiled layer are called. No two are called the same where no
identifier of a stopping pattern goes on from that of another one after a colon. -/
theorem names_exact (unique : network.HasUniqueIds) (built : Layer.build network = .ok layer) :
    layer.IsNamed ∧
      ((∀ p ∈ network.patterns, ∀ q ∈ network.patterns, ∀ rest, q.id ≠ p.id ++ ":" ++ rest) →
        (layer.patterns.toList.map TripPattern.id).Nodup) := by
  have named := isNamed_build unique built
  refine ⟨named, fun apart => named.nodup fun p member q memberToo rest => ?_⟩
  obtain ⟨source, known, own, accepted, inOwn⟩ := exists_source_of_mem built member
  obtain ⟨other, knownToo, more, acceptedToo, inMore⟩ := exists_source_of_mem built memberToo
  rw [sourceId_of_mem accepted inOwn, sourceId_of_mem acceptedToo inMore]
  exact apart source known other knownToo rest

theorem names_exact_twoKinds : ∃ layer, Network.twoKinds.HasUniqueIds ∧
    Layer.build .twoKinds = .ok layer ∧ layer.IsNamed ∧
      layer.patterns.toList.map TripPattern.id = ["p:bus", "p:tram"] := by
  have found : (Layer.build .twoKinds).toOption.any (fun layer =>
      layer.patterns.toList.map TripPattern.id == ["p:bus", "p:tram"]) = true := by
    cbv
  obtain ⟨layer, built, ids⟩ := exists_ok_of_any found
  have unique : Network.twoKinds.HasUniqueIds := by
    simp [Network.HasUniqueIds, Network.twoKinds]
  exact ⟨layer, unique, built, (names_exact unique built).1, eq_of_beq ids⟩

end Layer

/-- A stopping pattern with trips by bus and by tram, and one that is called like the first part of
it. -/
def Network.namesakes : Network where
  stops := #[⟨"a", "A", ⟨0, 0⟩⟩, ⟨"b", "B", ⟨0, 0⟩⟩]
  routes := #[⟨"r", "R", .bus, none⟩]
  services := #[⟨"s", [⟨100⟩]⟩]
  patterns := #[
    ⟨"p", "r", ["a", "b"], [⟨"t", "s", none, none, [⟨60, 60⟩, ⟨90, 90⟩]⟩,
      ⟨"u", "s", some .tram, none, [⟨70, 70⟩, ⟨95, 95⟩]⟩]⟩,
    ⟨"p:bus", "r", ["b", "a"], [⟨"v", "s", none, none, [⟨20, 20⟩, ⟨50, 50⟩]⟩]⟩]

/-- Distinct identifiers of stopping patterns do not make those of the trip patterns distinct. -/
theorem Layer.not_nodup_ids : ¬∀ network layer, network.HasUniqueIds →
    Layer.build network = .ok layer → (layer.patterns.toList.map TripPattern.id).Nodup := by
  intro distinct
  have found : (Layer.build .namesakes).toOption.any (fun layer =>
      layer.patterns.toList.map TripPattern.id == ["p:bus", "p:tram", "p:bus"]) = true := by
    cbv
  obtain ⟨layer, built, ids⟩ := exists_ok_of_any found
  have unique : Network.namesakes.HasUniqueIds := by
    simp [Network.HasUniqueIds, Network.namesakes]
  have nodup := distinct .namesakes layer unique built
  rw [eq_of_beq ids] at nodup
  exact absurd nodup (by decide)

end JourneyPlanner
