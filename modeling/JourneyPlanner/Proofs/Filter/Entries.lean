import JourneyPlanner.Filter
import Mathlib.Data.List.Induction
import Mathlib.Data.List.Sort
import Mathlib.Data.String.Basic

/-!
What a mode filter accepts, read off the texts that it was made of. A mode that is listed with
submodes is allowed with these only, also where it is listed alone as well, so that a filter is the
union of its entries just when no mode is listed both ways. Neither the order of the entries nor
their repetition makes a difference: the modes and the submodes of each are kept in order and once.
-/

namespace JourneyPlanner

namespace Mode

theorem colon_not_mem_name (m : Mode) : ':' ∉ m.name.toList := by
  cases m <;> decide

theorem ofName?_eq_none_iff {text : String} : ofName? text = none ↔ ∀ m : Mode, m.name ≠ text := by
  simp only [Option.eq_none_iff_forall_ne_some, ne_eq, ofName?_eq_some_iff]

end Mode

theorem Text.pairwise_insertOrdered {text : String} {set : List String}
    (h : set.Pairwise (· < ·)) : (insertOrdered text set).Pairwise (· < ·) := by
  induction set with
  | nil => exact List.pairwise_singleton _ _
  | cons other rest ih =>
      obtain ⟨first, later⟩ := List.pairwise_cons.1 h
      rw [insertOrdered]
      split
      · exact h
      · next differs =>
          split
          · next less =>
              exact List.pairwise_cons.2 ⟨List.forall_mem_cons.2
                ⟨less, fun x member => lt_trans less (first x member)⟩, h⟩
          · next notLess =>
              have more : other < text := lt_of_le_of_ne (not_lt.1 notLess) (Ne.symm differs)
              refine List.pairwise_cons.2 ⟨fun x member => ?_, ih later⟩
              rcases mem_insertOrdered.1 member with rfl | old
              · exact more
              · exact first x old

namespace ModeFilter

/-- What stands before the first colon names no mode, or what follows it is blank. -/
def IsMalformed (text : String) : Prop :=
  (∀ mode : Mode, mode.name ≠ String.ofList (text.toList.takeWhile (· ≠ ':'))) ∨
    ∃ mode submode : String, text = mode ++ ":" ++ submode ∧ ':' ∉ mode.toList ∧
      isBlankSubmode submode = true

namespace Entry

/-- How an entry is written. -/
def text (entry : Entry) : String :=
  match entry.submode with
  | .none => entry.mode.name
  | .some submode => entry.mode.name ++ ":" ++ submode

theorem exists_split (text : String) : ':' ∉ text.toList ∨
    ∃ mode submode : String, text = mode ++ ":" ++ submode ∧ ':' ∉ mode.toList := by
  by_cases has : ':' ∈ text.toList
  · obtain ⟨before, after, split, first⟩ := List.eq_append_cons_of_mem has
    refine .inr ⟨.ofList before, .ofList after, ?_, by simpa using first⟩
    rw [← String.toList_inj, split]
    simp
  · exact .inl has

theorem takeWhile_of_not_mem {text : String} (plain : ':' ∉ text.toList) :
    text.toList.takeWhile (· ≠ ':') = text.toList := by
  have each : ∀ c ∈ text.toList, decide (c ≠ ':') = true := fun c member => by
    simpa using ne_of_mem_of_not_mem member plain
  rw [← List.append_nil text.toList, List.takeWhile_append_of_pos each, List.takeWhile_nil]

theorem takeWhile_append_colon {mode : String} (plain : ':' ∉ mode.toList) (submode : String) :
    (mode ++ ":" ++ submode).toList.takeWhile (· ≠ ':') = mode.toList := by
  have before : ∀ c ∈ mode.toList, decide (c ≠ ':') = true := fun c member => by
    simpa using ne_of_mem_of_not_mem member plain
  rw [String.toList_append, String.toList_append, List.append_assoc,
    List.takeWhile_append_of_pos before]
  simp

theorem parse?_of_not_mem {text : String} (plain : ':' ∉ text.toList) :
    parse? text = (Mode.ofName? text).map fun mode => ⟨mode, .none⟩ := by
  rw [parse?, takeWhile_of_not_mem plain, List.drop_length, String.ofList_toList]
  cases Mode.ofName? text <;> rfl

theorem parse?_append_colon {mode : String} (plain : ':' ∉ mode.toList) (submode : String) :
    parse? (mode ++ ":" ++ submode) = (Mode.ofName? mode).bind fun known =>
      if isBlankSubmode submode then .none else .some ⟨known, .some submode⟩ := by
  have rest : (mode ++ ":" ++ submode).toList.drop mode.toList.length = ':' :: submode.toList := by
    rw [String.toList_append, String.toList_append, List.append_assoc, List.drop_left]
    simp
  rw [parse?, takeWhile_append_colon plain, rest, String.ofList_toList]
  cases Mode.ofName? mode with
  | none => rfl
  | some known =>
      simp only [String.ofList_toList, Option.bind_some]
      rfl

theorem append_colon_inj {mode other : String} (plain : ':' ∉ mode.toList)
    (plainToo : ':' ∉ other.toList) {submode another : String}
    (same : mode ++ ":" ++ submode = other ++ ":" ++ another) :
    mode = other ∧ submode = another := by
  have first : mode = other := by
    rw [← String.toList_inj, ← takeWhile_append_colon plain submode, same,
      takeWhile_append_colon plainToo]
  subst first
  have rest := congrArg String.toList same
  rw [String.toList_append, String.toList_append (s := mode ++ ":")] at rest
  exact ⟨rfl, String.toList_inj.1 (List.append_cancel_left rest)⟩

theorem parse?_eq_none_iff {text : String} : parse? text = .none ↔ IsMalformed text := by
  rcases exists_split text with plain | ⟨mode, submode, rfl, plain⟩
  · rw [parse?_of_not_mem plain, Option.map_eq_none_iff, Mode.ofName?_eq_none_iff, IsMalformed,
      takeWhile_of_not_mem plain, String.ofList_toList]
    refine (or_iff_left ?_).symm
    rintro ⟨mode, submode, rfl, -⟩
    simp at plain
  · rw [parse?_append_colon plain, IsMalformed, takeWhile_append_colon plain, String.ofList_toList,
      ← Mode.ofName?_eq_none_iff]
    have blank : (∃ other another : String, mode ++ ":" ++ submode = other ++ ":" ++ another ∧
        ':' ∉ other.toList ∧ isBlankSubmode another = true) ↔ isBlankSubmode submode = true := by
      constructor
      · rintro ⟨other, another, same, plainToo, blank⟩
        rw [(append_colon_inj plain plainToo same).2]
        exact blank
      · exact fun blank => ⟨mode, submode, rfl, plain, blank⟩
    rw [blank]
    cases Mode.ofName? mode <;> simp

theorem text_of_parse? {text : String} {entry : Entry} (h : parse? text = .some entry) :
    entry.text = text := by
  rcases exists_split text with plain | ⟨mode, submode, rfl, plain⟩
  · rw [parse?_of_not_mem plain] at h
    obtain ⟨known, found, rfl⟩ := Option.map_eq_some_iff.1 h
    exact Mode.ofName?_eq_some_iff.1 found
  · rw [parse?_append_colon plain] at h
    obtain ⟨known, found, made⟩ := Option.bind_eq_some_iff.1 h
    obtain ⟨-, same⟩ := Option.ite_none_left_eq_some.1 made
    rw [← Option.some.inj same, ← Mode.ofName?_eq_some_iff.1 found]
    rfl

theorem parse?_text {entry : Entry} (valid : ¬IsMalformed entry.text) :
    parse? entry.text = .some entry := by
  rw [← parse?_eq_none_iff] at valid
  obtain ⟨mode, submode⟩ := entry
  cases submode with
  | none =>
      rw [text, parse?_of_not_mem mode.colon_not_mem_name, Mode.ofName?_name]
      rfl
  | some submode =>
      simp only [text, parse?_append_colon mode.colon_not_mem_name, Mode.ofName?_name,
        Option.bind_some] at valid ⊢
      split
      · next blank => exact absurd (if_pos blank) valid
      · rfl

end Entry

/-- The entries that some texts stand for; a malformed text stands for none. -/
def entriesOf (texts : List String) : List Entry :=
  texts.filterMap Entry.parse?

theorem mem_entriesOf {texts : List String} (valid : ∀ text ∈ texts, ¬IsMalformed text)
    {entry : Entry} : entry ∈ entriesOf texts ↔ entry.text ∈ texts := by
  rw [entriesOf, List.mem_filterMap]
  constructor
  · rintro ⟨text, member, read⟩
    rw [Entry.text_of_parse? read]
    exact member
  · exact fun member => ⟨_, member, Entry.parse?_text (valid _ member)⟩

/-- The filter of some entries, added one after the other. -/
def ofEntries (entries : List Entry) : ModeFilter :=
  entries.foldl add .none

/-- Adds the entry that a text stands for. -/
def addText (f : ModeFilter) (text : String) : Except InvalidParameter ModeFilter :=
  match Entry.parse? text with
  | .some entry => .ok (f.add entry)
  | .none => .error (.modeFilter text)

theorem foldlM_addText {texts : List String} (valid : ∀ text ∈ texts, ¬IsMalformed text)
    (f : ModeFilter) : texts.foldlM addText f = .ok ((entriesOf texts).foldl add f) := by
  induction texts generalizing f with
  | nil => rfl
  | cons text rest ih =>
      obtain ⟨here, later⟩ := List.forall_mem_cons.1 valid
      obtain ⟨entry, read⟩ := Option.ne_none_iff_exists'.1 (mt Entry.parse?_eq_none_iff.1 here)
      rw [List.foldlM_cons, addText, read, entriesOf, List.filterMap_cons_some read]
      exact ih later (f.add entry)

theorem parse_of_valid {texts : List String} (valid : ∀ text ∈ texts, ¬IsMalformed text) :
    parse texts = .ok (ofEntries (entriesOf texts)) :=
  foldlM_addText valid .none

theorem parse_of_malformed {before after : List String} {text : String}
    (valid : ∀ earlier ∈ before, ¬IsMalformed earlier) (malformed : IsMalformed text) :
    parse (before ++ text :: after) = .error (.modeFilter text) := by
  change List.foldlM addText .none (before ++ text :: after) = _
  rw [List.foldlM_append, foldlM_addText valid]
  change (addText _ text >>= fun f => after.foldlM addText f) = _
  rw [addText, Entry.parse?_eq_none_iff.2 malformed]
  rfl

theorem valid_or_malformed (texts : List String) : (∀ text ∈ texts, ¬IsMalformed text) ∨
    ∃ before text after, texts = before ++ text :: after ∧
      (∀ earlier ∈ before, ¬IsMalformed earlier) ∧ IsMalformed text := by
  classical
  cases found : texts.find? (fun text => decide (IsMalformed text)) with
  | none => exact .inl fun text member => by simpa using List.find?_eq_none.1 found text member
  | some text =>
      obtain ⟨malformed, before, after, split, valid⟩ := List.find?_eq_some_iff_append.1 found
      exact .inr ⟨before, text, after, split, fun earlier member => by simpa using valid _ member,
        by simpa using malformed⟩

theorem parse_eq_error_iff {texts : List String} {fault : InvalidParameter} :
    parse texts = .error fault ↔ ∃ before text after, texts = before ++ text :: after ∧
      (∀ earlier ∈ before, ¬IsMalformed earlier) ∧ IsMalformed text ∧ fault = .modeFilter text := by
  constructor
  · intro refused
    rcases valid_or_malformed texts with valid | ⟨before, text, after, rfl, valid, malformed⟩
    · rw [parse_of_valid valid] at refused
      cases refused
    · rw [parse_of_malformed valid malformed] at refused
      exact ⟨before, text, after, rfl, valid, malformed, (Except.error.inj refused).symm⟩
  · rintro ⟨before, text, after, rfl, valid, malformed, rfl⟩
    exact parse_of_malformed valid malformed

theorem parse_eq_ok_iff {texts : List String} {f : ModeFilter} : parse texts = .ok f ↔
    (∀ text ∈ texts, ¬IsMalformed text) ∧ f = ofEntries (entriesOf texts) := by
  rcases valid_or_malformed texts with valid | ⟨before, text, after, rfl, valid, malformed⟩
  · rw [parse_of_valid valid, Except.ok.injEq, eq_comm, and_iff_right valid]
  · rw [parse_of_malformed valid malformed]
    refine iff_of_false (fun parsed => by cases parsed) fun ⟨all, _⟩ => ?_
    exact all text (List.mem_append_right _ List.mem_cons_self) malformed

/-- The modes in the order of their ranks, each once. -/
def InOrder (allowed : List (Mode × List String)) : Prop :=
  allowed.Pairwise fun a b => a.1.rank < b.1.rank

/-- The set that a mode has among some entries: its submodes in order, each once. -/
structure IsSetOf (entries : List Entry) (mode : Mode) (set : List String) : Prop where
  listed : ∃ submode, ⟨mode, submode⟩ ∈ entries
  inOrder : set.Pairwise (· < ·)
  mem_iff : ∀ text, text ∈ set ↔ ⟨mode, some text⟩ ∈ entries

/-- A filter with the modes of some entries, each with its set. -/
structure IsFilterOf (f : ModeFilter) (entries : List Entry) : Prop where
  inOrder : InOrder f.allowed
  isSetOf : ∀ mode set, (mode, set) ∈ f.allowed → IsSetOf entries mode set
  exists_set : ∀ entry ∈ entries, ∃ set, (entry.mode, set) ∈ f.allowed

variable {f g : ModeFilter} {entries others : List Entry} {entry : Entry} {mode : Mode}
  {set another : List String} {change : List String → List String}
  {allowed : List (Mode × List String)}

theorem IsSetOf.unique (h : IsSetOf entries mode set) (k : IsSetOf entries mode another) :
    set = another :=
  h.inOrder.eq_of_mem_iff k.inOrder fun text => (h.mem_iff text).trans (k.mem_iff text).symm

theorem alter_split (mode : Mode) (change : List String → List String) (h : InOrder allowed) :
    ∃ before old after, (∀ entry ∈ before, entry.1.rank < mode.rank) ∧
      (∀ entry ∈ after, mode.rank < entry.1.rank) ∧
      (allowed = before ++ (mode, old) :: after ∨ allowed = before ++ after ∧ old = []) ∧
      alter mode change allowed = before ++ (mode, change old) :: after := by
  induction allowed with
  | nil => exact ⟨[], [], [], by simp, by simp, .inr ⟨rfl, rfl⟩, rfl⟩
  | cons entry rest ih =>
      obtain ⟨other, submodes⟩ := entry
      obtain ⟨first, later⟩ := List.pairwise_cons.1 h
      rw [alter]
      split
      · next same =>
          subst same
          exact ⟨[], submodes, rest, by simp, first, .inl rfl, rfl⟩
      · next differs =>
          split
          · next less =>
              refine ⟨[], [], (other, submodes) :: rest, by simp, ?_, .inr ⟨rfl, rfl⟩, rfl⟩
              exact List.forall_mem_cons.2 ⟨less, fun entry member => less.trans (first _ member)⟩
          · next notLess =>
              have more : other.rank < mode.rank :=
                Nat.lt_of_le_of_ne (Nat.not_lt.1 notLess) fun same =>
                  differs (Mode.rank_inj same.symm)
              obtain ⟨before, old, after, lower, higher, was, becomes⟩ := ih later
              refine ⟨(other, submodes) :: before, old, after,
                List.forall_mem_cons.2 ⟨more, lower⟩, higher, ?_, congrArg (_ :: ·) becomes⟩
              exact was.imp (congrArg (_ :: ·)) (And.imp_left (congrArg (_ :: ·)))

theorem IsSetOf.append (h : IsSetOf entries mode set) (other : mode ≠ entry.mode) :
    IsSetOf (entries ++ [entry]) mode set := by
  have same (submode : Option String) :
      ⟨mode, submode⟩ ∈ entries ++ [entry] ↔ ⟨mode, submode⟩ ∈ entries := by
    rw [List.mem_append, List.mem_singleton]
    exact or_iff_left fun equal => other (congrArg Entry.mode equal)
  refine ⟨?_, h.inOrder, fun text => (h.mem_iff text).trans (same _).symm⟩
  obtain ⟨submode, member⟩ := h.listed
  exact ⟨submode, (same submode).2 member⟩

theorem IsFilterOf.append (h : f.IsFilterOf entries)
    (changes : ∀ old : List String, old.Pairwise (· < ·) →
      (∀ text, text ∈ old ↔ ⟨entry.mode, some text⟩ ∈ entries) →
        IsSetOf (entries ++ [entry]) entry.mode (change old)) :
    IsFilterOf ⟨alter entry.mode change f.allowed⟩ (entries ++ [entry]) := by
  obtain ⟨before, old, after, lower, higher, was, becomes⟩ := alter_split entry.mode change h.inOrder
  have apart : ∀ pair ∈ before ++ after, pair.1 ≠ entry.mode := by
    intro pair member same
    rcases List.mem_append.1 member with first | last
    · exact lt_irrefl _ (same ▸ lower pair first)
    · exact lt_irrefl _ (same ▸ higher pair last)
  have kept {m : Mode} (other : m ≠ entry.mode) (set : List String) :
      (m, set) ∈ f.allowed ↔ (m, set) ∈ before ++ after := by
    rcases was with was | ⟨was, -⟩ <;> simp [was, other]
  have sublist : (before ++ after).Sublist f.allowed := by
    rcases was with was | ⟨was, -⟩
    · exact was ▸ List.Sublist.append_left (List.sublist_cons_self _ _) _
    · exact was ▸ List.Sublist.refl _
  have changed : IsSetOf (entries ++ [entry]) entry.mode (change old) := by
    rcases was with was | ⟨was, rfl⟩
    · have isSet := h.isSetOf entry.mode old (by simp [was])
      exact changes old isSet.inOrder isSet.mem_iff
    · refine changes [] List.Pairwise.nil fun text => iff_of_false List.not_mem_nil fun member => ?_
      obtain ⟨set, there⟩ := h.exists_set _ member
      exact apart _ (was ▸ there) rfl
  rw [becomes]
  have mem_iff {pair : Mode × List String} : pair ∈ before ++ (entry.mode, change old) :: after ↔
      pair = (entry.mode, change old) ∨ pair ∈ before ++ after := by
    simp only [List.mem_append, List.mem_cons]
    exact or_left_comm
  refine ⟨?_, fun m set member => ?_, fun e member => ?_⟩
  · have inOrder := List.pairwise_append.1 (h.inOrder.sublist sublist)
    refine List.pairwise_append.2 ⟨inOrder.1, List.pairwise_cons.2 ⟨higher, inOrder.2.1⟩, ?_⟩
    intro a first b later
    rcases List.mem_cons.1 later with rfl | last
    · exact lower a first
    · exact inOrder.2.2 a first b last
  · rcases mem_iff.1 member with new | old
    · cases new
      exact changed
    · have other := apart _ old
      exact (h.isSetOf m set ((kept other set).2 old)).append other
  · by_cases same : e.mode = entry.mode
    · exact ⟨change old, mem_iff.2 (.inl (by rw [same]))⟩
    · have old : e ∈ entries := by
        refine (List.mem_append.1 member).resolve_right fun last => same ?_
        rw [List.mem_singleton.1 last]
      obtain ⟨set, there⟩ := h.exists_set e old
      exact ⟨set, mem_iff.2 (.inr ((kept same set).1 there))⟩

theorem IsFilterOf.add (h : f.IsFilterOf entries) (entry : Entry) :
    (f.add entry).IsFilterOf (entries ++ [entry]) := by
  obtain ⟨mode, submode⟩ := entry
  have listed : ∃ some, (⟨mode, some⟩ : Entry) ∈ entries ++ [⟨mode, submode⟩] :=
    ⟨submode, List.mem_append_right _ List.mem_cons_self⟩
  cases submode with
  | none =>
      refine h.append fun old inOrder mem_iff => ⟨listed, inOrder, fun text => ?_⟩
      simp [mem_iff]
  | some submode =>
      refine h.append fun old inOrder mem_iff =>
        ⟨listed, Text.pairwise_insertOrdered inOrder, fun text => ?_⟩
      rw [Text.mem_insertOrdered, mem_iff]
      simp [or_comm]

theorem isFilterOf_ofEntries (entries : List Entry) : (ofEntries entries).IsFilterOf entries := by
  induction entries using List.reverseRecOn with
  | nil => exact ⟨List.Pairwise.nil, by simp [ofEntries, none], by simp⟩
  | append_singleton entries entry ih =>
      rw [ofEntries, List.foldl_append]
      exact ih.add entry

theorem IsFilterOf.mem_iff (h : f.IsFilterOf entries) :
    (mode, set) ∈ f.allowed ↔ IsSetOf entries mode set := by
  refine ⟨h.isSetOf mode set, fun isSet => ?_⟩
  obtain ⟨submode, member⟩ := isSet.listed
  obtain ⟨another, there⟩ := h.exists_set _ member
  rwa [isSet.unique (h.isSetOf _ _ there)]

theorem IsFilterOf.unique (h : f.IsFilterOf entries) (k : g.IsFilterOf others)
    (same : ∀ entry, entry ∈ entries ↔ entry ∈ others) : f = g := by
  have sets (mode : Mode) (set : List String) :
      IsSetOf entries mode set ↔ IsSetOf others mode set := by
    constructor
    · exact fun ⟨listed, inOrder, mem_iff⟩ =>
        ⟨listed.imp fun _ => (same _).1, inOrder, fun text => (mem_iff text).trans (same _)⟩
    · exact fun ⟨listed, inOrder, mem_iff⟩ =>
        ⟨listed.imp fun _ => (same _).2, inOrder, fun text => (mem_iff text).trans (same _).symm⟩
  let before (a b : Mode × List String) : Prop := a.1.rank < b.1.rank
  have : Std.Irrefl before := ⟨fun a => lt_irrefl a.1.rank⟩
  have : Std.Antisymm before := ⟨fun _ _ less more => absurd more (lt_asymm less)⟩
  have allowed : f.allowed = g.allowed :=
    List.Pairwise.eq_of_mem_iff (r := before) h.inOrder k.inOrder fun (mode, set) =>
      h.mem_iff.trans ((sets mode set).trans k.mem_iff.symm)
  exact congrArg ModeFilter.mk allowed

theorem IsFilterOf.isSetOf_of_submodesOf? (h : f.IsFilterOf entries)
    (found : f.submodesOf? mode = some set) : IsSetOf entries mode set := by
  obtain ⟨⟨m, s⟩, first, rfl⟩ := Option.map_eq_some_iff.1 found
  have same := List.find?_some first
  obtain rfl : m = mode := of_decide_eq_true same
  exact h.isSetOf m s (List.mem_of_find?_eq_some first)

theorem IsFilterOf.not_mem_of_submodesOf? (h : f.IsFilterOf entries)
    (missing : f.submodesOf? mode = .none) (submode : Option String) : ⟨mode, submode⟩ ∉ entries := by
  intro member
  obtain ⟨set, there⟩ := h.exists_set _ member
  simpa using List.find?_eq_none.1 (Option.map_eq_none_iff.1 missing) _ there

theorem IsFilterOf.accepts_iff (h : f.IsFilterOf entries) (mode : Mode) (submode : Option String) :
    f.accepts mode submode = true ↔
      (∃ text, submode = some text ∧ ⟨mode, some text⟩ ∈ entries) ∨
        ⟨mode, .none⟩ ∈ entries ∧ ∀ text, ⟨mode, some text⟩ ∉ entries := by
  rw [accepts]
  cases found : f.submodesOf? mode with
  | none => simp [h.not_mem_of_submodesOf? found]
  | some set =>
      obtain ⟨⟨listed, member⟩, -, mem_iff⟩ := h.isSetOf_of_submodesOf? found
      simp only [← mem_iff, Bool.or_eq_true, List.isEmpty_iff]
      constructor
      · rintro (rfl | among)
        · cases listed with
          | none => exact .inr ⟨member, fun _ => List.not_mem_nil⟩
          | some text => exact absurd ((mem_iff text).2 member) List.not_mem_nil
        · obtain ⟨text, rfl, inSet⟩ := Option.any_eq_true _ _ |>.1 among
          exact .inl ⟨text, rfl, by simpa using inSet⟩
      · rintro (⟨text, rfl, inSet⟩ | ⟨-, nothing⟩)
        · exact .inr (by simpa using inSet)
        · exact .inl (List.eq_nil_iff_forall_not_mem.2 nothing)

/-- Each mode is accepted with the submodes that some text allows it with. -/
def IsUnionOf (f : ModeFilter) (texts : List String) : Prop :=
  ∀ mode submode, f.accepts mode submode = true ↔
    mode.name ∈ texts ∨ ∃ text, submode = some text ∧ mode.name ++ ":" ++ text ∈ texts

variable {texts : List String}

theorem accepts_of_parse (parsed : parse texts = .ok f) (mode : Mode) (submode : Option String) :
    f.accepts mode submode = true ↔
      (∃ text, submode = some text ∧ mode.name ++ ":" ++ text ∈ texts) ∨
        mode.name ∈ texts ∧ ∀ text, mode.name ++ ":" ++ text ∉ texts := by
  obtain ⟨valid, rfl⟩ := parse_eq_ok_iff.1 parsed
  rw [(isFilterOf_ofEntries _).accepts_iff]
  simp only [mem_entriesOf valid, Entry.text]

theorem isUnionOf_iff (parsed : parse texts = .ok f) : f.IsUnionOf texts ↔
    ∀ mode : Mode, mode.name ∈ texts → ∀ text, mode.name ++ ":" ++ text ∉ texts := by
  constructor
  · intro union mode alone text restricted
    rcases (accepts_of_parse parsed mode .none).1 ((union mode .none).2 (.inl alone)) with
      ⟨text, none, -⟩ | ⟨-, unrestricted⟩
    · cases none
    · exact unrestricted text restricted
  · intro once mode submode
    rw [accepts_of_parse parsed, or_comm, and_iff_left_of_imp (once mode)]

theorem parse_eq_of_same (parsed : parse texts = .ok f) {others : List String}
    (same : ∀ text, text ∈ others ↔ text ∈ texts) : parse others = .ok f := by
  obtain ⟨valid, rfl⟩ := parse_eq_ok_iff.1 parsed
  have validToo : ∀ text ∈ others, ¬IsMalformed text := fun text member =>
    valid text ((same text).1 member)
  refine parse_eq_ok_iff.2 ⟨validToo, ?_⟩
  refine (isFilterOf_ofEntries _).unique (isFilterOf_ofEntries _) fun entry => ?_
  rw [mem_entriesOf valid, mem_entriesOf validToo, same]

theorem exists_refused_iff (parsed : parse texts = .ok f) {text : String}
    (parsedToo : parse (text :: texts) = .ok g) :
    (∃ mode submode, f.accepts mode submode = true ∧ g.accepts mode submode = false) ↔
      ∃ (mode : Mode) (submode : String), text = mode.name ++ ":" ++ submode ∧
        mode.name ∈ texts ∧ ∀ other, mode.name ++ ":" ++ other ∉ texts := by
  constructor
  · rintro ⟨mode, submode, before, after⟩
    rw [Bool.eq_false_iff, Ne, accepts_of_parse parsedToo, not_or] at after
    rcases (accepts_of_parse parsed mode submode).1 before with
      ⟨known, named, member⟩ | ⟨alone, unrestricted⟩
    · exact absurd ⟨known, named, List.mem_cons_of_mem _ member⟩ after.1
    · obtain ⟨other, restricted⟩ : ∃ other, mode.name ++ ":" ++ other ∈ text :: texts := by
        by_contra nothing
        exact after.2 ⟨List.mem_cons_of_mem _ alone, not_exists.1 nothing⟩
      refine ⟨mode, other, ?_, alone, unrestricted⟩
      exact ((List.mem_cons.1 restricted).resolve_right (unrestricted other)).symm
  · rintro ⟨mode, submode, rfl, alone, unrestricted⟩
    refine ⟨mode, .none, (accepts_of_parse parsed mode .none).2 (.inr ⟨alone, unrestricted⟩), ?_⟩
    rw [Bool.eq_false_iff, Ne, accepts_of_parse parsedToo]
    rintro (⟨text, none, -⟩ | ⟨-, none⟩)
    · cases none
    · exact none submode List.mem_cons_self

/-- What becomes of a list of texts. It is refused when some text is malformed, for the first of
these. Otherwise the filter accepts a mode with the submodes that it is listed with, and with all
where it is listed alone and with no submode; it is the union of the texts just when no mode is
listed both alone and with a submode. The same texts in another order, some of them repeated, give the
same filter, and a further text takes something away only when it is the first one to name a submode
of a mode that is listed alone. -/
theorem parse_exact (texts : List String) :
    (∀ fault, parse texts = .error fault ↔ ∃ before text after, texts = before ++ text :: after ∧
      (∀ earlier ∈ before, ¬IsMalformed earlier) ∧ IsMalformed text ∧ fault = .modeFilter text) ∧
    ∀ f, parse texts = .ok f →
      (∀ (mode : Mode) (submode : Option String), f.accepts mode submode = true ↔
        (∃ text, submode = some text ∧ mode.name ++ ":" ++ text ∈ texts) ∨
          mode.name ∈ texts ∧ ∀ text, mode.name ++ ":" ++ text ∉ texts) ∧
      (f.IsUnionOf texts ↔
        ∀ mode : Mode, mode.name ∈ texts → ∀ text, mode.name ++ ":" ++ text ∉ texts) ∧
      (∀ others, (∀ text, text ∈ others ↔ text ∈ texts) → parse others = .ok f) ∧
      ∀ text g, parse (text :: texts) = .ok g →
        ((∃ mode submode, f.accepts mode submode = true ∧ g.accepts mode submode = false) ↔
          ∃ (mode : Mode) (submode : String), text = mode.name ++ ":" ++ submode ∧
            mode.name ∈ texts ∧ ∀ other, mode.name ++ ":" ++ other ∉ texts) :=
  ⟨fun _ => parse_eq_error_iff, fun _ parsed => ⟨accepts_of_parse parsed, isUnionOf_iff parsed,
    fun _ same => parse_eq_of_same parsed same, fun _ _ more => exists_refused_iff parsed more⟩⟩

theorem parse_exact_regional : ∃ f g, parse ["rail:regional", "bus", "bus"] = .ok f ∧
    parse ["bus", "rail:regional"] = .ok f ∧ f.IsUnionOf ["rail:regional", "bus", "bus"] ∧
      f.accepts .rail (some "regional") = true ∧
        parse ["bus:night", "rail:regional", "bus", "bus"] = .ok g ∧
          ∃ mode submode, f.accepts mode submode = true ∧ g.accepts mode submode = false := by
  let f : ModeFilter := ⟨[(.bus, []), (.rail, ["regional"])]⟩
  have parsed : parse ["rail:regional", "bus", "bus"] = .ok f := by rfl
  have further : parse ["bus:night", "rail:regional", "bus", "bus"] =
      .ok ⟨[(.bus, ["night"]), (.rail, ["regional"])]⟩ := by rfl
  obtain ⟨accepts, union, same, more⟩ := (parse_exact ["rail:regional", "bus", "bus"]).2 f parsed
  have onlyBus (mode : Mode) (alone : mode.name ∈ ["rail:regional", "bus", "bus"]) : mode = .bus := by
    revert alone
    cases mode <;> decide
  have unrestricted (text : String) :
      Mode.bus.name ++ ":" ++ text ∉ ["rail:regional", "bus", "bus"] := by
    simp [Mode.name, ← String.toList_inj]
  refine ⟨f, _, parsed, same _ (by simp [or_comm]), union.2 fun mode alone => ?_,
    (accepts _ _).2 (.inl ⟨"regional", rfl, List.mem_cons_self⟩), further, (more _ _ further).2 ?_⟩
  · rw [onlyBus mode alone]
    exact unrestricted
  · exact ⟨.bus, "night", rfl, by decide, unrestricted⟩

/-- A night bus that is allowed as well takes back what the mode alone had allowed. -/
theorem not_isUnionOf_night : ∃ f g, parse ["bus"] = .ok f ∧ f.accepts .bus .none = true ∧
    parse ["bus", "bus:night"] = .ok g ∧ g.accepts .bus .none = false ∧
      ¬g.IsUnionOf ["bus", "bus:night"] := by
  refine ⟨⟨[(.bus, [])]⟩, ⟨[(.bus, ["night"])]⟩, rfl, rfl, rfl, rfl, fun union => ?_⟩
  exact absurd ((union .bus .none).2 (.inl List.mem_cons_self)) (by decide)

end ModeFilter

end JourneyPlanner
