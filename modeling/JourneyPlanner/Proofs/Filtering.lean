import Mathlib.Data.List.Basic

/-!
A filter commutes with what is done to a list as a whole: with a sort by an order that is total and
transitive and that keeps the order of what it does not tell apart, and with dropping repeated items.
Filters by all the values of a key together keep every item once.
-/

namespace JourneyPlanner

variable {α : Type} {le : α → α → Bool}

theorem append_inj_of_split {p : α → Bool} {a b x y : List α} (equal : a ++ b = x ++ y)
    (inside : ∀ e ∈ a, p e = true) (outside : ∀ e ∈ b, p e = false)
    (within : ∀ e ∈ x, p e = true) (without : ∀ e ∈ y, p e = false) : a = x ∧ b = y := by
  have first {l m : List α} (all : ∀ e ∈ l, p e = true) (none : ∀ e ∈ m, p e = false) :
      (l ++ m).filter p = l := by
    have nothing : m.filter p = [] := List.filter_eq_nil_iff.2 fun e member => by
      simp [none e member]
    rw [List.filter_append, List.filter_eq_self.2 all, nothing, List.append_nil]
  have same : a = x := by
    rw [← first inside outside, equal, first within without]
  exact ⟨same, List.append_cancel_left (same ▸ equal)⟩

theorem mergeSort_split (trans : ∀ a b c, le a b = true → le b c = true → le a c = true)
    (total : ∀ a b, (le a b || le b a) = true) (a : α) (l : List α) :
    ∃ before after, (a :: l).mergeSort le = before ++ a :: after ∧
      l.mergeSort le = before ++ after ∧ (∀ b ∈ before, (!le a b) = true) ∧
        ∀ b ∈ after, (!le a b) = false := by
  obtain ⟨before, after, whole, rest, less⟩ := List.mergeSort_cons trans total a l
  have sorted := List.pairwise_mergeSort trans total (a :: l)
  rw [whole, List.pairwise_append, List.pairwise_cons] at sorted
  refine ⟨before, after, whole, rest, less, fun b member => ?_⟩
  rw [sorted.2.1.1 b member]
  rfl

theorem filter_mergeSort (trans : ∀ a b c, le a b = true → le b c = true → le a c = true)
    (total : ∀ a b, (le a b || le b a) = true) (p : α → Bool) (l : List α) :
    (l.mergeSort le).filter p = (l.filter p).mergeSort le := by
  induction l with
  | nil => simp
  | cons a l ih =>
      obtain ⟨before, after, whole, rest, less, more⟩ := mergeSort_split trans total a l
      rw [rest, List.filter_append] at ih
      rw [whole, List.filter_append, List.filter_cons, List.filter_cons]
      cases p a with
      | false => exact ih
      | true =>
          obtain ⟨first, last, all, others, fewer, further⟩ :=
            mergeSort_split trans total a (l.filter p)
          have equal : before.filter p ++ after.filter p = first ++ last := ih.trans others
          obtain ⟨left, right⟩ := append_inj_of_split equal
            (fun b member => less b (List.mem_filter.1 member).1)
            (fun b member => more b (List.mem_filter.1 member).1) fewer further
          simp only [if_true]
          rw [all, left, right]

theorem filter_eraseDups [BEq α] [LawfulBEq α] (p : α → Bool) :
    ∀ l : List α, l.eraseDups.filter p = (l.filter p).eraseDups
  | [] => by simp
  | a :: l => by
      have rest := filter_eraseDups p (l.filter fun b => !b == a)
      rw [List.filter_comm] at rest
      rw [List.eraseDups_cons, List.filter_cons, List.filter_cons, rest]
      cases known : p a with
      | true => rw [if_pos rfl, if_pos rfl, List.eraseDups_cons]
      | false =>
          have others : (l.filter p).filter (fun b => !b == a) = l.filter p := by
            rw [List.filter_eq_self]
            intro b member
            have has := (List.mem_filter.1 member).2
            have apart : b ≠ a := by
              rintro rfl
              rw [known] at has
              cases has
            simpa using apart
          rw [if_neg (by simp), if_neg (by simp), others]
termination_by l => l.length
decreasing_by exact Nat.lt_succ_of_le (List.length_filter_le _ _)

theorem nodup_eraseDups [BEq α] [LawfulBEq α] : ∀ l : List α, l.eraseDups.Nodup
  | [] => by simp
  | a :: l => by
      rw [List.eraseDups_cons, List.nodup_cons]
      refine ⟨?_, nodup_eraseDups _⟩
      simp [List.mem_eraseDups]
termination_by l => l.length
decreasing_by exact Nat.lt_succ_of_le (List.length_filter_le _ _)

theorem eraseDups_concat [BEq α] [LawfulBEq α] (l : List α) (a : α) :
    (l ++ [a]).eraseDups = if a ∈ l then l.eraseDups else l.eraseDups ++ [a] := by
  rw [List.eraseDups_append]
  split
  · next old => simp [List.removeAll, old]
  · next new => simp [List.removeAll, new, List.eraseDups_cons]

theorem flatMap_filter_perm {κ : Type} [DecidableEq κ] (key : α → κ) (l : List α) {keys : List κ}
    (distinct : keys.Nodup) :
    (keys.flatMap fun k => l.filter fun a => key a = k).Perm (l.filter fun a => key a ∈ keys) := by
  induction keys with
  | nil => simp
  | cons k rest ih =>
      obtain ⟨new, distinct⟩ := List.nodup_cons.1 distinct
      have first : (l.filter fun a => key a ∈ k :: rest).filter (fun a => key a = k) =
          l.filter fun a => key a = k := by
        rw [List.filter_filter]
        exact List.filter_congr fun a _ => by simp +contextual
      have others : (l.filter fun a => key a ∈ k :: rest).filter (fun a => !decide (key a = k)) =
          l.filter fun a => key a ∈ rest := by
        rw [List.filter_filter]
        refine List.filter_congr fun a _ => ?_
        by_cases same : key a = k
        · simp [same, new]
        · simp [same]
      have halves := List.filter_append_perm (fun a => decide (key a = k))
        (l.filter fun a => key a ∈ k :: rest)
      rw [first, others] at halves
      rw [List.flatMap_cons]
      exact ((ih distinct).append_left _).trans halves

end JourneyPlanner
