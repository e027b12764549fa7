import Mathlib.Data.List.Basic
import Mathlib.Data.List.Nodup

/-!
# Lists searched for their first match

A table kept as a linked list is read with `List.find?` and thinned with `List.eraseP`, and both
stop at the first element that matches.  These are the facts about the two together that
`Mathlib` does not have: what an erasure leaves, and which searches it does not disturb.
-/

set_option autoImplicit false

namespace FirstMatch

variable {α β : Type} {p q : α → Bool} {l : List α} {x : α}

/-- Erasing the first match leaves every element but that one. -/
theorem mem_eraseP_or_find? (h : x ∈ l) : x ∈ l.eraseP q ∨ l.find? q = some x := by
  induction l with
  | nil => cases h
  | cons y l ih =>
    rw [List.eraseP_cons, List.find?_cons]
    cases hy : q y with
    | true =>
      rcases List.mem_cons.mp h with rfl | h
      · exact .inr rfl
      · exact .inl h
    | false =>
      rcases List.mem_cons.mp h with rfl | h
      · exact .inl (by simp)
      · rcases ih h with h | h
        · exact .inl (by simp [h])
        · exact .inr h

/-- An erasure does not show through a filter that rejects what it may erase. -/
theorem filter_eraseP (h : ∀ y ∈ l, q y = true → p y = false) :
    (l.eraseP q).filter p = l.filter p := by
  induction l with
  | nil => rfl
  | cons y l ih =>
    rw [List.eraseP_cons]
    have hl := ih fun z hz ↦ h z (List.mem_cons_of_mem _ hz)
    cases hy : q y with
    | true => simp [h y (by simp) hy]
    | false => simp [List.filter_cons, hl]

/-- An erasure that finds something leaves less of what it may erase. -/
theorem length_filter_eraseP_lt (hx : x ∈ l) (hq : q x = true) (h : ∀ y, q y = true → p y = true) :
    ((l.eraseP q).filter p).length < (l.filter p).length := by
  obtain ⟨y, pre, post, -, hy, rfl, herase⟩ := List.exists_of_eraseP hx hq
  rw [herase]
  simp [h y hy]

/-- A search keeps its result when the erasure takes another element. -/
theorem find?_eraseP_of_ne (h : l.find? p = some x) (hq : l.find? q ≠ some x) :
    (l.eraseP q).find? p = some x := by
  induction l with
  | nil => cases h
  | cons y l ih =>
    rw [List.find?_cons] at h hq
    rw [List.eraseP_cons]
    cases hqy : q y <;> cases hpy : p y <;> simp only [hqy, hpy] at h hq ⊢
    · simpa [hpy] using ih h hq
    · simpa [hpy] using h
    · exact h
    · exact absurd h hq

/-- When the first match has a further property, it is also the first match with that property, and the
one that is erased. -/
theorem eraseP_of_find? {c : α → Bool} (h : l.find? p = some x) (hc : c x = true) :
    ∃ pre post, l = pre ++ x :: post ∧ (l.eraseP fun y ↦ p y && c y) = pre ++ post := by
  obtain ⟨hx, pre, post, rfl, hpre⟩ := List.find?_eq_some_iff_append.mp h
  refine ⟨pre, post, rfl, ?_⟩
  have hno : ∀ y ∈ pre, ¬ (p y && c y) = true := fun y hy ↦ by
    have hy' : p y = false := by simpa using hpre y hy
    simp [hy']
  rw [List.eraseP_append_right _ hno, List.eraseP_cons_of_pos (by simp [hx, hc])]

/-- Erasing the first match erases every match, when there is at most one. -/
theorem not_of_mem_eraseP (hc : l.countP q ≤ 1) (hx : x ∈ l.eraseP q) : q x = false := by
  induction l with
  | nil => cases hx
  | cons y l ih =>
    rw [List.eraseP_cons] at hx
    cases hy : q y with
    | true =>
      rw [List.countP_cons_of_pos hy] at hc
      have hnone : l.countP q = 0 := by omega
      simpa [hy] using List.countP_eq_zero.mp hnone x (by simpa [hy] using hx)
    | false =>
      rw [List.countP_cons_of_neg (by simp [hy])] at hc
      rcases List.mem_cons.mp (by simpa [hy] using hx) with rfl | hx
      · exact hy
      · exact ih hc hx

/-- There is at most one match when two never match together. -/
theorem countP_le_one (h : l.Pairwise fun x y ↦ q x = true → q y = false) : l.countP q ≤ 1 := by
  induction l with
  | nil => simp
  | cons y l ih =>
    rw [List.pairwise_cons] at h
    cases hy : q y with
    | true =>
      have hnone : l.countP q = 0 := List.countP_eq_zero.mpr fun z hz ↦ by simp [h.1 z hz hy]
      rw [List.countP_cons_of_pos hy]
      omega
    | false =>
      rw [List.countP_cons_of_neg (by simp [hy])]
      exact ih h.2

/-- When keys are not repeated, the first match for a key is the only one. -/
theorem find?_of_nodup [DecidableEq β] {key : α → β} (hn : (l.map key).Nodup) (hx : x ∈ l) :
    (l.find? fun y ↦ decide (key y = key x)) = some x := by
  induction l with
  | nil => cases hx
  | cons y l ih =>
    rw [List.map_cons, List.nodup_cons] at hn
    rcases List.mem_cons.mp hx with rfl | hx
    · simp
    · have hne : key y ≠ key x := fun h ↦ hn.1 (h ▸ List.mem_map_of_mem hx)
      rw [List.find?_cons]
      simpa [hne] using ih hn.2 hx

end FirstMatch
