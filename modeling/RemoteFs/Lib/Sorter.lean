import Mathlib.Algebra.Group.Int.Defs
import Mathlib.Data.List.Pairwise
import Mathlib.Logic.Function.Defs

/-!
# Sorting by a comparison

A comparison of two elements comes to a number, and the sign of the number says which of them goes
first.  A sorting function is promised to sort only if the signs are consistent with each other.

* `Consistent cmp xs` — on the elements of `xs` the signs are those of some order.
* `Sorter` — a sorting function with this promise and no other.  `Sorter.merge` is one.
* `Agrees key cmp xs` — the signs are those of the order of the keys.  Then the sorted list ascends
  (`Agrees.sorts`), and otherwise it does not (`Sorter.ascends_iff`): a comparison may be consistent
  and still sort by some other order.
-/

set_option autoImplicit false

namespace Sorting

variable {α : Type}

/-- The comparisons of the elements are consistent with each other. -/
structure Consistent (cmp : α → α → ℤ) (xs : List α) : Prop where
  antisymm : ∀ a ∈ xs, ∀ b ∈ xs, cmp a b < 0 ↔ 0 < cmp b a
  trans : ∀ a ∈ xs, ∀ b ∈ xs, ∀ c ∈ xs, cmp a b ≤ 0 → cmp b c ≤ 0 → cmp a c ≤ 0

/-- The elements compare as their keys do. -/
structure Agrees (key : α → ℤ) (cmp : α → α → ℤ) (xs : List α) : Prop where
  below : ∀ a ∈ xs, ∀ b ∈ xs, cmp a b < 0 ↔ key a < key b
  above : ∀ a ∈ xs, ∀ b ∈ xs, 0 < cmp a b ↔ key b < key a

/-- A function that sorts, if the comparisons are consistent; otherwise it may do anything, or fault with
an `ε`. -/
structure Sorter (ε α : Type) where
  sort : (α → α → ℤ) → List α → Except ε (List α)
  /-- What is sorted is put in order. -/
  sorts : ∀ {cmp : α → α → ℤ} {xs : List α}, Consistent cmp xs →
    ∃ ys, sort cmp xs = .ok ys ∧ ys.Perm xs ∧ ys.Pairwise fun a b ↦ cmp a b ≤ 0

variable {cmp : α → α → ℤ} {xs ys : List α}

namespace Consistent

theorem total (h : Consistent cmp xs) {a b : α} (ha : a ∈ xs) (hb : b ∈ xs) :
    cmp a b ≤ 0 ∨ cmp b a ≤ 0 := by
  have hab := h.antisymm b hb a ha
  omega

/-- Merging sorts what is compared consistently, also when other elements are not. -/
theorem pairwise_mergeSort (h : Consistent cmp xs) :
    (xs.mergeSort fun a b ↦ decide (cmp a b ≤ 0)).Pairwise fun a b ↦ cmp a b ≤ 0 := by
  have hattach : (xs.attach.mergeSort fun a b ↦ decide (cmp a.1 b.1 ≤ 0)).map Subtype.val
      = xs.mergeSort fun a b ↦ decide (cmp a b ≤ 0) := by
    rw [List.map_mergeSort (s := fun a b ↦ decide (cmp a b ≤ 0)) fun a _ b _ ↦ rfl,
      List.attach_map_subtype_val]
  rw [← hattach, List.pairwise_map]
  refine List.Pairwise.imp of_decide_eq_true (List.pairwise_mergeSort ?_ ?_ _)
  · intro a b c hab hbc
    exact decide_eq_true (h.trans a.1 a.2 b.1 b.2 c.1 c.2 (of_decide_eq_true hab)
      (of_decide_eq_true hbc))
  · intro a b
    rw [Bool.or_eq_true, decide_eq_true_iff, decide_eq_true_iff]
    exact h.total a.2 b.2

end Consistent

/-- Merge sort keeps the promise. -/
def Sorter.merge (ε α : Type) : Sorter ε α where
  sort cmp xs := .ok (xs.mergeSort fun a b ↦ decide (cmp a b ≤ 0))
  sorts h := ⟨_, rfl, List.mergeSort_perm _ _, h.pairwise_mergeSort⟩

/-! ## Sorting by a key -/

variable {key : α → ℤ} {ε : Type}

namespace Agrees

theorem le_iff (h : Agrees key cmp xs) {a b : α} (ha : a ∈ xs) (hb : b ∈ xs) :
    cmp a b ≤ 0 ↔ key a ≤ key b := by
  rw [← Int.not_lt, h.above a ha b hb, Int.not_lt]

theorem consistent (h : Agrees key cmp xs) : Consistent cmp xs where
  antisymm a ha b hb := by rw [h.below a ha b hb, h.above b hb a ha]
  trans a ha b hb c hc hab hbc :=
    (h.le_iff ha hc).mpr (Int.le_trans ((h.le_iff ha hb).mp hab) ((h.le_iff hb hc).mp hbc))

/-- **A comparison that agrees with the keys sorts by the keys.** -/
theorem sorts (h : Agrees key cmp xs) (S : Sorter ε α) :
    ∃ ys, S.sort cmp xs = .ok ys ∧ ys.Perm xs ∧ ys.Pairwise fun a b ↦ key a ≤ key b := by
  obtain ⟨ys, hsort, hperm, hys⟩ := S.sorts h.consistent
  refine ⟨ys, hsort, hperm, hys.imp_of_mem fun {a b} ha hb hab ↦ ?_⟩
  exact (h.le_iff (hperm.mem_iff.mp ha) (hperm.mem_iff.mp hb)).mp hab

end Agrees

/-- **And no other does**: what has been sorted ascends exactly when the comparison agrees with the
keys. -/
theorem Sorter.ascends_iff (S : Sorter ε α) (hinj : Function.Injective key)
    (hcons : Consistent cmp xs) (hzero : ∀ a ∈ xs, ∀ b ∈ xs, cmp a b = 0 → a = b)
    (hsort : S.sort cmp xs = .ok ys) :
    (ys.Pairwise fun a b ↦ key a ≤ key b) ↔ Agrees key cmp xs := by
  obtain ⟨zs, hzs, hperm, hys⟩ := S.sorts hcons
  obtain rfl : ys = zs := Except.ok.inj (hsort.symm.trans hzs)
  constructor
  · intro hasc
    -- of two elements, one stands before the other
    have hlt {a b : α} (ha : a ∈ xs) (hb : b ∈ xs) (hab : key a < key b) : cmp a b < 0 := by
      have hsymm : ys.Pairwise fun a b ↦
          (key a ≤ key b ∧ cmp a b ≤ 0) ∨ (key b ≤ key a ∧ cmp b a ≤ 0) :=
        (hasc.and hys).imp Or.inl
      have : Std.Symm fun a b : α ↦
          (key a ≤ key b ∧ cmp a b ≤ 0) ∨ (key b ≤ key a ∧ cmp b a ≤ 0) := ⟨fun _ _ ↦ Or.symm⟩
      have hne : a ≠ b := by
        rintro rfl
        exact Int.lt_irrefl _ hab
      rcases hsymm.forall (hperm.mem_iff.mpr ha) (hperm.mem_iff.mpr hb) hne with h | h
      · exact Int.lt_iff_le_and_ne.mpr ⟨h.2, fun heq ↦ hne (hzero a ha b hb heq)⟩
      · exact absurd h.1 (Int.not_le.mpr hab)
    have hiff {a b : α} (ha : a ∈ xs) (hb : b ∈ xs) : cmp a b < 0 ↔ key a < key b := by
      refine ⟨fun hneg ↦ ?_, hlt ha hb⟩
      rcases Int.lt_trichotomy (key a) (key b) with h | h | h
      · exact h
      · obtain rfl := hinj h
        exact absurd ((hcons.antisymm a ha a ha).mp hneg) (Int.lt_asymm hneg)
      · exact absurd ((hcons.antisymm a ha b hb).mp hneg) (Int.lt_asymm (hlt hb ha h))
    refine ⟨fun a ha b hb ↦ hiff ha hb, fun a ha b hb ↦ ?_⟩
    rw [← hcons.antisymm b hb a ha, hiff hb ha]
  · intro hagrees
    obtain ⟨zs, hzs, -, hzs'⟩ := hagrees.sorts S
    rw [hsort, Except.ok.injEq] at hzs
    rwa [hzs]

end Sorting
