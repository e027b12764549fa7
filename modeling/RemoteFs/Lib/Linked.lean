import Mathlib.Data.Fintype.EquivFin
import Mathlib.Data.List.Basic
import Mathlib.Data.List.Nodup
import RemoteFs.Lib.FirstMatch

/-!
# Linked lists in memory

A heap of cells with a link each; a link is an address or `NULL`.  `Seg h p l q` says what a program
sees that follows the links from `p` until it stands at `q`: the cells `l`, each with its address.
A list is a segment that ends at `NULL`.  It is determined by where it starts (`Seg.unique`), so no
address is met twice (`Seg.nodup`), and that is why a cell can be unlinked and freed without disturbing
the others: at the front (`Seg.free_head`), or behind another cell (`Seg.unlink_after`).

`Owns h p l` adds that nothing else is allocated; a removal that frees the cell keeps it so
(`Owns.eraseP`).
-/

set_option autoImplicit false

namespace Linked

variable {α : Type}

/-- A pointer to a cell; `none` is `NULL`. -/
abbrev Link : Type := Option ℕ

/-- A cell. -/
structure Cell (α : Type) where
  val : α
  next : Link

/-- What is allocated, and what it holds. -/
abbrev Heap (α : Type) : Type := ℕ → Option (Cell α)

/-- `free(a)`. -/
def Heap.free (h : Heap α) (a : ℕ) : Heap α := fun b ↦ if b = a then none else h b

/-- `*a = c`. -/
def Heap.store (h : Heap α) (a : ℕ) (c : Cell α) : Heap α := fun b ↦ if b = a then some c else h b

theorem Heap.free_self (h : Heap α) (a : ℕ) : h.free a a = none := if_pos rfl

theorem Heap.free_of_ne (h : Heap α) {a b : ℕ} (hne : b ≠ a) : h.free a b = h b := if_neg hne

theorem Heap.store_self (h : Heap α) (a : ℕ) (c : Cell α) : h.store a c a = some c := if_pos rfl

theorem Heap.store_of_ne (h : Heap α) {a b : ℕ} (c : Cell α) (hne : b ≠ a) : h.store a c b = h b :=
  if_neg hne

/-- From `p` to `q` the links lead through the cells `l`. -/
inductive Seg (h : Heap α) : Link → List (ℕ × α) → Link → Prop
  | nil (p : Link) : Seg h p [] p
  | cons {a : ℕ} {v : α} {next q : Link} {l : List (ℕ × α)} (cell : h a = some ⟨v, next⟩)
    (rest : Seg h next l q) : Seg h (some a) ((a, v) :: l) q

namespace Seg

variable {h h' : Heap α} {p q r next : Link} {a b : ℕ} {v w : α} {l l' : List (ℕ × α)}

/-- One segment behind the other. -/
theorem append (hl : Seg h p l q) (hl' : Seg h q l' r) : Seg h p (l ++ l') r := by
  induction hl with
  | nil => exact hl'
  | cons cell _ ih => exact .cons cell (ih hl')

/-- A segment can be cut anywhere. -/
theorem of_append (hl : Seg h p (l ++ l') r) : ∃ q, Seg h p l q ∧ Seg h q l' r := by
  induction l generalizing p with
  | nil => exact ⟨p, .nil p, hl⟩
  | cons x l ih =>
    cases hl with
    | cons cell rest =>
      obtain ⟨q, hq, hr⟩ := ih rest
      exact ⟨q, .cons cell hq, hr⟩

/-- Only the cells met matter. -/
theorem congr (hl : Seg h p l q) (heq : ∀ x ∈ l, h' x.1 = h x.1) : Seg h' p l q := by
  induction hl with
  | nil => exact .nil _
  | cons cell _ ih =>
    refine .cons ((heq _ (List.mem_cons_self ..)).trans cell) (ih fun x hx ↦ ?_)
    exact heq x (List.mem_cons_of_mem _ hx)

/-- What is met is in the heap. -/
theorem exists_cell (hl : Seg h p l q) {x : ℕ × α} (hx : x ∈ l) : ∃ next, h x.1 = some ⟨x.2, next⟩ := by
  induction hl with
  | nil => cases hx
  | cons cell _ ih =>
    rcases List.mem_cons.mp hx with rfl | hx
    · exact ⟨_, cell⟩
    · exact ih hx

/-- **There is one list from a pointer to `NULL`.** -/
theorem unique (hl : Seg h p l none) (hl' : Seg h p l' none) : l = l' := by
  generalize hq : (none : Link) = q at hl
  induction hl generalizing l' with
  | nil =>
    cases hq
    cases hl' with
    | nil => rfl
  | cons cell _ ih =>
    cases hl' with
    | cons cell' rest' =>
      rw [cell, Option.some.injEq, Cell.mk.injEq] at cell'
      obtain ⟨rfl, rfl⟩ := cell'
      rw [ih rest' hq]

/-- **No cell is met twice**: a list that came back to an address would go on as before. -/
theorem nodup (hl : Seg h p l none) : (l.map Prod.fst).Nodup := by
  induction l generalizing p with
  | nil => exact List.nodup_nil
  | cons x l ih =>
    cases hl with
    | cons cell rest =>
      rename_i a v next
      rw [List.map_cons, List.nodup_cons]
      refine ⟨fun hmem ↦ ?_, ih rest⟩
      obtain ⟨⟨a', v'⟩, hx, rfl⟩ := List.mem_map.mp hmem
      obtain ⟨pre, post, rfl⟩ := List.append_of_mem hx
      obtain ⟨q, -, hq⟩ := rest.of_append
      cases hq with
      | cons cell' rest' =>
        have hsame := congrArg List.length (unique (.cons cell rest) (.cons cell' rest'))
        simp only [List.length_cons, List.length_append] at hsame
        omega

theorem not_mem_tail (hl : Seg h (some a) ((a, v) :: l) none) {x : ℕ × α} (hx : x ∈ l) : x.1 ≠ a := by
  have hnodup := hl.nodup
  rw [List.map_cons, List.nodup_cons] at hnodup
  intro hxa
  exact hnodup.1 (List.mem_map.mpr ⟨x, hx, hxa⟩)

/-- A new cell in front. -/
theorem store_head (hl : Seg h p l none) (hfresh : h a = none) (v : α) :
    Seg (h.store a ⟨v, p⟩) (some a) ((a, v) :: l) none := by
  refine .cons (h.store_self a _) (hl.congr fun x hx ↦ h.store_of_ne _ ?_)
  rintro rfl
  obtain ⟨next, hcell⟩ := hl.exists_cell hx
  rw [hfresh] at hcell
  cases hcell

/-- **Unlinking the first cell**: whoever pointed to it points to the next. -/
theorem free_head (hl : Seg h (some a) ((a, v) :: l) none) (cell : h a = some ⟨v, next⟩) :
    Seg (h.free a) next l none := by
  have hne (x : ℕ × α) (hx : x ∈ l) : x.1 ≠ a := hl.not_mem_tail hx
  cases hl with
  | cons cell' rest =>
    rw [cell, Option.some.injEq, Cell.mk.injEq] at cell'
    rw [cell'.2]
    exact rest.congr fun x hx ↦ h.free_of_ne (hne x hx)

/-- **Unlinking a cell behind another**, whose link is set to the next. -/
theorem unlink_after (hpre : Seg h p (l ++ [(b, w)]) (some a)) (hl : Seg h (some a) ((a, v) :: l') none)
    (cell : h a = some ⟨v, next⟩) :
    Seg ((h.store b ⟨w, next⟩).free a) p ((l ++ [(b, w)]) ++ l') none := by
  have hnodup := (hpre.append hl).nodup
  simp only [List.map_append, List.map_cons, List.map_nil] at hnodup
  have hcells := List.nodup_append.mp hnodup
  obtain ⟨hfront, -, hapart⟩ := hcells
  have hback : Seg (h.free a) next l' none := hl.free_head cell
  -- neither the cell that is freed nor the one that is written to is among the others
  have ha : ∀ x ∈ l ++ [(b, w)], x.1 ≠ a := fun x hx ↦ hapart x.1
    (by simpa using List.mem_map_of_mem (f := Prod.fst) hx) a (List.mem_cons_self ..)
  have hb : ∀ x ∈ l', x.1 ≠ b := fun x hx h ↦ hapart b (by simp) x.1
    (List.mem_cons_of_mem _ (List.mem_map_of_mem hx)) h.symm
  have hbl : ∀ x ∈ l, x.1 ≠ b := fun x hx h ↦ (List.nodup_append.mp hfront).2.2 x.1
    (List.mem_map_of_mem hx) b (List.mem_singleton_self b) h
  obtain ⟨q, hq, hlast⟩ := hpre.of_append
  cases hlast with
  | cons _ _ =>
    refine ((hq.congr fun x hx ↦ ?_).append (.cons ?_ (.nil next))).append (hback.congr fun x hx ↦ ?_)
    · rw [Heap.free_of_ne _ (ha x (List.mem_append_left _ hx)), Heap.store_of_ne _ _ (hbl x hx)]
    · rw [Heap.free_of_ne _ (ha (b, w) (by simp)), Heap.store_self]
    · by_cases hxa : x.1 = a
      · rw [hxa]
        exact (Heap.free_self _ a).trans (h.free_self a).symm
      · rw [Heap.free_of_ne _ hxa, Heap.free_of_ne _ hxa, Heap.store_of_ne _ _ (hb x hx)]

end Seg

/-! ## Nothing else is allocated -/

/-- From `p` the links lead through the cells `l` to `NULL`, and there are no other cells: none has been
lost. -/
structure Owns (h : Heap α) (p : Link) (l : List (ℕ × α)) : Prop where
  seg : Seg h p l none
  only : ∀ a, h a ≠ none → a ∈ l.map Prod.fst

namespace Owns

variable {h h' : Heap α} {p p' : Link} {a : ℕ} {l : List (ℕ × α)}

theorem empty : Owns (fun _ ↦ none : Heap α) none [] := ⟨.nil none, fun _ h ↦ absurd rfl h⟩

theorem store_head (ho : Owns h p l) (hfresh : h a = none) (v : α) :
    Owns (h.store a ⟨v, p⟩) (some a) ((a, v) :: l) where
  seg := ho.seg.store_head hfresh v
  only b hb := by
    by_cases hba : b = a
    · rw [hba]
      exact List.mem_cons_self
    · rw [Heap.store_of_ne _ _ hba] at hb
      exact List.mem_cons_of_mem _ (ho.only b hb)

/-- There is always a block left. -/
theorem exists_fresh (ho : Owns h p l) : ∃ a, h a = none := by
  obtain ⟨a, ha⟩ := Infinite.exists_notMem_finset (l.map Prod.fst).toFinset
  refine ⟨a, not_not.mp fun hne ↦ ha ?_⟩
  exact List.mem_toFinset.mpr (ho.only a hne)

/-- **A removal that frees what it unlinks loses nothing.** -/
theorem eraseP (ho : Owns h p l) {q : ℕ × α → Bool} (hseg : Seg h' p' (l.eraseP q) none)
    (hfreed : h' = h ∧ p' = p ∨
      ∃ a, h a ≠ none ∧ h' a = none ∧ ∀ b, h' b ≠ none → h b ≠ none) :
    Owns h' p' (l.eraseP q) := by
  refine ⟨hseg, fun b hb ↦ ?_⟩
  rcases hfreed with ⟨rfl, rfl⟩ | ⟨a, ha, ha', hmono⟩
  · rw [hseg.unique ho.seg]
    exact ho.only b hb
  · -- what is missing from the list is the one element that was erased, and that is the freed one
    have hmissing : ∀ c, c ∈ l.map Prod.fst → c ∉ (l.eraseP q).map Prod.fst →
        ∃ v, l.find? q = some (c, v) := by
      intro c hc hnot
      obtain ⟨⟨c, v⟩, hmem, rfl⟩ := List.mem_map.mp hc
      rcases FirstMatch.mem_eraseP_or_find? (q := q) hmem with hkept | hfound
      · exact absurd (List.mem_map_of_mem hkept) hnot
      · exact ⟨v, hfound⟩
    by_contra hnot
    obtain ⟨v, hv⟩ := hmissing b (ho.only b (hmono b hb)) hnot
    have hgone : a ∉ (l.eraseP q).map Prod.fst := by
      intro hmem
      obtain ⟨x, hx, rfl⟩ := List.mem_map.mp hmem
      obtain ⟨next, hcell⟩ := hseg.exists_cell hx
      rw [ha'] at hcell
      cases hcell
    obtain ⟨v', hv'⟩ := hmissing a (ho.only a ha) hgone
    rw [hv, Option.some.injEq, Prod.mk.injEq] at hv'
    rw [hv'.1] at hb
    exact hb ha'

end Owns

end Linked
