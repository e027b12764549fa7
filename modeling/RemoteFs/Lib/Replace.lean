import Mathlib.Data.List.Basic

/-!
# Replacing every occurrence of a list in a list

`Replaced pat rep l new` says that `new` is `l` with `rep` in the place of occurrences of `pat`: the
first one, then the first one behind it, and so on until there are none.  What is asked about it is
when it changes nothing (`Replaced.eq_self_iff`): only if there is no occurrence, or the replacement
is what it replaces.  That needs no more than lengths, because the parts behind an occurrence grow
or shrink in the same direction as the part in its place.
-/

set_option autoImplicit false

variable {α : Type} {pat rep l new after : List α}

/-- What begins with `pat` is not found before its first occurrence. -/
theorem infix_append_iff_of_first {before pat' : List α}
    (first : ∀ b a, before ++ pat ++ after = b ++ pat ++ a → before.length ≤ b.length)
    (hpat : pat <+: pat') :
    pat' <:+: before ++ pat ++ after ↔ pat' <:+: pat ++ after := by
  constructor
  · rintro ⟨b, a, h⟩
    obtain ⟨tail, rfl⟩ := hpat
    have hle : before.length ≤ b.length := first b (tail ++ a) (by simp [← h])
    have hb : b <+: before ++ (pat ++ after) := by
      rw [← List.append_assoc, ← h, List.append_assoc]
      exact List.prefix_append _ _
    obtain ⟨b', rfl⟩ := List.prefix_of_prefix_length_le (List.prefix_append _ _) hb hle
    simp only [List.append_assoc, List.append_right_inj] at h
    exact ⟨b', a, by simp only [List.append_assoc, h]⟩
  · intro h
    rw [List.append_assoc]
    exact h.trans (List.suffix_append _ _).isInfix

/-- `new` is `l` with the occurrences of `pat` replaced by `rep`. -/
inductive Replaced (pat rep : List α) : List α → List α → Prop
  | none {l : List α} (h : ¬ pat <:+: l) : Replaced pat rep l l
  | next {before after new : List α}
    (first : ∀ b a, before ++ pat ++ after = b ++ pat ++ a → before.length ≤ b.length)
    (rest : Replaced pat rep after new) :
    Replaced pat rep (before ++ pat ++ after) (before ++ rep ++ new)

namespace Replaced

theorem length_le (h : Replaced pat rep l new) (hle : rep.length ≤ pat.length) :
    new.length ≤ l.length := by
  induction h with
  | none => exact Nat.le_refl _
  | next _ _ ih =>
    simp only [List.length_append]
    omega

theorem le_length (h : Replaced pat rep l new) (hle : pat.length ≤ rep.length) :
    l.length ≤ new.length := by
  induction h with
  | none => exact Nat.le_refl _
  | next _ _ ih =>
    simp only [List.length_append]
    omega

/-- There is one result. -/
theorem unique (h : Replaced pat rep l new) {new' : List α} (h' : Replaced pat rep l new') :
    new = new' := by
  induction h generalizing new' with
  | none hnot =>
    cases h' with
    | none => rfl
    | next => exact absurd (List.infix_append _ _ _) hnot
  | @next before after new first _ ih =>
    generalize hl : before ++ pat ++ after = l at h'
    cases h' with
    | none hnot => exact absurd (hl ▸ List.infix_append _ _ _) hnot
    | @next before' after' new' first' rest' =>
      have hlen : before.length = before'.length :=
        Nat.le_antisymm (first _ _ hl) (first' _ _ hl.symm)
      rw [List.append_assoc, List.append_assoc] at hl
      obtain ⟨hbefore, hrest⟩ := List.append_inj hl hlen
      rw [hbefore, ih (List.append_cancel_left hrest ▸ rest')]

/-- An occurrence in front is the first one. -/
theorem exists_of_append (h : Replaced pat rep l new) (hl : l = pat ++ after) :
    ∃ new', new = rep ++ new' ∧ Replaced pat rep after new' := by
  cases h with
  | none hnot =>
    rw [hl] at hnot
    exact absurd (List.infix_append_left) hnot
  | @next before after' new' first rest =>
    have hbefore : before = [] := List.length_eq_zero_iff.mp (Nat.le_zero.mp (first [] after hl))
    rw [hbefore, List.nil_append] at hl
    rw [hbefore, ← List.append_cancel_left hl]
    exact ⟨new', rfl, rest⟩

/-- Replacing a list by itself changes nothing. -/
theorem eq_self (h : Replaced pat pat l new) : new = l := by
  induction h with
  | none => rfl
  | next _ _ ih => rw [ih]

/-- **When nothing changes.** -/
theorem eq_self_iff (h : Replaced pat rep l new) : new = l ↔ ¬ pat <:+: l ∨ rep = pat := by
  constructor
  · intro heq
    cases h with
    | none hnot => exact .inl hnot
    | @next before after new _ rest =>
      right
      have hsame : rep ++ new = pat ++ after := by
        rw [List.append_assoc, List.append_assoc] at heq
        exact List.append_cancel_left heq
      have hlen := congrArg List.length hsame
      rw [List.length_append, List.length_append] at hlen
      refine (List.append_inj hsame ?_).1
      -- were one of the two longer, the rest would be no shorter, and so the whole
      rcases Nat.le_total rep.length pat.length with hle | hle
      · have hnew := rest.length_le hle
        omega
      · have hnew := rest.le_length hle
        omega
  · rintro (hnot | rfl)
    · cases h with
      | none => rfl
      | next => exact absurd (List.infix_append _ _ _) hnot
    · exact h.eq_self

/-- What comes out is what went in, or has the replacement in it. -/
theorem eq_or_infix (h : Replaced pat rep l new) : new = l ∧ ¬ pat <:+: l ∨ rep <:+: new := by
  cases h with
  | none hnot => exact .inl ⟨rfl, hnot⟩
  | next => exact .inr (List.infix_append _ _ _)

/-- No letters are made up. -/
theorem mem (h : Replaced pat rep l new) {a : α} (ha : a ∈ new) : a ∈ l ∨ a ∈ rep := by
  induction h with
  | none => exact .inl ha
  | next _ _ ih =>
    rcases List.mem_append.mp ha with ha | ha
    · rcases List.mem_append.mp ha with ha | ha
      · exact .inl (List.mem_append_left _ (List.mem_append_left _ ha))
      · exact .inr ha
    · exact (ih ha).imp_left (List.mem_append_right _)

/-- **One letter more in front**, and the rest as it was: then the one occurrence was the beginning,
and its replacement brought the letter along. -/
theorem eq_cons {a : α} (h : Replaced pat rep l new) (hnew : new = a :: l)
    (hhead : l.head? ≠ some a) : rep = a :: pat := by
  cases h with
  | none =>
    have hlen := congrArg List.length hnew
    rw [List.length_cons] at hlen
    omega
  | @next before after new _ rest =>
    cases before with
    | cons b before =>
      rw [List.cons_append, List.cons_append, List.cons.injEq] at hnew
      exact absurd (by rw [← hnew.1]; rfl) hhead
    | nil =>
      have hsame : rep ++ new = (a :: pat) ++ after := hnew
      have hlen := congrArg List.length hsame
      rw [List.length_append, List.length_append, List.length_cons] at hlen
      refine (List.append_inj hsame ?_).1
      rw [List.length_cons]
      rcases Nat.lt_or_ge pat.length rep.length with hlt | hle
      · have hle := rest.le_length (Nat.le_of_lt hlt)
        omega
      · have hle' := rest.length_le hle
        omega

end Replaced
