import Mathlib.Data.List.Basic
import Mathlib.Logic.Function.Basic

/-!
# Handles for things that are opened and closed

A table gives out names (`ν`) for things (`ρ`): a thing is opened under a name, used through the
name any number of times, and closed through it.  A history, newest use first, is a list of `Use`s,
of names or of things.  `inUse` are those opened and not closed since, `gone` those closed and not
opened again since, and a history is `WellUsed` if nothing is used or closed that is not in use.

`Apart look live inUse` is the invariant of such a table: looked up, the live names denote things in
use, and different ones different things.  The rules `Apart.opened` and `Apart.closed` preserve it;
without the second half of it, closing one name could take away what another one denotes.
-/

set_option autoImplicit false

/-- What happens to a thing, or to the name of one. -/
inductive Use (α : Type) where
  | opened (x : α)
  | used (x : α)
  | closed (x : α)
  deriving DecidableEq

namespace Use

variable {α : Type} [DecidableEq α]

/-- What a history has opened and not closed since. -/
def inUse : List (Use α) → List α
  | [] => []
  | .opened x :: us => x :: inUse us
  | .used _ :: us => inUse us
  | .closed x :: us => (inUse us).filter fun y ↦ y ≠ x

/-- What a history has closed and not opened again since. -/
def gone : List (Use α) → List α
  | [] => []
  | .opened x :: us => (gone us).filter fun y ↦ y ≠ x
  | .used _ :: us => gone us
  | .closed x :: us => x :: gone us

/-- Only what is in use is used or closed. -/
def WellUsed : List (Use α) → Prop
  | [] => True
  | .opened _ :: us => WellUsed us
  | .used x :: us | .closed x :: us => x ∈ inUse us ∧ WellUsed us

instance decidableWellUsed : (us : List (Use α)) → Decidable (WellUsed us)
  | [] => inferInstanceAs (Decidable True)
  | .opened _ :: us => decidableWellUsed us
  | .used x :: us => @instDecidableAnd (x ∈ inUse us) _ inferInstance (decidableWellUsed us)
  | .closed x :: us => @instDecidableAnd (x ∈ inUse us) _ inferInstance (decidableWellUsed us)

/-- Whether something is opened. -/
def isOpened : Use α → Bool
  | .opened _ => true
  | _ => false

theorem mem_inUse_closed {us : List (Use α)} {x y : α} :
    y ∈ inUse (.closed x :: us) ↔ y ∈ inUse us ∧ y ≠ x := by
  simp [inUse]

/-- Only closing it takes something out of use. -/
theorem mem_inUse_cons {us : List (Use α)} {u : Use α} {x : α} (hx : x ∈ inUse us)
    (hu : u ≠ .closed x) : x ∈ inUse (u :: us) := by
  match u, hu with
  | .opened y, _ => exact List.mem_cons_of_mem y hx
  | .used _, _ => exact hx
  | .closed y, hu =>
    refine mem_inUse_closed.mpr ⟨hx, ?_⟩
    rintro rfl
    exact hu rfl

/-- What was ever opened is in use or gone. -/
theorem mem_inUse_or_gone {us : List (Use α)} {x : α} (h : .opened x ∈ us) :
    x ∈ inUse us ∨ x ∈ gone us := by
  induction us with
  | nil => cases h
  | cons u us ih =>
    by_cases hu : u = .opened x
    · rw [hu]
      exact .inl List.mem_cons_self
    · have hx := ih ((List.mem_cons.mp h).resolve_left (Ne.symm hu))
      cases u with
      | opened y =>
        have hne : x ≠ y := by
          rintro rfl
          exact hu rfl
        refine hx.imp (List.mem_cons_of_mem _) fun hgone ↦ ?_
        exact List.mem_filter.mpr ⟨hgone, by simpa using hne⟩
      | used y => exact hx
      | closed y =>
        by_cases hxy : x = y
        · rw [hxy]
          exact .inr List.mem_cons_self
        · refine hx.imp (fun hin ↦ ?_) (List.mem_cons_of_mem _)
          exact mem_inUse_closed.mpr ⟨hin, hxy⟩

end Use

/-- The live names denote things in use, and different names different things. -/
structure Apart {ν ρ : Type} (look : ν → Option ρ) (live : List ν) (inUse : ρ → Prop) : Prop where
  found : ∀ n ∈ live, ∃ r, look n = some r ∧ inUse r
  inj : ∀ m ∈ live, ∀ n ∈ live, look m = look n → m = n

namespace Apart

variable {ν ρ : Type} {look look' : ν → Option ρ} {live : List ν} {inUse inUse' : ρ → Prop}

theorem nil : Apart look [] inUse := ⟨nofun, nofun⟩

/-- A thing that was not in use is opened under a name, which denotes it from now on. -/
theorem opened (h : Apart look live inUse) {n : ν} {r : ρ} (hfresh : ¬ inUse r)
    (hn : look' n = some r) (hlook : ∀ m, m ≠ n → look' m = look m) (hr : inUse' r)
    (hmono : ∀ r, inUse r → inUse' r) : Apart look' (n :: live) inUse' := by
  -- an old name other than `n` denotes what it denoted, and that is not `r`
  have hold : ∀ m ∈ live, m ≠ n → look' m = look m ∧ look m ≠ some r := by
    intro m hm hmn
    refine ⟨hlook m hmn, ?_⟩
    obtain ⟨r', hr', huse⟩ := h.found m hm
    rintro heq
    rw [hr', Option.some_inj] at heq
    exact hfresh (heq ▸ huse)
  constructor
  · intro m hm
    by_cases hmn : m = n
    · exact ⟨r, hmn ▸ hn, hr⟩
    · have hlive := (List.mem_cons.mp hm).resolve_left hmn
      obtain ⟨r', hr', huse⟩ := h.found m hlive
      exact ⟨r', (hold m hlive hmn).1.trans hr', hmono r' huse⟩
  · intro m hm m' hm' heq
    by_cases hmn : m = n <;> by_cases hmn' : m' = n
    · rw [hmn, hmn']
    · have hlive := (List.mem_cons.mp hm').resolve_left hmn'
      rw [hmn, hn, (hold m' hlive hmn').1] at heq
      exact absurd heq.symm (hold m' hlive hmn').2
    · have hlive := (List.mem_cons.mp hm).resolve_left hmn
      rw [hmn', hn, (hold m hlive hmn).1] at heq
      exact absurd heq (hold m hlive hmn).2
    · have hlive := (List.mem_cons.mp hm).resolve_left hmn
      have hlive' := (List.mem_cons.mp hm').resolve_left hmn'
      rw [(hold m hlive hmn).1, (hold m' hlive' hmn').1] at heq
      exact h.inj m hlive m' hlive' heq

/-- The thing behind a live name is closed, and the name is no longer live. -/
theorem closed [DecidableEq ν] (h : Apart look live inUse) {n : ν} {r : ρ} (hn : n ∈ live)
    (hr : look n = some r) (hmono : ∀ r', r' ≠ r → inUse r' → inUse' r') :
    Apart look (live.filter fun m ↦ m ≠ n) inUse' := by
  have hlive : ∀ m ∈ live.filter (fun m ↦ decide (m ≠ n)), m ∈ live ∧ m ≠ n := fun m hm ↦ by
    simpa using hm
  constructor
  · intro m hm
    obtain ⟨hm, hmn⟩ := hlive m hm
    obtain ⟨r', hr', huse⟩ := h.found m hm
    refine ⟨r', hr', hmono r' ?_ huse⟩
    rintro rfl
    exact hmn (h.inj m hm n hn (hr'.trans hr.symm))
  · intro m hm m' hm'
    exact h.inj m (hlive m hm).1 m' (hlive m' hm').1

theorem mono (h : Apart look live inUse) (hmono : ∀ r, inUse r → inUse' r) :
    Apart look live inUse' :=
  ⟨fun n hn ↦ (h.found n hn).imp fun r hr ↦ ⟨hr.1, hmono r hr.2⟩, h.inj⟩

end Apart
