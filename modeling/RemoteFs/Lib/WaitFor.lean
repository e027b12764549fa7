import Mathlib.Data.Finset.Max
import Mathlib.Data.List.Basic

/-!
# Waiting for what others hold

A table lists what is held, and by whom; a client that is refused waits.  Whether a client is refused
is a property of the table, `refused c l`, about which only this is assumed: taking entries of
*others* out of the table makes nobody refused who was not (`Upward`).

* `within owner S l` is what the members of `S` hold.
* `Deadlocked owner refused S l` says that what the members of `S` hold is enough to refuse each of
  them: nobody outside can help.  `core` is the largest such part of the waiting clients.
* `reduction` is the other half.  Outside the core, the waiting clients can be taken away one after
  the other, each not being refused by what is left when it goes, until it is `c`'s turn.
* `not_deadlocked_of_ranked` is the well-known remedy: when everybody waits for something that ranks
  above all it holds, there is no deadlock.
-/

set_option autoImplicit false

namespace WaitFor

open Classical in
/-- What the members of `S` hold. -/
noncomputable def within {C E : Type} (owner : E → C) (S : Set C) (l : List E) : List E :=
  l.filter fun e ↦ decide (owner e ∈ S)

section
variable {C E : Type} {owner : E → C} {S T : Set C} {l : List E}

theorem mem_within {e : E} : e ∈ within owner S l ↔ e ∈ l ∧ owner e ∈ S := by
  simp [within]

theorem within_within (h : S ⊆ T) : within owner S (within owner T l) = within owner S l := by
  rw [within, within, List.filter_filter]
  refine List.filter_congr fun e _ ↦ ?_
  by_cases he : owner e ∈ S
  · simp [he, h he]
  · simp [he]

theorem within_eq_self (h : ∀ e ∈ l, owner e ∈ S) : within owner S l = l := by
  simpa [within] using h

/-- Only the owners that are there matter. -/
theorem within_congr (h : ∀ e ∈ l, owner e ∈ S ↔ owner e ∈ T) :
    within owner S l = within owner T l :=
  List.filter_congr fun e he ↦ by simp [h e he]

/-- Without a member that holds something there is less. -/
theorem length_within_diff_lt {c : C} (hc : c ∈ S) {e : E} (he : e ∈ l) (howner : owner e = c) :
    (within owner (S \ {c}) l).length < (within owner S l).length := by
  rw [← within_within (S := S \ {c}) (T := S) fun x hx ↦ hx.1]
  refine List.length_filter_lt_length_iff_exists.mpr ⟨e, mem_within.mpr ⟨he, howner ▸ hc⟩, ?_⟩
  simp [howner]

end

section
variable {C E : Type} (owner : E → C) (refused : C → List E → Prop)

/-- Taking entries of others away refuses nobody. -/
def Upward : Prop :=
  ∀ (c : C) (S : Set C) (l : List E), c ∈ S → refused c (within owner S l) → refused c l

/-- Each member of `S` is refused on account of `S` alone. -/
def Deadlocked (S : Set C) (l : List E) : Prop := ∀ c ∈ S, refused c (within owner S l)

/-- The largest deadlocked part of `W`. -/
def core (W : Set C) (l : List E) : Set C := {c | ∃ S ⊆ W, Deadlocked owner refused S l ∧ c ∈ S}

variable {owner refused} {W S : Set C} {l : List E}

theorem Deadlocked.subset_core (h : Deadlocked owner refused S l) (hSW : S ⊆ W) :
    S ⊆ core owner refused W l := fun _ hc ↦ ⟨S, hSW, h, hc⟩

/-- **The core is deadlocked itself.** -/
theorem deadlocked_core (hmono : Upward owner refused) (W : Set C) (l : List E) :
    Deadlocked owner refused (core owner refused W l) l := by
  rintro c ⟨S, hSW, hS, hc⟩
  refine hmono c S _ hc ?_
  rw [within_within (hS.subset_core hSW)]
  exact hS c hc

/-- A part of the waiting clients whose holders among them are all refused by it is in the core. -/
theorem exists_admitted (hW : S ⊆ W) {c : C} (hc : c ∈ S) (hcore : c ∉ core owner refused W l)
    (hrefused : refused c (within owner S l)) :
    ∃ d ∈ S, d ≠ c ∧ (∃ e ∈ l, owner e = d) ∧ ¬ refused d (within owner S l) := by
  by_contra hnone
  -- `c` and those that hold something are deadlocked
  let T : Set C := {d ∈ S | d = c ∨ ∃ e ∈ l, owner e = d}
  have hsame : within owner T l = within owner S l :=
    within_congr fun e he ↦ ⟨fun h ↦ h.1, fun h ↦ ⟨h, .inr ⟨e, he, rfl⟩⟩⟩
  refine hcore ⟨T, fun d hd ↦ hW hd.1, ?_, hc, .inl rfl⟩
  rintro d ⟨hd, heq⟩
  rw [hsame]
  by_cases hdc : d = c
  · rwa [hdc]
  · by_contra hadm
    exact hnone ⟨d, hd, hdc, heq.resolve_left hdc, hadm⟩

/-- **Reduction.**  What holds of all waiting clients, and of what is left whenever one that is not
refused by those that are left is taken away, holds of a part that contains `c` and does not refuse
it, unless `c` is in the core. -/
theorem reduction {P : Set C → Prop} {c : C} (hc : c ∈ W) (hcore : c ∉ core owner refused W l)
    (hstart : P W)
    (hstep : ∀ S ⊆ W, P S → ∀ d ∈ S, d ≠ c → ¬ refused d (within owner S l) → P (S \ {d})) :
    ∃ S ⊆ W, P S ∧ c ∈ S ∧ ¬ refused c (within owner S l) := by
  -- by induction on how much the clients that are left hold
  have key : ∀ (n : ℕ) (S : Set C), (within owner S l).length = n → S ⊆ W → P S → c ∈ S →
      ∃ S ⊆ W, P S ∧ c ∈ S ∧ ¬ refused c (within owner S l) := by
    intro n
    induction n using Nat.strong_induction_on with
    | _ n ih =>
      intro S hn hSW hP hcS
      by_cases hrefused : refused c (within owner S l)
      · obtain ⟨d, hd, hdc, ⟨e, he, howner⟩, hadm⟩ := exists_admitted hSW hcS hcore hrefused
        exact ih _ (hn ▸ length_within_diff_lt hd he howner) (S \ {d}) rfl
          (fun x hx ↦ hSW hx.1) (hstep S hSW hP d hd hdc hadm) ⟨hcS, Ne.symm hdc⟩
      · exact ⟨S, hSW, hP, hcS, hrefused⟩
  exact key _ W rfl subset_rfl hstart hc

/-- **Ordered waiting.**  If whoever is refused is refused on account of an entry, and that entry ranks
above all it holds itself, nobody is deadlocked. -/
theorem not_deadlocked_of_ranked {ι : Type} [LinearOrder ι] (rank : E → ι)
    (hrank : ∀ c ∈ S, refused c (within owner S l) → ∃ e ∈ within owner S l,
      ∀ f ∈ l, owner f = c → rank f < rank e)
    (h : Deadlocked owner refused S l) : S = ∅ := by
  by_contra hne
  obtain ⟨c, hc⟩ := Set.nonempty_iff_ne_empty.mpr hne
  -- every entry the members hold is outranked by another
  have hup : ∀ e ∈ within owner S l, ∃ f ∈ within owner S l, rank e < rank f := by
    intro e he
    obtain ⟨hel, heS⟩ := mem_within.mp he
    obtain ⟨f, hf, hlt⟩ := hrank (owner e) heS (h _ heS)
    exact ⟨f, hf, hlt e hel rfl⟩
  obtain ⟨e, he, -⟩ := hrank c hc (h c hc)
  obtain ⟨m, hm, hmax⟩ := Multiset.exists_max_image rank (s := (within owner S l : Multiset E))
    (by simpa using List.ne_nil_of_mem he)
  obtain ⟨f, hf, hlt⟩ := hup m (Multiset.mem_coe.mp hm)
  exact absurd (hmax f (Multiset.mem_coe.mpr hf)) (not_le.mpr hlt)

end

end WaitFor
