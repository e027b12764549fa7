import Mathlib.Algebra.Order.Group.Multiset
import RemoteFs.Lib.Run

/-!
# A channel that cannot be relied on

Messages go into a channel at one end and come out at the other.  In between the channel may lose a
message and may double it, and it keeps no order, so what is under way is a multiset.  `Transit` is what
can happen to a message, `Transit.Step` is the channel when it does, and the history of a channel is that
of a `Run`.

* `delivered_add_le`: as long as nothing is doubled, what has come out and what is still under way are
  together no more than what has gone in.
* `restrict`: what happens to the messages of one kind is a history of a channel for them.
-/

set_option autoImplicit false

/-- What happens to a message. -/
inductive Transit (μ : Type) where
  | sent (m : μ)
  | lost (m : μ)
  | doubled (m : μ)
  | delivered (m : μ)

namespace Transit

variable {μ : Type}

/-- The messages under way, before and after. -/
inductive Step : Multiset μ → Transit μ → Multiset μ → Prop
  | sent (m : μ) (s : Multiset μ) : Step s (.sent m) (m ::ₘ s)
  | lost (m : μ) (s : Multiset μ) : Step (m ::ₘ s) (.lost m) s
  | doubled (m : μ) (s : Multiset μ) : Step (m ::ₘ s) (.doubled m) (m ::ₘ m ::ₘ s)
  | delivered (m : μ) (s : Multiset μ) : Step (m ::ₘ s) (.delivered m) s

/-- The channel does it by itself. -/
def IsFault : Transit μ → Prop
  | .lost _ | .doubled _ => True
  | _ => False

/-- The message that is put in. -/
def sent? : Transit μ → Option μ
  | .sent m => some m
  | _ => none

/-- The message that is taken out. -/
def delivered? : Transit μ → Option μ
  | .delivered m => some m
  | _ => none

/-- The message it happens to. -/
def message : Transit μ → μ
  | .sent m | .lost m | .doubled m | .delivered m => m

/-- All that has been put in. -/
def allSent (h : List (Transit μ)) : Multiset μ := h.filterMap sent?

/-- All that has been taken out. -/
def allDelivered (h : List (Transit μ)) : Multiset μ := h.filterMap delivered?

theorem mem_allSent {h : List (Transit μ)} {m : μ} : m ∈ allSent h ↔ .sent m ∈ h := by
  rw [allSent, Multiset.mem_coe, List.mem_filterMap]
  constructor
  · rintro ⟨t, ht, hm⟩
    cases t with
    | sent m' =>
      cases hm
      exact ht
    | lost | doubled | delivered => cases hm
  · exact fun hm ↦ ⟨_, hm, rfl⟩

theorem allSent_cons (t : Transit μ) (h : List (Transit μ)) :
    allSent (t :: h) = (t.sent?.toList : Multiset μ) + allSent h := by
  cases ht : t.sent? with
  | none => rw [allSent, List.filterMap_cons_none ht, Option.toList_none, ← allSent,
      Multiset.coe_nil, zero_add]
  | some m => rw [allSent, List.filterMap_cons_some ht, Option.toList_some, ← Multiset.cons_coe,
      ← allSent, Multiset.coe_singleton, Multiset.singleton_add]

theorem allDelivered_cons (t : Transit μ) (h : List (Transit μ)) :
    allDelivered (t :: h) = (t.delivered?.toList : Multiset μ) + allDelivered h := by
  cases ht : t.delivered? with
  | none => rw [allDelivered, List.filterMap_cons_none ht, Option.toList_none, ← allDelivered,
      Multiset.coe_nil, zero_add]
  | some m => rw [allDelivered, List.filterMap_cons_some ht, Option.toList_some,
      ← Multiset.cons_coe, ← allDelivered, Multiset.coe_singleton, Multiset.singleton_add]

section
variable {guard : List (Transit μ) → Multiset μ → Transit μ → Prop} {s₀ s : Multiset μ}
  {h : List (Transit μ)}

/-- **Nothing becomes more**, as long as nothing is doubled. -/
theorem delivered_add_le (run : Run Step guard s₀ h s) (hsingle : ∀ m, .doubled m ∉ h) :
    allDelivered h + s ≤ allSent h + s₀ := by
  induction run with
  | start => exact le_refl _
  | next run ok move ih =>
    have ih := ih fun m hm ↦ hsingle m (List.mem_cons_of_mem _ hm)
    rw [allSent_cons, allDelivered_cons]
    match move with
    | .sent m s =>
      show 0 + allDelivered _ + (m ::ₘ s) ≤ {m} + allSent _ + s₀
      rw [zero_add, Multiset.add_cons, add_assoc, Multiset.singleton_add]
      exact Multiset.cons_le_cons m ih
    | .lost m s =>
      show 0 + allDelivered _ + s ≤ 0 + allSent _ + s₀
      rw [zero_add, zero_add]
      exact (add_le_add_right (Multiset.le_cons_self s m) _).trans ih
    | .doubled m s => exact absurd List.mem_cons_self (hsingle m)
    | .delivered m s =>
      show {m} + allDelivered _ + s ≤ 0 + allSent _ + s₀
      rw [zero_add, add_assoc, Multiset.singleton_add, ← Multiset.add_cons]
      exact ih

end

/-! ## The messages of one kind -/

section
variable (p : μ → Prop) [DecidablePred p]

theorem Step.filter {t : Transit μ} {s s' : Multiset μ} (h : Step s t s') :
    (¬ p t.message ∧ s'.filter p = s.filter p) ∨
      (p t.message ∧ Step (s.filter p) t (s'.filter p)) := by
  by_cases hp : p t.message
  · right
    refine ⟨hp, ?_⟩
    have hcons (s : Multiset μ) : (t.message ::ₘ s).filter p = t.message ::ₘ s.filter p :=
      Multiset.filter_cons_of_pos s hp
    match h, hcons with
    | .sent m s, hcons => exact hcons s ▸ .sent m _
    | .lost m s, hcons => exact hcons s ▸ .lost m _
    | .doubled m s, hcons => exact hcons (m ::ₘ s) ▸ hcons s ▸ .doubled m _
    | .delivered m s, hcons => exact hcons s ▸ .delivered m _
  · left
    refine ⟨hp, ?_⟩
    match h, hp with
    | .sent m s, hp => exact Multiset.filter_cons_of_neg s hp
    | .lost m s, hp => exact (Multiset.filter_cons_of_neg s hp).symm
    | .doubled m s, hp => exact Multiset.filter_cons_of_neg _ hp
    | .delivered m s, hp => exact (Multiset.filter_cons_of_neg s hp).symm

/-- **The messages of one kind have a channel to themselves.** -/
theorem restrict {guard : List (Transit μ) → Multiset μ → Transit μ → Prop} {s₀ s : Multiset μ}
    {h : List (Transit μ)} (run : Run Step guard s₀ h s) :
    Run Step Run.free (s₀.filter p) (h.filter fun t ↦ p t.message) (s.filter p) := by
  rw [← List.filterMap_eq_filter]
  refine run.project (Multiset.filter p) _ fun {s t s'} hstep ↦ ?_
  rcases hstep.filter p with ⟨hp, heq⟩ | ⟨hp, hstep⟩
  · exact .inl ⟨Option.guard_eq_none_iff.mpr (decide_eq_false hp), heq⟩
  · exact .inr ⟨t, Option.guard_eq_some_iff.mpr ⟨rfl, decide_eq_true hp⟩, hstep⟩

end

end Transit
