import RemoteFs.Dir.Step
import RemoteFs.Lock.Waiting
import RemoteFs.Server.Totality

/-!
# Who is admitted in the end

A deadlock lasts for ever (`deadlock_permanent`).  Here it is shown that nothing else does.

* `admitted_iff`: every waiting client outside the core is admitted in some continuation of the run,
  namely when those it waits for, directly or not, are admitted in a suitable order and give back what
  they hold.  A client can always give back a path it has locked, by removing it
  (`Clients.exists_give_back`).
* `admitted_of_ordered`: when whoever is refused has asked for a path above all it holds, in some order
  of the paths, there is no deadlock, and every waiting client is admitted in some continuation.

Both are about a kernel that does not itself fail with `EAGAIN`: a client takes that for a refusal, and
repeats its call for as long as the kernel does.  And `admitted_iff` is about states in which no waiting
request will crash the server when its turn comes (`Clients.Harmless`), which can be seen from what has been
asked for (`Clients.WaitsHarmlessly`).
-/

set_option autoImplicit false

namespace RemoteFs

open WaitFor

variable {κ : Type}

/-! ## Nobody else waits for ever -/

/-- No system call fails with `EAGAIN`. -/
def Kernel.NeverAgain (K : Kernel κ) : Prop :=
  ∀ (w : World κ) (op : Op), op.errno? K w ≠ some EAGAIN

/-- The request, with a block that holds a zero. -/
def Request.zeroed (req : Request) : Request := { req with garbage := 0 }

theorem Request.op_zeroed (req : Request) : req.zeroed.op = req.op := Request.op_congr rfl rfl

/-- No request that is waiting will crash the server: in every state that can be reached from this one, it
is answered if it is still waiting. -/
def Clients.Harmless (K : Kernel κ) (s : Clients κ) : Prop :=
  ∀ later s', Run (Clients.Step K) Run.free s later s' → ∀ c req, s.pending c = some req →
    s'.pending c = some req → ∃ x, serve K req.zeroed s'.world = .ok x

/-- Each procedure that is repeated is one of the calls of the library. -/
theorem exists_retryCall {proc : Proc} (h : proc.retries = true) :
    ∃ call : RetryCall, call.proc = proc := by
  cases proc with
  | fsCloseDir => exact ⟨.fsCloseDir 0, rfl⟩
  | fsOpen => exact ⟨.fsOpen (.lit "") 0, rfl⟩
  | fsClose => exact ⟨.fsClose 0, rfl⟩
  | fsWrite => exact ⟨.fsWrite 0 [] 0, rfl⟩
  | fsRemove => exact ⟨.fsRemove (.lit ""), rfl⟩
  | _ => cases h

section
variable {K : Kernel κ} {s : Clients κ} {c : Int32}

/-- **An admitted call is over**: its client goes on to something else. -/
theorem Clients.exists_step (hK : K.NeverAgain) (req : Request) {op : Op}
    (hretries : req.proc.retries = true) (hop : req.op = .ok op)
    (hown : ∀ d, op.client? = some d → d = c)
    (hagain : ∀ req', s.pending c = some req' → req.proc = req'.proc ∧ req.args = req'.args)
    (hadm : op.blocked s.table 0 = false) (hserve : ∃ x, serve K req.zeroed s.world = .ok x) :
    ∃ e s', Clients.Step K s (c, e) s' ∧ e.req = req.zeroed ∧
      s'.pending = Function.update s.pending c none := by
  obtain ⟨⟨reply, w'⟩, hserve⟩ := hserve
  obtain ⟨calls, hstep⟩ := exists_serverStep hserve
  have hrep : repeated ⟨req.zeroed, calls, reply⟩ = none := by
    rw [repeated, if_neg]
    rintro ⟨-, hreply⟩
    have hperform := hserve
    rw [serve_of_op (req.op_zeroed.trans hop)] at hperform
    obtain rfl | hasks := Request.op_eq_ok hop
    · cases hperform
      cases hreply
    · obtain ⟨call, hcall⟩ := exists_retryCall hretries
      rw [← hcall] at hasks
      obtain ⟨r, rfl, hr⟩ := ne_refusal_of_admitted call hasks hadm (hK s.world op) hperform
      rw [ReturnType.int?_int] at hreply
      exact hr (Except.ok.inj hreply)
  refine ⟨⟨req.zeroed, calls, reply⟩, ⟨w', Function.update s.pending c none⟩, ⟨?_, hagain, hstep, ?_⟩,
    rfl, rfl⟩
  · intro op' d hop' hd
    rw [show (⟨req.zeroed, calls, reply⟩ : Event).req = req.zeroed from rfl, req.op_zeroed, hop] at hop'
    cases hop'
    exact hown d hd
  · rw [hrep]

/-- The entries of a client. -/
def entriesOf (c : Int32) (l : List Resource) : List Resource := l.filter fun r ↦ decide (r.id = c)

/-- A client that is not waiting can give back an entry, by removing its path. -/
theorem Clients.exists_give_back (hK : K.NeverAgain) (hs : s.Sound) (hidle : s.pending c = none)
    {r : Resource} (hr : r ∈ s.table) (hid : r.id = c) :
    ∃ e s', Clients.Step K s (c, e) s' ∧ s'.pending = s.pending ∧
      (entriesOf c s'.table).length < (entriesOf c s.table).length := by
  have hentry : pathEntry s.table r.path = some r := hs.nodup.pathEntry hr
  have hadm : (Op.remove c r.path).blocked s.table 0 = false := by
    rw [Op.blocked, findResource_eq_pathEntry, hentry]
    simp [refuses, hid]
  obtain ⟨e, s', hstep, hreq, hpending⟩ := Clients.exists_step (s := s) (c := c) hK
    (.remove c r.path (hs.short r hr)) rfl Request.op_remove
    (fun d hd ↦ (Option.some.inj hd).symm) (by simp [hidle]) hadm ⟨_, serve_of_op Request.op_remove⟩
  refine ⟨e, s', hstep, by rw [hpending, Function.update_eq_self_iff, hidle], ?_⟩
  have hnext : s'.table = s.table.eraseP fun x ↦ decide (x.path = r.path ∧ x.id = c) := by
    show s'.world.srv.resourceList = _
    have hop : e.req.op = .ok (.remove c r.path) := by rw [hreq, Request.op_zeroed, Request.op_remove]
    have hgarbage : e.req.garbage = 0 := by rw [hreq]; rfl
    have hadm' : (Op.remove c r.path).blocked s.world.srv.resourceList 0 = false := hadm
    rw [(serverStep_action hstep.served).next, action_of_op hop, hgarbage, hadm']
    rfl
  rw [hnext]
  exact FirstMatch.length_filter_eraseP_lt hr (by simp [hid]) fun x hx ↦ by simp_all

/-- **A client that is not waiting can give back everything it holds.** -/
theorem Clients.exists_release (hK : K.NeverAgain) (hs : s.Sound) (hidle : s.pending c = none) :
    ∃ later s', Run (Clients.Step K) Run.free s later s' ∧ s'.Sound ∧ s'.pending = s.pending ∧
      s'.table = others c s.table := by
  -- by induction on the number of entries
  obtain ⟨n, hn⟩ : ∃ n, (entriesOf c s.table).length = n := ⟨_, rfl⟩
  induction n using Nat.strong_induction_on generalizing s with
  | _ n ih =>
    by_cases hnone : ∀ r ∈ s.table, r.id ≠ c
    · refine ⟨[], s, .start, hs, rfl, ?_⟩
      exact (List.filter_eq_self.mpr fun r hr ↦ by simpa using hnone r hr).symm
    · obtain ⟨r, hr, hid⟩ : ∃ r ∈ s.table, r.id = c := by simpa using hnone
      obtain ⟨e, s₁, hstep, hpending, hlt⟩ := Clients.exists_give_back hK hs hidle hr hid
      obtain ⟨later, s₂, hrun, hs₂, hpending₂, htable⟩ :=
        ih _ (hn ▸ hlt) (hs.step hstep) (by rw [hpending, hidle]) rfl
      exact ⟨later ++ [(c, e)], s₂, Run.first_iff.mpr ⟨s₁, hstep, hrun⟩, hs₂,
        hpending₂.trans hpending, htable.trans hstep.others⟩

end

/-- And so can all of them, until only the entries of waiting clients are left. -/
theorem Clients.exists_release_all {K : Kernel κ} (hK : K.NeverAgain) {s : Clients κ}
    (hs : s.Sound) :
    ∃ later s', Run (Clients.Step K) Run.free s later s' ∧ s'.Sound ∧ s'.pending = s.pending ∧
      s'.table = within Resource.id s.waiting s.table := by
  obtain ⟨n, hn⟩ : ∃ n, s.table.length = n := ⟨_, rfl⟩
  induction n using Nat.strong_induction_on generalizing s with
  | _ n ih =>
    by_cases hall : ∀ r ∈ s.table, r.id ∈ s.waiting
    · exact ⟨[], s, .start, hs, rfl, (within_eq_self hall).symm⟩
    · obtain ⟨r, hr, hidle⟩ : ∃ r ∈ s.table, s.pending r.id = none := by
        simpa [Clients.waiting] using hall
      obtain ⟨first, s₁, hrun₁, hs₁, hpending₁, htable₁⟩ := Clients.exists_release hK hs hidle
      have hlt : s₁.table.length < n := by
        rw [← hn, htable₁]
        exact List.length_filter_lt_length_iff_exists.mpr ⟨r, hr, by simp⟩
      obtain ⟨later, s₂, hrun₂, hs₂, hpending₂, htable₂⟩ := ih _ hlt hs₁ rfl
      have hwaiting : s₁.waiting = s.waiting := by rw [Clients.waiting, hpending₁, Clients.waiting]
      refine ⟨later ++ first, s₂, hrun₁.trans hrun₂, hs₂, hpending₂.trans hpending₁, ?_⟩
      rw [htable₂, hwaiting, htable₁]
      exact within_others (by simp [Clients.waiting, hidle]) _

/-- An operation that belongs to nobody is not checked. -/
theorem Op.blocked_of_client?_none {op : Op} (h : op.client? = none) (l : List Resource) (g : Int32) :
    op.blocked l g = false := by
  cases op with
  | openDir | remove | open_ | close | closeDir | write => cases h
  | _ => rfl

section
variable {K : Kernel κ} {s : Clients κ} {c : Int32}

/-- A client that is not refused any more finishes its call. -/
theorem Clients.exists_finish (hK : K.NeverAgain) (hs : s.Sound) {req : Request}
    (hreq : s.pending c = some req) (hserve : ∃ x, serve K req.zeroed s.world = .ok x)
    (hadm : ¬ s.refused c s.table = true) :
    ∃ e s', Clients.Step K s (c, e) s' ∧ s'.pending = Function.update s.pending c none := by
  obtain ⟨x, hx⟩ := hserve
  obtain ⟨op, hop, -⟩ := op_of_serve hx
  rw [req.op_zeroed] at hop
  have hown : ∀ d, op.client? = some d → d = c := fun d hd ↦ hs.signed c req op d hreq hop hd
  have hblocked : op.blocked s.table 0 = false := by
    rcases hclient : op.client? with _ | d
    · exact Op.blocked_of_client?_none hclient _ _
    · obtain rfl := hown d hclient
      by_contra hb
      exact hadm (Clients.refused_eq_true_iff.mpr
        ⟨req, op, hreq, hop, hclient, by simpa using hb⟩)
  obtain ⟨e, s', hstep, -, hpending⟩ := Clients.exists_step hK req (hs.retries c req hreq) hop hown
    (fun req' hreq' ↦ by rw [hreq] at hreq'; cases hreq'; exact ⟨rfl, rfl⟩) hblocked ⟨x, hx⟩
  exact ⟨e, s', hstep, hpending⟩

/-- And then gives back everything it holds. -/
theorem Clients.exists_leave (hK : K.NeverAgain) (hs : s.Sound) {req : Request}
    (hreq : s.pending c = some req) (hserve : ∃ x, serve K req.zeroed s.world = .ok x)
    (hadm : ¬ s.refused c s.table = true) :
    ∃ later s', Run (Clients.Step K) Run.free s later s' ∧ s'.Sound ∧
      (∀ d, d ≠ c → s'.pending d = s.pending d) ∧ s'.table = others c s.table := by
  obtain ⟨e, s₁, hstep, hpending⟩ := Clients.exists_finish hK hs hreq hserve hadm
  obtain ⟨later, s₂, hrun, hs₂, hpending₂, htable⟩ :=
    Clients.exists_release (c := c) hK (hs.step hstep) (by rw [hpending, Function.update_self])
  refine ⟨later ++ [(c, e)], s₂, Run.first_iff.mpr ⟨s₁, hstep, hrun⟩, hs₂, fun d hd ↦ ?_,
    htable.trans hstep.others⟩
  rw [hpending₂, hpending, Function.update_of_ne hd]

end

/-- What is left of a table when one more client has left. -/
theorem others_within {S : Set Int32} (d : Int32) (l : List Resource) :
    others d (within Resource.id S l) = within Resource.id (S \ {d}) l := by
  rw [within, within, others, List.filter_filter]
  refine List.filter_congr fun r _ ↦ ?_
  by_cases hd : r.id = d
  · simp [hd]
  · simp [hd]

/-- Outside the core a client is admitted when those it waits for have left, one after the other. -/
theorem exists_admitted_of_not_core {K : Kernel κ} (hK : K.NeverAgain) {s : Clients κ}
    (hs : s.Sound) (hharmless : s.Harmless K) {c : Int32}
    (hc : c ∈ s.waiting) (hcore : c ∉ s.core) :
    ∃ later s', Run (Clients.Step K) Run.free s later s' ∧ s'.pending c = none := by
  -- the waiting clients that are left, and a state in which only they hold anything
  let P (S : Set Int32) : Prop := ∃ later s', Run (Clients.Step K) Run.free s later s' ∧ s'.Sound ∧
    (∀ d ∈ S, s'.pending d = s.pending d) ∧ s'.table = within Resource.id S s.table
  have hstart : P s.waiting := by
    obtain ⟨later, s', hlater, hs', hpending, htable⟩ := Clients.exists_release_all hK hs
    exact ⟨later, s', hlater, hs', fun d _ ↦ by rw [hpending], htable⟩
  have hsame {S : Set Int32} {s' : Clients κ} (hpending : ∀ d ∈ S, s'.pending d = s.pending d)
      (htable : s'.table = within Resource.id S s.table) {d : Int32} (hd : d ∈ S) :
      s'.refused d s'.table = s.refused d (within Resource.id S s.table) := by
    rw [htable, Clients.refused, Clients.refused, hpending d hd]
  have hstep : ∀ S ⊆ s.waiting, P S → ∀ d ∈ S, d ≠ c →
      ¬ s.refused d (within Resource.id S s.table) = true → P (S \ {d}) := by
    rintro S hSW ⟨later, s', hlater, hs', hpending, htable⟩ d hd - hadm
    obtain ⟨req, hreq⟩ := Option.ne_none_iff_exists'.mp (hSW hd)
    rw [← hsame hpending htable hd] at hadm
    have hreq' : s'.pending d = some req := (hpending d hd).trans hreq
    obtain ⟨later', s₂, hlater', hs₂, hpending₂, htable₂⟩ := Clients.exists_leave hK hs' hreq'
      (hharmless later s' hlater d req hreq hreq') hadm
    refine ⟨later' ++ later, s₂, hlater.trans hlater', hs₂, fun x hx ↦ ?_, ?_⟩
    · exact (hpending₂ x hx.2).trans (hpending x hx.1)
    · rw [htable₂, htable, others_within]
  obtain ⟨S, hSW, ⟨later, s', hlater, hs', hpending, htable⟩, hcS, hadm⟩ :=
    reduction hc hcore hstart hstep
  obtain ⟨req, hreq⟩ := Option.ne_none_iff_exists'.mp hc
  rw [← hsame hpending htable hcS] at hadm
  have hreq' : s'.pending c = some req := (hpending c hcS).trans hreq
  obtain ⟨e, s₂, hfinish, hpending₂⟩ := Clients.exists_finish hK hs' hreq'
    (hharmless later s' hlater c req hreq hreq') hadm
  exact ⟨(c, e) :: later, s₂, .next hlater trivial hfinish, by rw [hpending₂, Function.update_self]⟩

/-- **Exactly the deadlocked clients wait for ever.**  In every reachable state, on a kernel that never
answers `EAGAIN` itself and with no request waiting that will crash the server: a waiting client is
admitted in some continuation if and only if it is not in the core. -/
theorem admitted_iff (K : Kernel κ) (hK : K.NeverAgain) {dir : CString} {k : κ}
    {es : List (Int32 × Event)} {s : Clients κ}
    (hrun : Run (Clients.Step K) Run.free (Clients.start dir k) es s)
    (hharmless : s.Harmless K) {c : Int32} (hc : c ∈ s.waiting) :
    (∃ later s', Run (Clients.Step K) Run.free s later s' ∧ s'.pending c = none) ↔ c ∉ s.core := by
  have hs := Clients.sound_of_run hrun
  refine ⟨?_, exists_admitted_of_not_core hK hs hharmless hc⟩
  rintro ⟨later, s', hlater, hnone⟩ hcore
  obtain ⟨req, hreq⟩ := Option.ne_none_iff_exists'.mp hc
  have hdead : Deadlocked Resource.id (fun c l ↦ s.refused c l = true) s.core s.table :=
    deadlocked_core s.refused_upward s.waiting s.table
  obtain ⟨req', hreq', -⟩ := (agree_of_deadlocked hs hdead hlater).1.pending c hcore req hreq
  rw [hnone] at hreq'
  cases hreq'

/-! ## Requests that do no harm -/

/-- What does not crash the server, whoever holds what: to close a directory that has been opened, to write
no more than has been sent, and to do anything to a path.  The other operations are not repeated. -/
def Op.Harmless (w : World κ) : Op → Prop
  | .closeDir _ n => (w.dirOf n).isSome = true
  | .write _ _ count buf => sizeT count ≤ buf.length
  | .mount | .readDir _ | .read _ _ => False
  | _ => True

instance (w : World κ) (op : Op) : Decidable (op.Harmless w) := by
  cases op <;> unfold Op.Harmless <;> exact inferInstance

/-- Whoever waits has asked for something harmless. -/
def Clients.WaitsHarmlessly (s : Clients κ) : Prop :=
  ∀ c req, s.pending c = some req → ∃ op, req.op = .ok op ∧ op.Harmless s.world

section
variable {K : Kernel κ} {w w' : World κ} {s s' : Clients κ} {op : Op}

theorem Op.Harmless.safe (h : op.Harmless w) (K : Kernel κ) (g : Int32) : op.Safe K g w := by
  cases op with
  | mount | readDir | read => exact h.elim
  | ignored | unmount | openDir | remove | open_ | close => trivial
  | write => exact .inr h
  | closeDir c n =>
    rw [Op.Harmless, World.dirOf, Option.isSome_map] at h
    exact .inr h

/-- It stays harmless. -/
theorem Op.Harmless.step {e : Event} (h : op.Harmless w) (hstep : serverStep K w e w') :
    op.Harmless w' := by
  cases op with
  | closeDir c n => exact dirOf_isSome_step hstep h
  | mount | readDir | read => exact h.elim
  | write => exact h
  | ignored | unmount | openDir | remove | open_ | close => trivial

/-- **It is enough to look at what is asked for.** -/
theorem Clients.WaitsHarmlessly.harmless (h : s.WaitsHarmlessly) : s.Harmless K := by
  intro later s' hlater c req hreq _
  obtain ⟨op, hop, hharmless⟩ := h c req hreq
  have hharmless' : op.Harmless s'.world := Run.invariant (I := fun _ s ↦ op.Harmless s.world) hharmless
    (fun _ hI _ hstep ↦ hI.step hstep.served) hlater
  obtain ⟨r, w', hperform⟩ := (perform_isOk_iff K 0 op s'.world).mpr (hharmless'.safe K 0)
  exact ⟨_, (serve_of_op (req.op_zeroed.trans hop)).trans hperform⟩

/-- Only what is harmless is asked for. -/
def Careful (_es : List (Int32 × Event)) (s : Clients κ) (x : Int32 × Event) : Prop :=
  match x.2.req.op with
  | .error _ => True
  | .ok op => op.Harmless s.world

instance (es : List (Int32 × Event)) (s : Clients κ) (x : Int32 × Event) :
    Decidable (Careful es s x) := by
  unfold Careful
  split <;> exact inferInstance

theorem Clients.WaitsHarmlessly.step {es : List (Int32 × Event)} {x : Int32 × Event}
    (h : s.WaitsHarmlessly) (hg : Careful es s x) (hstep : Clients.Step K s x s') :
    s'.WaitsHarmlessly := by
  intro c req hreq
  by_cases hc : c = x.1
  · subst hc
    rw [hstep.pending_self] at hreq
    obtain ⟨-, -, rfl⟩ := Clients.repeated_eq_some_iff.mp hreq
    obtain ⟨op, hop, -⟩ := op_of_serve hstep.served.1
    rw [Careful, hop] at hg
    exact ⟨op, hop, hg.step hstep.served⟩
  · rw [hstep.pending_of_ne hc] at hreq
    obtain ⟨op, hop, hharmless⟩ := h c req hreq
    exact ⟨op, hop, hharmless.step hstep.served⟩

theorem Clients.waitsHarmlessly_of_run {dir : CString} {k : κ} {es : List (Int32 × Event)}
    (hrun : Run (Clients.Step K) Careful (Clients.start dir k) es s) : s.WaitsHarmlessly := by
  refine Run.invariant (I := fun _ s ↦ s.WaitsHarmlessly) ?_ ?_ hrun
  · intro c req hreq
    cases hreq
  · exact fun _ hI hg hstep ↦ hI.step hg hstep

end

/-! ## Asking in order -/

section
variable {ι : Type} [LinearOrder ι] (rank : CString → ι)

/-- What the operation asks for is a path, and it ranks above all the client holds. -/
def Op.Above (l : List Resource) (c : Int32) (op : Op) : Prop :=
  match op.path? with
  | none => False
  | some p => ∀ r ∈ l, r.id = c → rank r.path < rank p

instance (l : List Resource) (c : Int32) (op : Op) : Decidable (op.Above rank l c) := by
  unfold Op.Above
  split <;> exact inferInstance

/-- A client that is refused has asked for a path above all it holds. -/
def Ascending (_es : List (Int32 × Event)) (s : Clients κ) (x : Int32 × Event) : Prop :=
  match x.2.req.op with
  | .error _ => True
  | .ok op => op.blocked s.table x.2.req.garbage = true → op.Above rank s.table x.1

instance (es : List (Int32 × Event)) (s : Clients κ) (x : Int32 × Event) :
    Decidable (Ascending rank es s x) := by
  unfold Ascending
  split <;> exact inferInstance

/-- Whoever waits has asked for a path above all it holds. -/
def Clients.WaitsAbove (s : Clients κ) : Prop :=
  ∀ c req, s.pending c = some req → ∃ op, req.op = .ok op ∧ op.Above rank s.table c

variable {rank}

theorem Op.Above.congr {l l' : List Resource} {c : Int32} {op : Op} (h : op.Above rank l c)
    (hl : ∀ r, r.id = c → (r ∈ l' ↔ r ∈ l)) : op.Above rank l' c := by
  unfold Op.Above at h ⊢
  split
  · rename_i hp
    simp only [hp] at h
  · rename_i p hp
    simp only [hp] at h
    exact fun r hr hc ↦ h r ((hl r hc).mp hr) hc

/-- A reply `-EAGAIN` comes from the lock check. -/
theorem Clients.Step.blocked_of_repeated {K : Kernel κ} (hK : K.NeverAgain) {s s' : Clients κ}
    {x : Int32 × Event} (h : Clients.Step K s x s') {req : Request}
    (hreq : Clients.repeated x.2 = some req) :
    ∃ op, x.2.req.op = .ok op ∧ op.blocked s.table x.2.req.garbage = true ∧
      s'.world = s.world ∧ req = x.2.req := by
  obtain ⟨hretries, hreply, rfl⟩ := Clients.repeated_eq_some_iff.mp hreq
  obtain ⟨op, hop, hperform⟩ := op_of_serve h.served.1
  by_cases hb : op.blocked s.table x.2.req.garbage = true
  · rw [perform_of_blocked K hb, Except.ok.injEq, Prod.mk.injEq] at hperform
    exact ⟨op, hop, hb, hperform.2.symm, rfl⟩
  · obtain rfl | hasks := Request.op_eq_ok hop
    · rw [perform, Except.ok.injEq, Prod.mk.injEq] at hperform
      rw [← hperform.1] at hreply
      cases hreply
    · obtain ⟨call, hcall⟩ := exists_retryCall hretries
      rw [← hcall] at hasks
      have hadm : op.blocked s.world.srv.resourceList x.2.req.garbage = false :=
        Bool.eq_false_iff.mpr hb
      obtain ⟨r, heq, hr⟩ := ne_refusal_of_admitted call hasks hadm (hK s.world op) hperform
      rw [heq, ReturnType.int?_int] at hreply
      exact absurd (Except.ok.inj hreply) hr

theorem Clients.WaitsAbove.step {K : Kernel κ} (hK : K.NeverAgain) {s s' : Clients κ}
    {es : List (Int32 × Event)} {x : Int32 × Event} (h : s.WaitsAbove rank)
    (hg : Ascending rank es s x) (hstep : Clients.Step K s x s') : s'.WaitsAbove rank := by
  intro c req hreq
  by_cases hc : c = x.1
  · -- the client of this exchange has just been refused
    subst hc
    rw [hstep.pending_self] at hreq
    obtain ⟨op, hop, hb, hworld, rfl⟩ := hstep.blocked_of_repeated hK hreq
    rw [Ascending, hop] at hg
    refine ⟨op, hop, ?_⟩
    rw [Clients.table, hworld]
    exact hg hb
  · -- and the others still hold what they held
    rw [hstep.pending_of_ne hc] at hreq
    obtain ⟨op, hop, habove⟩ := h c req hreq
    refine ⟨op, hop, habove.congr fun r hr ↦ ?_⟩
    have hmem : r ∈ others x.1 s'.table ↔ r ∈ others x.1 s.table := by rw [hstep.others]
    simpa [others, hr, hc] using hmem

/-- An operation on a path is refused on account of an entry for that path. -/
theorem Op.Above.exists_of_blocked {l l' : List Resource} {c : Int32} {op : Op}
    (h : op.Above rank l c) (hb : op.blocked l' 0 = true) :
    ∃ r ∈ l', ∀ r' ∈ l, r'.id = c → rank r'.path < rank r.path := by
  unfold Op.Above at h
  split at h
  · exact h.elim
  · rename_i p hp
    obtain ⟨r, hr⟩ : ∃ r, pathEntry l' p = some r := by
      cases op with
      | openDir | remove | open_ =>
        cases hp
        rw [Op.blocked, findResource_eq_pathEntry, refuses_eq_true_iff] at hb
        obtain ⟨r, hr, -⟩ := hb
        exact ⟨r, hr⟩
      | _ => cases hp
    obtain ⟨hmem, rfl⟩ := pathEntry_some hr
    exact ⟨r, hmem, h⟩

theorem Clients.waitsAbove_of_run {K : Kernel κ} (hK : K.NeverAgain) {dir : CString} {k : κ}
    {es : List (Int32 × Event)} {s : Clients κ}
    (hrun : Run (Clients.Step K) (Ascending rank) (Clients.start dir k) es s) :
    s.WaitsAbove rank := by
  refine Run.invariant (I := fun _ s ↦ s.WaitsAbove rank) ?_ ?_ hrun
  · intro c req hreq
    cases hreq
  · exact fun _ hI hg hstep ↦ hI.step hK hg hstep

theorem Clients.WaitsAbove.harmless {K : Kernel κ} {s : Clients κ} (h : s.WaitsAbove rank) :
    s.Harmless K := by
  refine Clients.WaitsHarmlessly.harmless fun c req hreq ↦ ?_
  obtain ⟨op, hop, habove⟩ := h c req hreq
  refine ⟨op, hop, ?_⟩
  unfold Op.Above at habove
  split at habove
  · exact habove.elim
  · rename_i p hp
    cases op with
    | openDir | remove | open_ => trivial
    | _ => cases hp

/-- **Ascending clients do not wait for ever.**  On a kernel that never answers `EAGAIN` itself: when, in a
run, whoever is refused has asked for a path that ranks above all it holds, then in every state reached
each waiting client is admitted in some continuation. -/
theorem admitted_of_ordered (K : Kernel κ) (hK : K.NeverAgain) (rank : CString → ι) {dir : CString}
    {k : κ} {es : List (Int32 × Event)} {s : Clients κ}
    (hrun : Run (Clients.Step K) (Ascending rank) (Clients.start dir k) es s) {c : Int32}
    (hc : c ∈ s.waiting) :
    ∃ later s', Run (Clients.Step K) Run.free s later s' ∧ s'.pending c = none := by
  have habove := Clients.waitsAbove_of_run hK hrun
  refine exists_admitted_of_not_core hK (Clients.sound_of_run hrun.forget) habove.harmless hc fun hcore ↦ ?_
  -- the core is empty
  have hempty : s.core = ∅ := by
    refine not_deadlocked_of_ranked (fun r ↦ rank r.path) (l := s.table) (fun d _ hrefused ↦ ?_)
      (deadlocked_core s.refused_upward s.waiting s.table)
    obtain ⟨req, op, hreq, hop, hclient, hb⟩ := Clients.refused_eq_true_iff.mp hrefused
    obtain ⟨op', hop', h⟩ := habove d req hreq
    obtain rfl : op' = op := Except.ok.inj (hop'.symm.trans hop)
    obtain ⟨r, hr, hrank⟩ := h.exists_of_blocked hb
    exact ⟨r, hr, hrank⟩
  rw [hempty] at hcore
  exact hcore

end

/-! ## Runs -/

/-- The call does not fail with `EAGAIN`. -/
def NotAgain {α : Type} (r : Except Errno α × FileSystem) : Prop :=
  Op.errno?.errnoOf r.1 ≠ some EAGAIN

theorem notAgain_ok {α : Type} (x : α) (fs : FileSystem) : NotAgain (.ok x, fs) := fun h ↦ by cases h

theorem notAgain_error {α : Type} {e : Errno} (he : e.1 ≠ EAGAIN) (fs : FileSystem) :
    NotAgain ((.error e : Except Errno α), fs) := fun h ↦ he (Option.some.inj h)

theorem notAgain_install (P : Policy) (fs : FileSystem) (object : Object) (writable : Bool) :
    NotAgain (fs.install P object writable) := by
  rw [FileSystem.install]
  split
  · exact notAgain_error (by decide) _
  · exact notAgain_ok _ _

theorem notAgain_open (P : Policy) (fs : FileSystem) (path : CString) (flags : Int32) :
    NotAgain (fs.open_ P path flags) := by
  rw [FileSystem.open_]
  by_cases hlong : PATH_MAX ≤ path.strlen
  · rw [if_pos hlong]
    exact notAgain_error (by decide) _
  · rw [if_neg hlong]
    rcases fs.names.lookup path with _ | (i | es)
    · by_cases hflags : flags = 0
      · simp only [if_pos hflags]
        exact notAgain_error (by decide) _
      · simp only [if_neg hflags]
        by_cases hnone : (P.pick fs.opens fs.used).isNone = true
        · rw [if_pos hnone]
          exact notAgain_error (by decide) _
        · rw [if_neg hnone]
          exact notAgain_install _ _ _ _
    · exact notAgain_install _ _ _ _
    · by_cases hflags : flags = 0
      · simp only [if_pos hflags]
        exact notAgain_install _ _ _ _
      · simp only [if_neg hflags]
        exact notAgain_error (by decide) _

theorem notAgain_write (fs : FileSystem) (fd : Int32) (data : Bytes) :
    NotAgain (fs.write fd data) := by
  rw [FileSystem.write]
  rcases fs.file? fd with _ | ⟨n, _ | _, offset, _ | _⟩
  · exact notAgain_error (by decide) _
  · exact notAgain_error (by decide) _
  · exact notAgain_ok _ _
  · exact notAgain_error (by decide) _
  · exact notAgain_error (by decide) _

theorem notAgain_remove (fs : FileSystem) (path : CString) : NotAgain (fs.remove path) := by
  rw [FileSystem.remove]
  rcases fs.names.lookup path with _ | (i | (_ | ⟨e, es⟩))
  · exact notAgain_error (by decide) _
  · exact notAgain_ok _ _
  · exact notAgain_ok _ _
  · exact notAgain_error (by decide) _

/-- The file system never answers `EAGAIN`. -/
theorem neverAgain_kernel (P : Policy) : (FileSystem.kernel P).NeverAgain := by
  intro w op
  cases op with
  | open_ id mode path => exact notAgain_open P w.kern path _
  | close id fd =>
    show NotAgain (w.kern.close fd)
    rw [FileSystem.close]
    rcases w.kern.file? fd with _ | f
    · exact notAgain_error (by decide) _
    · exact notAgain_ok _ _
  | write id fd count buf => exact notAgain_write w.kern fd _
  | remove id path => exact notAgain_remove w.kern path
  | closeDir id num =>
    rw [Op.errno?]
    rcases findNode w.srv.openDirQueue num with _ | d
    · intro h
      cases h
    · show NotAgain (w.kern.closedir d.dir)
      rw [FileSystem.closedir]
      rcases w.kern.streams.lookup d.dir with _ | es
      · exact notAgain_error (by decide) _
      · exact notAgain_ok _ _
  | _ =>
    intro h
    cases h

/-- Client 2 wants what client 1 has, and holds nothing itself. -/
theorem exists_ascending_run :
    ∃ es s, Run (Clients.Step (FileSystem.kernel .lowest)) (Ascending CString.strlen)
        (Clients.start (.lit "/srv") {}) es s ∧ (2 : Int32) ∈ s.waiting := by
  obtain ⟨es, s, hrun, hs⟩ := Clients.exists_run (FileSystem.kernel .lowest)
    (Ascending CString.strlen) (.lit "/srv") {} [(1, .open_ 1 (.lit "/srv/a") (by decide) 1),
      (2, .open_ 2 (.lit "/srv/a") (by decide) 1)] (fun s ↦ (s.pending 2).isSome) (by decide)
  exact ⟨es, s, hrun, Option.isSome_iff_ne_none.mp hs⟩

/-- Client 2 wants to close its directory, and is refused because the block for the reply happens to hold
the descriptor of client 1. -/
theorem admitted_iff_of_closing :
    ∃ es s, Run (Clients.Step (FileSystem.kernel .lowest)) Run.free
        (Clients.start (.lit "/srv") emptyDir) es s ∧
      (s.pending 2).map Request.proc = some .fsCloseDir ∧
      ((∃ later s', Run (Clients.Step (FileSystem.kernel .lowest)) Run.free s later s' ∧
        s'.pending 2 = none) ↔ 2 ∉ s.core) := by
  obtain ⟨es, s, hrun, hs⟩ := Clients.exists_run (FileSystem.kernel .lowest) Careful (.lit "/srv")
    emptyDir [(1, .open_ 1 (.lit "/srv/a") (by decide) 1), (2, .openDir 2 (.lit "/srv") (by decide)),
      (2, .closeDir 2 2 3)] (fun s ↦ (s.pending 2).map Request.proc = some .fsCloseDir) (by decide)
  have hproc : (s.pending 2).map Request.proc = some .fsCloseDir := of_decide_eq_true hs
  have hwaiting : (2 : Int32) ∈ s.waiting := by
    intro hnone
    rw [hnone] at hproc
    cases hproc
  exact ⟨es, s, hrun.forget, hproc, admitted_iff (FileSystem.kernel .lowest) (neverAgain_kernel .lowest)
    hrun.forget (Clients.waitsHarmlessly_of_run hrun).harmless hwaiting⟩

theorem admitted_of_ordered_of_one_holder :
    ∃ es s later s', Run (Clients.Step (FileSystem.kernel .lowest)) (Ascending CString.strlen)
        (Clients.start (.lit "/srv") {}) es s ∧ (2 : Int32) ∈ s.waiting ∧
      Run (Clients.Step (FileSystem.kernel .lowest)) Run.free s later s' ∧ s'.pending 2 = none := by
  obtain ⟨es, s, hrun, hwaiting⟩ := exists_ascending_run
  obtain ⟨later, s', hlater, hnone⟩ := admitted_of_ordered (FileSystem.kernel .lowest)
    (neverAgain_kernel .lowest) CString.strlen hrun hwaiting
  exact ⟨es, s, later, s', hrun, hwaiting, hlater, hnone⟩

end RemoteFs
