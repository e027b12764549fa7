import RemoteFs.Client.Errors
import RemoteFs.Lock.Exclusive
import RemoteFs.Lock.Waiting

/-!
# The loops of the library in a run

`Clients` is about requests: which are sent, and which are sent again.  The library is about calls, and a
call is a loop that is given an `Attempt` for each turn.  A run of the clients gives each client its
attempts (`attempts`), and the loops of the library do in these attempts what the run says.

* `library_call_returns`: a call returns with the first of its exchanges that is not refused.  What it
  returns is made of the reply in that exchange, and the world is left as the exchange has left it.
* `deadlocked_call_hangs`: a call of a client that is deadlocked is still going on after any continuation
  of the run.
-/

set_option autoImplicit false

namespace RemoteFs

open WaitFor

variable {κ : Type}

/-! ## What a run is for one client -/

/-- The attempts of client `c` in a run, oldest first: one for each of its exchanges, with what has been
served for others since the one before.  `others` has been served already. -/
def attempts (cuts : Event → Session.Cuts) (c : Int32) :
    List Request → List (Int32 × Event) → List Attempt
  | _, [] => []
  | others, x :: xs =>
    if x.1 = c then ⟨others, x.2.req.garbage, cuts x.2⟩ :: attempts cuts c [] xs
    else attempts cuts c (others ++ [x.2.req]) xs

/-- The first thing client `c` asks for is this. -/
def AsksFirst (c : Int32) (proc : Proc) (args : List ArgType) (xs : List (Int32 × Event)) : Prop :=
  ∀ y, xs.find? (fun x ↦ x.1 = c) = some y → y.2.req.proc = proc ∧ y.2.req.args = args

/-- Every reply to client `c` is a refusal. -/
def OnlyRefusals (c : Int32) (xs : List (Int32 × Event)) : Prop :=
  ∀ x ∈ xs, x.1 = c → x.2.reply.int? = .ok (-EAGAIN)

section
variable {K : Kernel κ} {cuts : Event → Session.Cuts} {c : Int32} {s s' : Clients κ}
  {xs : List (Int32 × Event)}

/-- A client that is repeating a request asks for that first. -/
theorem asksFirst_of_pending {req : Request} (hreq : s.pending c = some req)
    (hrun : Run (Clients.Step K) Run.free s xs.reverse s') : AsksFirst c req.proc req.args xs := by
  induction xs generalizing s with
  | nil =>
    intro y hy
    cases hy
  | cons x xs ih =>
    rw [List.reverse_cons, Run.first_iff] at hrun
    obtain ⟨s₁, hstep, hrest⟩ := hrun
    intro y hy
    by_cases hx : x.1 = c
    · rw [List.find?_cons_of_pos (by simpa using hx)] at hy
      obtain rfl := Option.some.inj hy
      exact hstep.again req (by rw [hx, hreq])
    · rw [List.find?_cons_of_neg (by simpa using hx)] at hy
      exact ih (by rw [hstep.waits, Function.update_of_ne (Ne.symm hx), hreq]) hrest y hy

variable {proc : Proc} {params : List Param} {args : List ArgType} {others : List Request}
  {w : World κ}

/-- An exchange is a turn of the loop. -/
theorem remote_of_exchange (hpass : List.Forall₂ Param.Passes params args)
    (hn : (args.length : ℤ) = proc.nparams.toInt) (hothers : serveAll K others w = .ok s.world)
    {x : Int32 × Event} (hstep : Clients.Step K s x s')
    (hx : x.2.req.proc = proc ∧ x.2.req.args = args) (cut : Session.Cuts) :
    remote K proc params ⟨others, x.2.req.garbage, cut⟩ w = .ok (x.2.reply, s'.world) := by
  obtain ⟨rfl, rfl⟩ := hx
  have hremote := remote_eq K (a := ⟨others, x.2.req.garbage, cut⟩) hothers hpass hn
  exact hremote.trans hstep.served.1

/-- **Refusals are turns that lead nowhere**: after them the loop is where it was, and others have been
served in the meantime. -/
theorem retry_passes (hretries : proc.retries = true) (hpass : List.Forall₂ Param.Passes params args)
    (hn : (args.length : ℤ) = proc.nparams.toInt) (hothers : serveAll K others w = .ok s.world)
    {ys zs : List (Int32 × Event)}
    (hrun : Run (Clients.Step K) Run.free s (ys ++ zs).reverse s')
    (hfirst : AsksFirst c proc args (ys ++ zs)) (hrefused : OnlyRefusals c ys) :
    ∃ s₁ others' w', Run (Clients.Step K) Run.free s₁ zs.reverse s' ∧ AsksFirst c proc args zs ∧
      serveAll K others' w' = .ok s₁.world ∧
      retry (remote K proc params) (attempts cuts c others (ys ++ zs)) w
        = retry (remote K proc params) (attempts cuts c others' zs) w' := by
  induction ys generalizing s others w with
  | nil => exact ⟨s, others, w, hrun, hfirst, hothers, rfl⟩
  | cons y ys ih =>
    obtain ⟨hy, hys⟩ := List.forall_mem_cons.mp hrefused
    rw [List.cons_append, List.reverse_cons, Run.first_iff] at hrun
    obtain ⟨s₁, hstep, hrest⟩ := hrun
    rw [List.cons_append] at hfirst ⊢
    by_cases hc : y.1 = c
    · -- the client itself is refused, and will ask again
      have hsame := hfirst y (by rw [List.find?_cons_of_pos (by simpa using hc)])
      have hagain : Clients.repeated y.2 = some y.2.req :=
        if_pos ⟨(congrArg Proc.retries hsame.1).trans hretries, hy hc⟩
      have hpending : s₁.pending c = some y.2.req := by
        rw [hstep.waits, hc, Function.update_self, hagain]
      have hnext := asksFirst_of_pending hpending hrest
      rw [hsame.1, hsame.2] at hnext
      have hnone : serveAll K [] s₁.world = .ok s₁.world := rfl
      obtain ⟨s₂, others', w', hrun', hfirst', hothers', heq⟩ := ih hnone hrest hnext hys
      refine ⟨s₂, others', w', hrun', hfirst', hothers', ?_⟩
      rw [attempts, if_pos hc, retry_again (remote_of_exchange hpass hn hothers hstep hsame _) (hy hc)]
      exact heq
    · -- somebody else is served
      have hserved : serveAll K (others ++ [y.2.req]) w = .ok s₁.world := by
        rw [serveAll_append hothers, serveAll, hstep.served.1]
        rfl
      have hnext : AsksFirst c proc args (ys ++ zs) := fun z hz ↦
        hfirst z (by rw [List.find?_cons_of_neg (by simpa using hc), hz])
      rw [attempts, if_neg hc]
      exact ih hserved hrest hnext hys

end

/-- Serving a request is an exchange with the client that has signed it, if that one is not waiting for
anything else. -/
theorem Clients.step_of_served {K : Kernel κ} {s : Clients κ} {c : Int32} {e : Event} {op : Op}
    {w' : World κ} (hop : e.req.op = .ok op) (hclient : op.client? = some c)
    (hagain : ∀ req, s.pending c = some req → e.req.proc = req.proc ∧ e.req.args = req.args)
    (hstep : serverStep K s.world e w') :
    Clients.Step K s (c, e) ⟨w', Function.update s.pending c (Clients.repeated e)⟩ := by
  refine ⟨fun op' d hop' hd ↦ ?_, hagain, hstep, rfl⟩
  obtain rfl := Except.ok.inj (hop.symm.trans hop')
  exact Option.some.inj (hd.symm.trans hclient)

/-! ## Calls of the library -/

theorem RetryCall.retries_proc (call : RetryCall) : call.proc.retries = true := by
  cases call <;> rfl

section
variable (K : Kernel κ) {cl : Client} {call : RetryCall} {params : List Param}
  (cuts : Event → Session.Cuts) {c : Int32} {s s' : Clients κ}

/-- **A call returns with the first of its exchanges that is not refused.**  Take any run in which client
`c` makes the exchanges of a call, any others being served in between, and all but the last are refused.
Then the call, in the attempts that the run gives it, returns what the library makes of the last reply,
and leaves the world as that exchange has left it. -/
theorem library_call_returns (hparams : call.params cl = .ok params) {args : List ArgType}
    (hpass : List.Forall₂ Param.Passes params args) {ys : List (Int32 × Event)} {x : Int32 × Event}
    (hrun : Run (Clients.Step K) Run.free s (ys ++ [x]).reverse s')
    (hfirst : AsksFirst c call.proc args (ys ++ [x])) (hrefused : OnlyRefusals c ys) (hx : x.1 = c)
    {r : Int32} (hr : x.2.reply.int? = .ok r) (hne : r ≠ -EAGAIN) :
    call.run K cl (attempts cuts c [] (ys ++ [x])) s.world
      = .ok (call.finish cl r x.2.reply s'.world) := by
  have hn : (args.length : ℤ) = call.proc.nparams.toInt := by
    rw [← hpass.length_eq, RetryCall.length_params hparams]
  have hnone : serveAll K [] s.world = .ok s.world := rfl
  obtain ⟨s₁, others, w, hlast, hsame, hothers, heq⟩ :=
    retry_passes call.retries_proc hpass hn hnone hrun hfirst hrefused
  have hlast : Run (Clients.Step K) Run.free s₁ ([] ++ [x]) s' := hlast
  obtain ⟨s₂, hstep, hend⟩ := Run.first_iff.mp hlast
  cases hend
  have hasks := hsame x (by rw [List.find?_cons_of_pos (by simpa using hx)])
  rw [RetryCall.run_eq K hparams, heq, attempts, if_pos hx,
    retry_done (remote_of_exchange hpass hn hothers hstep hasks _) hr hne]
  rfl

end

/-- Client 1 is refused the file that client 2 has open, and gets it after client 2 has closed it. -/
theorem library_call_returns_of_close :
    ∃ w, (RetryCall.fsOpen (.lit "mnt/a") 0).run (FileSystem.kernel .lowest) mountedClient
        [⟨[], 0, ⟨[1], [2], [], []⟩⟩, ⟨[.close 2 3], 0, ⟨[1], [2], [], []⟩⟩]
        (servedWorld stocked [.open_ 2 (.lit "/srv/a") (by decide) 1])
      = .ok ((RetryCall.fsOpen (.lit "mnt/a") 0).finish mountedClient 3 (.int 3) w) := by
  have hparams : (RetryCall.fsOpen (.lit "mnt/a") 0).params mountedClient
      = .ok [.int 1, .int 0, .str (.lit "/srv/a")] := by
    rw [RetryCall.params, translate_mountedClient]
    rfl
  have hpass : List.Forall₂ Param.Passes [.int 1, .int 0, .str (.lit "/srv/a")]
      [.int 1, .int 0, .str (.lit "/srv/a") (by decide)] :=
    .cons (Param.passes_int _) (.cons (Param.passes_int _) (.cons (Param.passes_str _ _) .nil))
  obtain ⟨w₁, w₂, w₃, ⟨calls₁, h₁⟩, ⟨calls₂, h₂⟩, calls₃, h₃⟩ : ∃ w₁ w₂ w₃,
      (∃ calls, serverStep (FileSystem.kernel .lowest)
        (servedWorld stocked [.open_ 2 (.lit "/srv/a") (by decide) 1])
        ⟨.open_ 1 (.lit "/srv/a") (by decide) 0, calls, refusal⟩ w₁) ∧
      (∃ calls, serverStep (FileSystem.kernel .lowest) w₁ ⟨.close 2 3, calls, .int 0⟩ w₂) ∧
      ∃ calls, serverStep (FileSystem.kernel .lowest) w₂
        ⟨.open_ 1 (.lit "/srv/a") (by decide) 0, calls, .int 3⟩ w₃ := by
    refine ⟨_, _, _, servedWorld_step _ _ _ ?_, servedWorld_step _ _ _ ?_, servedWorld_step _ _ _ ?_⟩ <;>
      decide
  generalize servedWorld stocked _ = w₀ at h₁ ⊢
  have hstep₁ := Clients.step_of_served (s := ⟨w₀, fun _ ↦ none⟩) Request.op_open rfl
    (fun _ h ↦ by cases h) h₁
  have hstep₂ := Clients.step_of_served (s := ⟨w₁, Function.update (fun _ ↦ none) 1
    (some (.open_ 1 (.lit "/srv/a") (by decide) 0))⟩) Request.op_close rfl (fun _ h ↦ by cases h) h₂
  have hstep₃ := Clients.step_of_served (s := ⟨w₂, Function.update (Function.update (fun _ ↦ none) 1
    (some (.open_ 1 (.lit "/srv/a") (by decide) 0))) 2 none⟩) Request.op_open rfl
    (fun _ h ↦ by cases h; exact ⟨rfl, rfl⟩) h₃
  let ys : List (Int32 × Event) := [(1, ⟨.open_ 1 (.lit "/srv/a") (by decide) 0, calls₁, refusal⟩),
    (2, ⟨.close 2 3, calls₂, .int 0⟩)]
  let x : Int32 × Event := (1, ⟨.open_ 1 (.lit "/srv/a") (by decide) 0, calls₃, .int 3⟩)
  have hrun : Run (Clients.Step (FileSystem.kernel .lowest)) Run.free ⟨w₀, fun _ ↦ none⟩
      (ys ++ [x]).reverse _ := .next (.next (.next .start trivial hstep₁) trivial hstep₂) trivial hstep₃
  have hagain : OnlyRefusals 1 ys := List.forall_mem_cons.mpr
    ⟨fun _ ↦ rfl, List.forall_mem_singleton.mpr fun h : (2 : Int32) = 1 ↦ absurd h (by decide)⟩
  have hfirst : AsksFirst 1 .fsOpen [.int 1, .int 0, .str (.lit "/srv/a") (by decide)] (ys ++ [x]) := by
    rintro y hy
    obtain rfl := Option.some.inj hy
    exact ⟨rfl, rfl⟩
  exact ⟨w₃, library_call_returns (FileSystem.kernel .lowest) (fun _ ↦ ⟨[1], [2], [], []⟩) hparams hpass
    hrun hfirst hagain rfl rfl (by decide)⟩

section
variable (K : Kernel κ) {cl : Client} {call : RetryCall} {params : List Param}
  (cuts : Event → Session.Cuts) {c : Int32} {s s' : Clients κ}

/-- **A deadlocked call never returns.**  In every reachable state: when some waiting clients are refused
on account of each other, then the call that one of them is in is still going on after any continuation
of the run. -/
theorem deadlocked_call_hangs {dir : CString} {k : κ} {es : List (Int32 × Event)}
    (hreach : Run (Clients.Step K) Run.free (Clients.start dir k) es s) {S : Set Int32}
    (hdead : Deadlocked Resource.id (fun c l ↦ s.refused c l = true) S s.table) (hc : c ∈ S)
    {req : Request} (hreq : s.pending c = some req) (hproc : req.proc = call.proc)
    (hparams : call.params cl = .ok params) (hpass : List.Forall₂ Param.Passes params req.args)
    {later : List (Int32 × Event)} (hlater : Run (Clients.Step K) Run.free s later.reverse s') :
    call.run K cl (attempts cuts c [] later) s.world = .error .hang := by
  have hn : (req.args.length : ℤ) = call.proc.nparams.toInt := by
    rw [← hpass.length_eq, RetryCall.length_params hparams]
  obtain ⟨-, hevents⟩ := agree_of_deadlocked (Clients.sound_of_run hreach) hdead hlater
  have hrefused : OnlyRefusals c later := by
    rintro x hx rfl
    rw [(hevents x (List.mem_reverse.mpr hx) hc).1]
    rfl
  have hfirst := asksFirst_of_pending hreq hlater
  rw [hproc] at hfirst
  rw [← List.append_nil later] at hlater hfirst ⊢
  have hnone : serveAll K [] s.world = .ok s.world := rfl
  obtain ⟨-, others, w, -, -, -, heq⟩ :=
    retry_passes call.retries_proc hpass hn hnone hlater hfirst hrefused
  rw [RetryCall.run_eq K hparams, heq]
  rfl

end

/-- Parameters that are what the arguments are. -/
theorem passes_of_map_eq {params : List Param} {args : List ArgType}
    (h : params.map (fun p ↦ (p.psize, p.pval)) = args.map fun a ↦ (a.argSize, a.argVal)) :
    List.Forall₂ Param.Passes params args := by
  have heq := List.forall₂_eq_eq_eq ▸ h
  rw [List.forall₂_map_left_iff, List.forall₂_map_right_iff] at heq
  refine heq.imp fun p a hpa ↦ ?_
  obtain ⟨hsize, hval⟩ := Prod.mk.inj hpa
  exact ⟨hsize, hval ▸ List.prefix_rfl⟩

/-- Client 1 never gets the file that client 2 has, who waits for the one of client 1. -/
theorem deadlocked_call_hangs_of_crossed :
    ∃ es s, Run (Clients.Step (FileSystem.kernel .lowest)) Run.free
        (Clients.start (.lit "/srv") {}) es s ∧
      ∀ later s', Run (Clients.Step (FileSystem.kernel .lowest)) Run.free s later.reverse s' →
        (RetryCall.fsOpen (.lit "mnt/b") 1).run (FileSystem.kernel .lowest) mountedClient
          (attempts (fun _ ↦ ⟨[1], [2], [], []⟩) 1 [] later) s.world = .error .hang := by
  have hparams : (RetryCall.fsOpen (.lit "mnt/b") 1).params mountedClient
      = .ok [.int 1, .int 1, .str (.lit "/srv/b")] := by
    have htranslate : mountedClient.translate (.lit "mnt/b") = .ok (.lit "/srv/b") := by decide
    rw [RetryCall.params, htranslate]
    rfl
  obtain ⟨es, s, hrun, hs⟩ := Clients.exists_run (FileSystem.kernel .lowest) Run.free (.lit "/srv") {}
    crossed (fun s ↦ s.refused 1 s.table && s.refused 2 s.table &&
      (s.table.all fun r ↦ r.id = 1 ∨ r.id = 2) &&
      (s.pending 1).any fun req ↦ req.proc = .fsOpen ∧
        [Param.int 1, .int 1, .str (.lit "/srv/b")].map (fun p ↦ (p.psize, p.pval))
          = req.args.map fun a ↦ (a.argSize, a.argVal)) (by decide)
  obtain ⟨⟨⟨h₁, h₂⟩, hall⟩, hany⟩ := by simpa only [Bool.and_eq_true] using hs
  obtain ⟨req, hreq, hproc, hargs⟩ : ∃ req, s.pending 1 = some req ∧
      req.proc = (RetryCall.fsOpen (.lit "mnt/b") 1).proc ∧
      [Param.int 1, .int 1, .str (.lit "/srv/b")].map (fun p ↦ (p.psize, p.pval))
        = req.args.map fun a ↦ (a.argSize, a.argVal) := by
    rcases hreq : s.pending 1 with _ | req
    · rw [hreq] at hany
      cases hany
    · rw [hreq] at hany
      exact ⟨req, rfl, of_decide_eq_true hany⟩
  have hown : within Resource.id {1, 2} s.table = s.table :=
    within_eq_self fun r hr ↦ by simpa using List.all_eq_true.mp hall r hr
  have hdead : Deadlocked Resource.id (fun c l ↦ s.refused c l = true) {1, 2} s.table := by
    rintro c (rfl | rfl)
    · rwa [hown]
    · rwa [hown]
  exact ⟨es, s, hrun, fun later s' hlater ↦ deadlocked_call_hangs (FileSystem.kernel .lowest)
    (fun _ ↦ ⟨[1], [2], [], []⟩) hrun hdead (.inl rfl) hreq hproc hparams (passes_of_map_eq hargs) hlater⟩

end RemoteFs
