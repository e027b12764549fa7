import RemoteFs.Lock.Ownership
import RemoteFs.Rpc.Launch
import RemoteFs.Server.Main

/-!
# The program refines its runs

Everything about the file server is proved of `ServerRun`s, sequences of requests that reach a
handler.  The program is `launch_server` over the ten handlers, and what it gets is connections with
bytes on them.  `launchServer_iff_run` says that the two are one system: the loop gets through a
number of connections exactly when a run serves the requests they begin with, ends in the same world,
and what is sent back are the replies of the run.  A call for a name and count that no handler is
registered under is answered with a zero and is not in the run.

So what holds of every run holds of the program, whatever bytes its clients send: `pathsNodup_of_launch`
is an example.  Conversely `launchServer_of_run` finds the bytes for every run.
-/

set_option autoImplicit false

namespace RemoteFs

variable {κ : Type}

/-- The list of procedures `main` hands to `launch_server`. -/
def fileServer (K : Kernel κ) (garbage : Int32) : List (Fn (World κ)) :=
  registerAll (procedures K garbage)

/-- The call is for the handler: its name, and its count. -/
def Call.For (call : Call) (proc : Proc) : Prop := call.1 = proc.name ∧ call.2.1 = proc.nparams

instance (call : Call) (proc : Proc) : Decidable (call.For proc) :=
  inferInstanceAs (Decidable (_ ∧ _))

/-- What a call of a handler is as a request. -/
def Call.request (call : Call) (proc : Proc) (garbage : Int32) : Request :=
  ⟨proc, call.2.2, garbage⟩

/-! ## One call -/

section
variable {K : Kernel κ} {w : World κ} {call : Call} {proc : Proc} {garbage : Int32}

theorem CallWord.length_eq {i : Bytes} (h : CallWord call i) :
    (call.2.2.length : ℤ) = call.2.1.toInt := by
  obtain ⟨block, -, -, -, hn, -⟩ := h
  exact hn

/-- A call of a handler runs it. -/
theorem makeCall_fileServer {i : Bytes} (hi : CallWord call i) (hfor : call.For proc) :
    makeCall (fileServer K garbage) call.1 call.2.1 call.2.2 w
      = serve K (call.request proc garbage) w := by
  obtain ⟨hname, hcount⟩ := hfor
  have hn : (call.2.2.length : ℤ) = proc.nparams.toInt := by rw [← hcount, hi.length_eq]
  have hreq : (call.request proc garbage).nparams = proc.nparams := nparams_of_length hn
  have hserve := makeCall_procedures K w hreq
  simp only [Call.request] at hserve
  rw [hname, hcount]
  exact hserve

/-- Any other call finds nothing. -/
theorem makeCall_fileServer_of_unknown (hnone : ∀ proc, ¬ call.For proc) :
    makeCall (fileServer K garbage) call.1 call.2.1 call.2.2 w = .ok (.null, w) := by
  have hfind : (findFn (fileServer K garbage) call.1 call.2.1).map Fn.fp = none := by
    rw [fileServer, findFn_registerAll, mostRecent, Option.map_eq_none_iff, List.getLast?_eq_none_iff,
      List.filter_eq_nil_iff]
    intro c hc hmatch
    obtain ⟨hname, hcount⟩ := of_decide_eq_true hmatch
    simp only [procedures, List.mem_cons, List.not_mem_nil, or_false] at hc
    rcases hc with rfl | rfl | rfl | rfl | rfl | rfl | rfl | rfl | rfl | rfl
    · exact hnone .fsMount ⟨(Option.some.inj hname).symm, hcount.symm⟩
    · exact hnone .fsUnmount ⟨(Option.some.inj hname).symm, hcount.symm⟩
    · exact hnone .fsOpenDir ⟨(Option.some.inj hname).symm, hcount.symm⟩
    · exact hnone .fsReadDir ⟨(Option.some.inj hname).symm, hcount.symm⟩
    · exact hnone .fsCloseDir ⟨(Option.some.inj hname).symm, hcount.symm⟩
    · exact hnone .fsOpen ⟨(Option.some.inj hname).symm, hcount.symm⟩
    · exact hnone .fsRead ⟨(Option.some.inj hname).symm, hcount.symm⟩
    · exact hnone .fsWrite ⟨(Option.some.inj hname).symm, hcount.symm⟩
    · exact hnone .fsClose ⟨(Option.some.inj hname).symm, hcount.symm⟩
    · exact hnone .fsRemove ⟨(Option.some.inj hname).symm, hcount.symm⟩
  rw [makeCall, Option.map_eq_none_iff.mp hfind]

/-- A call is for one handler at most. -/
theorem Call.For.unique {proc' : Proc} (h : call.For proc) (h' : call.For proc') : proc = proc' := by
  have hname : proc.name = proc'.name := h.1.symm.trans h'.1
  revert hname
  cases proc <;> cases proc' <;> decide

end

/-! ## The loop -/

/-- What a connection yields: what is sent back on it, and the event when it was a request. -/
inductive Connection.Yields (c : Connection) : Bytes × Option Event → Prop
  /-- A handler was called. -/
  | request {call : Call} {proc : Proc} {e : Event} (h : c.Begins call) (hfor : call.For proc)
      (hreq : e.req = call.request proc c.garbage) : c.Yields (resultBytes e.reply, some e)
  /-- No handler has this name and count. -/
  | unknown {call : Call} (h : c.Begins call) (hnone : ∀ proc, ¬ call.For proc) :
      c.Yields (resultBytes .null, none)

theorem null_holds : ReturnType.null.Holds := fun h ↦ absurd h (by decide)

section
variable {K : Kernel κ} {w w' : World κ} {c : Connection} {call : Call} {ret : ReturnType}

/-- An answered connection is a step of the server, or none. -/
theorem Answered.yields (h : Answered (fileServer K c.garbage) w c call ret w') :
    ∃ o : Option Event, c.Yields (resultBytes ret, o) ∧
      ((o = none ∧ w' = w) ∨ ∃ e, o = some e ∧ serverStep K w e w') := by
  obtain ⟨i, rest, hi, hinp⟩ := h.begins
  by_cases hfor : ∃ proc, call.For proc
  · obtain ⟨proc, hfor⟩ := hfor
    have hserve := h.called
    rw [makeCall_fileServer hi hfor] at hserve
    obtain ⟨calls, hstep⟩ := exists_serverStep hserve
    have hyields := Connection.Yields.request (e := ⟨call.request proc c.garbage, calls, ret⟩)
      h.begins hfor rfl
    exact ⟨some ⟨call.request proc c.garbage, calls, ret⟩, hyields, .inr ⟨_, rfl, hstep⟩⟩
  · rw [not_exists] at hfor
    have hnull := h.called
    rw [makeCall_fileServer_of_unknown hfor] at hnull
    cases hnull
    exact ⟨none, .unknown h.begins hfor, .inl ⟨rfl, rfl⟩⟩

/-- A step of the server answers the connections that begin with its request. -/
theorem answered_of_step {e : Event} {reply : Bytes} (hc : c.Yields (reply, some e))
    (hstep : serverStep K w e w') :
    reply = resultBytes e.reply ∧ ∃ call, Answered (fileServer K c.garbage) w c call e.reply w' := by
  rcases hc with @⟨call, proc, _, ⟨i, rest, hi, hinp⟩, hfor, hreq⟩
  refine ⟨rfl, call, ⟨i, rest, hi, hinp⟩, ?_, (exact_of_serve hstep.1).holds⟩
  rw [makeCall_fileServer hi hfor, ← hreq]
  exact hstep.1

theorem answered_of_unknown {reply : Bytes} (hc : c.Yields (reply, none)) :
    reply = resultBytes .null ∧ ∃ call, Answered (fileServer K c.garbage) w c call .null w := by
  rcases hc with _ | @⟨call, hbegins, hnone⟩
  exact ⟨rfl, call, hbegins, makeCall_fileServer_of_unknown hnone, null_holds⟩

end

section
variable (K : Kernel κ) {cs : List Connection} {w w' : World κ}

/-- Connections that the loop gets through begin with requests, and a run serves these. -/
theorem run_of_launchServer {replies : List Bytes}
    (h : launchServer (fileServer K) cs w = .ok (replies, w')) :
    ∃ ys, List.Forall₂ Connection.Yields cs ys ∧ replies = ys.map Prod.fst ∧
      Run (serverStep K) Run.free w (ys.filterMap Prod.snd).reverse w' := by
  induction cs generalizing w replies with
  | nil =>
    cases h
    exact ⟨[], .nil, rfl, .start⟩
  | cons c cs ih =>
    obtain ⟨call, ret, w₁, replies, hans, hrest, rfl⟩ := launchServer_cons_eq_ok_iff.mp h
    obtain ⟨ys, hys, rfl, hrun⟩ := ih hrest
    obtain ⟨o, hyields, ⟨rfl, rfl⟩ | ⟨e, rfl, hstep⟩⟩ := hans.yields
    · exact ⟨(resultBytes ret, none) :: ys, .cons hyields hys, rfl, hrun⟩
    · refine ⟨(resultBytes ret, some e) :: ys, .cons hyields hys, rfl, ?_⟩
      simp only [List.filterMap_cons, List.reverse_cons]
      exact Run.first_iff.mpr ⟨w₁, hstep, hrun⟩

/-- Connections that begin with the requests that a run serves take the loop through that run. -/
theorem launchServer_of_yields {ys : List (Bytes × Option Event)}
    (hys : List.Forall₂ Connection.Yields cs ys)
    (hrun : Run (serverStep K) Run.free w (ys.filterMap Prod.snd).reverse w') :
    launchServer (fileServer K) cs w = .ok (ys.map Prod.fst, w') := by
  induction hys generalizing w with
  | nil =>
    cases hrun
    rfl
  | @cons c y cs ys hyields hys ih =>
    refine launchServer_cons_eq_ok_iff.mpr ?_
    rcases y with ⟨reply, _ | e⟩
    · obtain ⟨rfl, call, hans⟩ := answered_of_unknown (K := K) (w := w) hyields
      exact ⟨call, .null, w, _, hans, ih hrun, rfl⟩
    · simp only [List.filterMap_cons, List.reverse_cons] at hrun
      obtain ⟨w₁, hstep, hrun⟩ := Run.first_iff.mp hrun
      obtain ⟨rfl, call, hans⟩ := answered_of_step hyields hstep
      exact ⟨call, e.reply, w₁, _, hans, ih hrun, rfl⟩

end

/-- **Every run can be had from bytes**: a client that sends the request as its stub writes it, followed
by anything, and cut in any way, makes the server take the step. -/
theorem launchServer_of_run (K : Kernel κ) {es : List Event} {w w' : World κ}
    (h : Run (serverStep K) Run.free w es w')
    (hn : ∀ e ∈ es, (e.req.args.length : ℤ) = e.req.proc.nparams.toInt)
    (cuts : Event → List ℕ × List ℕ) (junk : Event → Bytes) :
    launchServer (fileServer K) (es.reverse.map fun e ↦
        ⟨callBytes e.req.proc.name e.req.proc.nparams e.req.args ++ junk e, (cuts e).1, (cuts e).2,
          e.req.garbage⟩) w
      = .ok (es.reverse.map fun e ↦ resultBytes e.reply, w') := by
  have hys : List.Forall₂ Connection.Yields
      (es.reverse.map fun e ↦
        ⟨callBytes e.req.proc.name e.req.proc.nparams e.req.args ++ junk e, (cuts e).1, (cuts e).2,
          e.req.garbage⟩)
      (es.reverse.map fun e ↦ (resultBytes e.reply, some e)) := by
    refine List.forall₂_map_left_iff.mpr (List.forall₂_map_right_iff.mpr ?_)
    refine List.forall₂_same.mpr fun e he ↦ ?_
    have hname : e.req.proc.name.strlen + 2 < 2 ^ 31 := by cases e.req.proc <;> decide
    exact .request ⟨_, junk e, callWord_callBytes hname (hn e (List.mem_reverse.mp he)), rfl⟩
      ⟨rfl, rfl⟩ rfl
  rw [launchServer_of_yields K hys, List.map_map]
  · rfl
  · rw [List.filterMap_map]
    show Run (serverStep K) Run.free w (es.reverse.filterMap some).reverse w'
    rwa [List.filterMap_some, List.reverse_reverse]

/-- Whatever bytes the clients send, no path is ever locked twice. -/
theorem pathsNodup_of_launch {K : Kernel κ} {cs : List Connection} {dir : CString} {k : κ}
    {w : World κ} {replies : List Bytes}
    (h : launchServer (fileServer K) cs (World.start dir k) = .ok (replies, w)) :
    PathsNodup w.srv.resourceList := by
  obtain ⟨ys, -, -, hrun⟩ := run_of_launchServer K h
  exact paths_nodup hrun

end RemoteFs
