import RemoteFs.Datagram.Bounds
import RemoteFs.Datagram.Decoder

/-!
# Procedures and their parameters

A procedure is registered for a number of parameters, and the number stands in its node.  `find` does not
look at it, and neither does `launch_server`, which hands the number of the request to the procedure.  So
a procedure that was registered earlier under the same name, and for the number that is asked for, is
never reached, and the one that was registered last is called with any number.

`dispatch_respects_iff`: a request gets the procedure of its signature, or none, exactly if the last
registration under its name, if there is one, was for its number of parameters.
-/

set_option autoImplicit false

namespace RemoteFs.Datagram

variable {σ : Type}

/-! ## Registrations -/

/-- The last registration under a name and for a number of parameters. -/
def lastFor (regs : List (Registration σ)) (name : CString) (nparams : Int32) :
    Option (Registration σ) :=
  (regs.filter fun reg ↦ decide (reg.nparams = nparams) && decide (reg.procedureName = some name)).getLast?

/-- The last registration under a name is the last one for its own number of parameters. -/
theorem lastFor_of_lastUnder {regs : List (Registration σ)} {name : CString} {reg : Registration σ}
    (h : lastUnder regs name = some reg) : lastFor regs name reg.nparams = some reg := by
  obtain ⟨front, hfront⟩ := List.getLast?_eq_some_iff.mp h
  rw [lastFor, ← List.filter_filter, hfront, List.filter_append, List.getLast?_append]
  simp

/-! ## Dispatch -/

/-- The node whose procedure is called for a request, if one is. -/
def called (functionList : List (Node σ)) (r : Request) : Option (Node σ) :=
  find functionList (CString.upTo r.funcName)

section
variable {srv : Server σ} {d : Bytes} {r : Request}

/-- What `launch_server` does with a request, when it calls a procedure. -/
def Server.afterCall (srv : Server σ) (d : Bytes) (r : Request) (m : ServerMem) (fp : FpType σ) :
    Except Fault (Option (Request × Bytes) × Server σ) := do
  let (ret, s') ← fp r.nparams r.args srv.state
  let t ← reply m (some ret)
  pure (some (r, t), { srv with buf := recvfrom srv.buf d, args := .null, state := s' })

theorem step_of_called (hd : d ≠ []) (hr : (srv.decoded d).result = .ok r) {n : Node σ}
    (hn : called srv.functionList r = some n) (m : ServerMem) :
    srv.step m d = srv.afterCall d r m n.fp := by
  have hfind : find srv.functionList (CString.upTo r.funcName) = some n := hn
  rw [step_of_decoded hd hr, answer, hfind, Server.afterCall]
  simp only [bind_assoc, pure_bind]

theorem step_of_not_called (hd : d ≠ []) (hr : (srv.decoded d).result = .ok r)
    (hn : called srv.functionList r = none) (m : ServerMem) :
    srv.step m d = .ok (some (r, []), { srv with buf := recvfrom srv.buf d, args := .null }) := by
  have hfind : find srv.functionList (CString.upTo r.funcName) = none := hn
  rw [step_of_decoded hd hr, answer, hfind]
  simp only [reply_none, ok_bind]
  rfl

/-- What should become of a request: the procedure that was registered last for its name and its number
of parameters is called, with them, or none is called, and the answer is empty. -/
inductive Dispatched (regs : List (Registration σ)) (srv : Server σ) (d : Bytes) (r : Request)
    (m : ServerMem) : Prop
  | call {reg : Registration σ}
    (last : lastFor regs (CString.upTo r.funcName) r.nparams = some reg)
    (calls : called srv.functionList r
      = some ⟨CString.upTo r.funcName, r.nparams, reg.fnpointer⟩)
    (runs : srv.step m d = srv.afterCall d r m reg.fnpointer)
  | decline (calls : called srv.functionList r = none)
    (empty : srv.step m d
      = .ok (some (r, []), { srv with buf := recvfrom srv.buf d, args := .null }))

end

/-- **When dispatch respects the signature.**  For all registrations, in any order, every state the server
comes to, and every request it takes out of a datagram: exactly when the last registration under the
name, if there is one, was for as many parameters as the request has. -/
theorem dispatch_respects_iff {regs : List (Registration σ)} {s : σ} {srv : Server σ}
    (h : Launched (registerAll regs) s srv) {d : Bytes} (hd : d ≠ []) {r : Request}
    (hr : (srv.decoded d).result = .ok r) (m : ServerMem) :
    Dispatched regs srv d r m ↔
      ∀ reg, lastUnder regs (CString.upTo r.funcName) = some reg → reg.nparams = r.nparams := by
  have hcalled : called srv.functionList r = (lastUnder regs (CString.upTo r.funcName)).map
      fun reg ↦ ⟨CString.upTo r.funcName, reg.nparams, reg.fnpointer⟩ := by
    rw [called, h.functionList_eq, find_eq_lastUnder]
  constructor
  · rintro (⟨-, hcalls, -⟩ | ⟨hcalls, -⟩) reg hreg
    · rw [hcalled, hreg, Option.map_some, Option.some.injEq, Node.mk.injEq] at hcalls
      exact hcalls.2.1
    · rw [hcalled, hreg] at hcalls
      cases hcalls
  · intro hcount
    cases hlast : lastUnder regs (CString.upTo r.funcName) with
    | none =>
      rw [hlast] at hcalled
      exact .decline hcalled (step_of_not_called hd hr hcalled m)
    | some reg =>
      have hlastFor := lastFor_of_lastUnder hlast
      rw [hlast, Option.map_some, hcount reg hlast] at hcalled
      rw [hcount reg hlast] at hlastFor
      exact .call hlastFor hcalled (step_of_called hd hr hcalled m)

/-! ## Runs -/

/-- A server that has been given `echoRegistrations`, before its first datagram. -/
def echoServer : Server ℕ := ⟨registerAll echoRegistrations, .fill 9, .null, 5⟩

theorem launched_echoServer : Launched (registerAll echoRegistrations) 5 echoServer := .start (.fill 9)

/-- A request for `echo` with one parameter, of one byte. -/
def echoRequest : Request := ⟨1, (CString.lit "echo").chars, [⟨[5], 1, rfl⟩]⟩

/-- It gets the procedure that was registered last, which was for one parameter. -/
theorem dispatch_respects_of_echo :
    Dispatched echoRegistrations echoServer echoRequest.encode echoRequest someServerMem := by
  have hdecoded := launched_echoServer.decoded_encode (r := echoRequest) ⟨rfl, by decide⟩ (by decide)
  refine (dispatch_respects_iff launched_echoServer (by decide) hdecoded someServerMem).mpr ?_
  intro reg hreg
  have hlast : lastUnder echoRegistrations (CString.upTo echoRequest.funcName)
      = some ⟨some (.lit "echo"), 1, echoLast⟩ := rfl
  rw [hlast, Option.some.injEq] at hreg
  rw [← hreg]
  rfl

/-- A request for two parameters gets it too, though there is a procedure for two. -/
theorem dispatch_ignores_count :
    (echoServer.decoded echoCall.request.encode).result = .ok echoCall.request ∧
      called echoServer.functionList echoCall.request = some ⟨.lit "echo", 1, echoLast⟩ ∧
      ¬ Dispatched echoRegistrations echoServer echoCall.request.encode echoCall.request
        someServerMem := by
  have hcalled : called echoServer.functionList echoCall.request
      = some ⟨.lit "echo", 1, echoLast⟩ := rfl
  refine ⟨launched_echoServer.decoded_encode ⟨rfl, by decide⟩ (by decide), hcalled, ?_⟩
  rintro (⟨-, hcalls, -⟩ | ⟨hcalls, -⟩)
  · rw [hcalled, Option.some.injEq, Node.mk.injEq] at hcalls
    exact absurd hcalls.2.1 (by decide)
  · rw [hcalled] at hcalls
    cases hcalls

end RemoteFs.Datagram
