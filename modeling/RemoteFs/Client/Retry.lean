import RemoteFs.Client.Api
import RemoteFs.Server.FileSystem

/-!
# Trying again

Five calls of the client library repeat their remote call for as long as the answer is `-EAGAIN`.
Between two attempts the server may do anything for the other clients.  `retry_transparent` compares
the run of such a call with a run in which the refused attempts are left out, and only the requests
of the others remain: they are the same run.

The lock check is seen from the server's side: an attempt is refused when the request that arrives
is `blocked` in the world it arrives in.  That the client sees a refusal exactly then needs two
facts, that a blocked request changes nothing (`remote_of_blocked`), and that an admitted one is
answered `-EAGAIN` only if that is what the system call fails with (`ne_refusal_of_admitted`).
-/

set_option autoImplicit false

namespace RemoteFs

variable {κ : Type}

/-- The calls that try again. -/
inductive RetryCall where
  | fsCloseDir (folder : Int32)
  | fsOpen (fname : CString) (mode : Int32)
  | fsClose (fd : Int32)
  | fsWrite (fd : Int32) (buf : Bytes) (count : UInt32)
  | fsRemove (name : CString)

namespace RetryCall

/-- The function of the library. -/
def run (K : Kernel κ) (cl : Client) : RetryCall → List Attempt → World κ →
    Except Fault (Outcome κ)
  | .fsCloseDir folder => cl.fsCloseDir K folder
  | .fsOpen fname mode => cl.fsOpen K fname mode
  | .fsClose fd => cl.fsClose K fd
  | .fsWrite fd buf count => cl.fsWrite K fd buf count
  | .fsRemove name => cl.fsRemove K name

/-- The procedure it calls. -/
def proc : RetryCall → Proc
  | .fsCloseDir _ => .fsCloseDir
  | .fsOpen _ _ => .fsOpen
  | .fsClose _ => .fsClose
  | .fsWrite _ _ _ => .fsWrite
  | .fsRemove _ => .fsRemove

/-- What it passes, in every attempt. -/
def params (cl : Client) : RetryCall → Except Fault (List Param)
  | .fsCloseDir folder => return [.int cl.id, .int folder]
  | .fsOpen fname mode => return [.int cl.id, .int mode, .str (← cl.translate fname)]
  | .fsClose fd => return [.int cl.id, .int fd]
  | .fsWrite fd buf count =>
    return [.int cl.id, .int fd, .int count.toInt32, ⟨count.toInt32, buf⟩]
  | .fsRemove name => return [.int cl.id, .str (← cl.translate name)]

variable {K : Kernel κ} {cl : Client} {call : RetryCall} {params : List Param}

theorem length_params (h : call.params cl = .ok params) :
    (params.length : ℤ) = call.proc.nparams.toInt := by
  cases call with
  | fsCloseDir | fsClose | fsWrite =>
    cases h
    rfl
  | fsOpen | fsRemove =>
    obtain ⟨path, -, h⟩ := bind_eq_ok.mp h
    cases h
    rfl

/-- Only the loop depends on the attempts and the world. -/
theorem run_congr (h : call.params cl = .ok params) {as bs : List Attempt} {v w : World κ}
    (hretry : retry (remote K call.proc params) as v = retry (remote K call.proc params) bs w) :
    call.run K cl as v = call.run K cl bs w := by
  cases call with
  | fsCloseDir | fsClose | fsWrite =>
    cases h
    exact congrArg (· >>= _) hretry
  | fsOpen | fsRemove =>
    obtain ⟨path, hpath, h⟩ := bind_eq_ok.mp h
    cases h
    simp only [run, Client.fsOpen, Client.fsRemove, hpath, ok_bind]
    exact congrArg (· >>= _) hretry

end RetryCall

/-! ## Attempts -/

/-- The attempt reaches the server in the world `w₁`, after the requests of the others, and its
request asks for `op`. -/
def Attempt.Meets (a : Attempt) (K : Kernel κ) (proc : Proc) (params : List Param) (w : World κ)
    (op : Op) (w₁ : World κ) : Prop :=
  serveAll K a.others w = .ok w₁ ∧ ∃ args, List.Forall₂ Param.Passes params args ∧
    Request.op ⟨proc, args, a.garbage⟩ = .ok op

/-- The attempts are refused by the lock check, one after the other, and leave `w'`. -/
def AllRefused (K : Kernel κ) (proc : Proc) (params : List Param) :
    List Attempt → World κ → World κ → Prop
  | [], w, w' => w' = w
  | a :: as, w, w' => ∃ op w₁ ret w₂, a.Meets K proc params w op w₁ ∧
      op.blocked w₁.srv.resourceList a.garbage = true ∧
      remote K proc params a w = .ok (ret, w₂) ∧ AllRefused K proc params as w₂ w'

/-- The error number of the system call an admitted operation makes, if that fails. -/
def Op.errno? (K : Kernel κ) (w : World κ) : Op → Option Int32
  | .open_ _ mode path => errnoOf (K.open_ w.kern path (openFlags mode)).1
  | .close _ fd => errnoOf (K.close w.kern fd).1
  | .write _ fd count buf => errnoOf (K.write w.kern fd (buf.take (sizeT count))).1
  | .remove _ path => errnoOf (K.remove w.kern path).1
  | .closeDir _ num =>
    (findNode w.srv.openDirQueue num).bind fun d ↦ errnoOf (K.closedir w.kern d.dir).1
  | _ => none
where
  /-- The number of an error. -/
  errnoOf {α : Type} : Except Errno α → Option Int32
    | .ok _ => none
    | .error e => some e.1

section
variable {K : Kernel κ} {proc : Proc} {params : List Param} {a : Attempt} {w w₁ : World κ} {op : Op}

/-- What the client gets is what the handler makes of the request. -/
theorem remote_of_meets (hn : (params.length : ℤ) = proc.nparams.toInt)
    (h : a.Meets K proc params w op w₁) : remote K proc params a w = perform K a.garbage op w₁ := by
  obtain ⟨hothers, args, hpasses, hop⟩ := h
  rw [remote_eq K hothers hpasses (by rw [← hpasses.length_eq, hn]), serve_of_op hop]

/-- **A refused attempt changes nothing on the server.** -/
theorem remote_of_blocked (hn : (params.length : ℤ) = proc.nparams.toInt)
    (h : a.Meets K proc params w op w₁) (hb : op.blocked w₁.srv.resourceList a.garbage = true) :
    remote K proc params a w = .ok (refusal, w₁) := by
  rw [remote_of_meets hn h, perform_of_blocked K hb]

/-- The request of an attempt is ignored, or is an operation of its procedure. -/
theorem Attempt.Meets.asks (h : a.Meets K proc params w op w₁) :
    op = .ignored ∨ ∃ id?, proc.Asks id? op := by
  obtain ⟨-, args, -, hop⟩ := h
  exact (Request.op_eq_ok hop).imp_right fun hasks ↦ ⟨_, hasks⟩

end

/-! ## Replies to admitted requests -/

theorem outcome_ne_neg_EAGAIN {α : Type} {r : Except Errno α} {ok : α → Int32}
    (hok : ∀ x, 0 ≤ ok x) (h : Op.errno?.errnoOf r ≠ some EAGAIN) : outcome r ok ≠ -EAGAIN := by
  cases r with
  | ok x => exact ne_neg_EAGAIN (Int32.not_lt.mpr (hok x))
  | error e =>
    intro heq
    exact h (congrArg some (Int32.neg_inj.mp heq))

/-- **An admitted request is answered with an `int` other than `-EAGAIN`**, unless that is what its
system call fails with. -/
theorem ne_refusal_of_admitted {K : Kernel κ} {w w' : World κ} (call : RetryCall) {op : Op}
    {id? : Option Int32} {g : Int32} {ret : ReturnType} (hop : call.proc.Asks id? op)
    (hadm : op.blocked w.srv.resourceList g = false) (hcall : op.errno? K w ≠ some EAGAIN)
    (h : perform K g op w = .ok (ret, w')) : ∃ r, ret = .int r ∧ r ≠ -EAGAIN := by
  have hzero : ∀ _ : Unit, (0 : Int32) ≤ 0 := fun _ ↦ by decide
  have hperformed := performed_of_perform hadm h
  cases call with
  | fsOpen fname mode =>
    cases hop
    cases hperformed
    exact ⟨_, rfl, outcome_ne_neg_EAGAIN (fun fd ↦ fd.2) hcall⟩
  | fsClose fd =>
    cases hop
    cases hperformed
    exact ⟨_, rfl, outcome_ne_neg_EAGAIN hzero hcall⟩
  | fsRemove name =>
    cases hop
    cases hperformed
    exact ⟨_, rfl, outcome_ne_neg_EAGAIN hzero hcall⟩
  | fsCloseDir folder =>
    cases hop
    cases hperformed with
    | closeDir hd =>
      rw [Op.errno?, hd, Option.bind_some] at hcall
      exact ⟨_, rfl, outcome_ne_neg_EAGAIN hzero hcall⟩
  | fsWrite fd buf count =>
    cases hop with
    | write id fd n a =>
      have hlt := Int32.toInt_lt a.argSize
      have hsize := a.size_eq
      have hok : ∀ m : { m : ℕ // m ≤ (a.argVal.take (sizeT n)).length }, m.1 < 2 ^ 31 := by
        intro m
        have hm := m.2
        have htake := List.length_take_le' (sizeT n) a.argVal
        omega
      cases hperformed with
      | write h =>
        rw [writeFd] at h
        split at h
        · cases h
        · cases h
          refine ⟨_, rfl, ?_⟩
          rw [orErrno_after _ _ _ _ fun m ↦ ofNat_ne_neg_one (hok m)]
          exact outcome_ne_neg_EAGAIN (fun m ↦ ofNat_nonneg (hok m)) hcall

/-! ## The two runs -/

theorem serveAll_append {K : Kernel κ} {reqs reqs' : List Request} {w w' : World κ}
    (h : serveAll K reqs w = .ok w') : serveAll K (reqs ++ reqs') w = serveAll K reqs' w' := by
  induction reqs generalizing w with
  | nil =>
    cases h
    rfl
  | cons req reqs ih =>
    obtain ⟨⟨ret, w₁⟩, hserve, h⟩ := bind_eq_ok.mp h
    rw [List.cons_append, serveAll, hserve]
    exact ih h

section
variable {K : Kernel κ} {proc : Proc} {params : List Param} {w w' : World κ}

/-- After the refused attempts the server is where the requests of the others have left it. -/
theorem serveAll_of_allRefused (hn : (params.length : ℤ) = proc.nparams.toInt)
    {as : List Attempt} (h : AllRefused K proc params as w w') :
    serveAll K (as.flatMap Attempt.others) w = .ok w' := by
  induction as generalizing w with
  | nil =>
    cases h
    rfl
  | cons a as ih =>
    obtain ⟨op, w₁, ret, w₂, hmeets, hb, hremote, h⟩ := h
    rw [remote_of_blocked hn hmeets hb] at hremote
    cases hremote
    rw [List.flatMap_cons, serveAll_append hmeets.1]
    exact ih h

/-- And the loop still goes on. -/
theorem retry_of_allRefused (hn : (params.length : ℤ) = proc.nparams.toInt)
    {as : List Attempt} (h : AllRefused K proc params as w w') (rest : List Attempt) :
    retry (remote K proc params) (as ++ rest) w = retry (remote K proc params) rest w' := by
  induction as generalizing w with
  | nil =>
    cases h
    rfl
  | cons a as ih =>
    obtain ⟨op, w₁, ret, w₂, hmeets, hb, hremote, h⟩ := h
    have hrefused := remote_of_blocked hn hmeets hb
    rw [hrefused] at hremote
    cases hremote
    rw [List.cons_append, retry_again hrefused (ReturnType.int?_int _)]
    exact ih h

end

/-- **Retrying is transparent.**  A call of the library makes some attempts that are refused by the
lock check, with any requests of other clients before each of them, and then one that is admitted
and whose system call does not itself fail with `EAGAIN`.  Then the refused attempts have changed
nothing on the server, and the call returns what it returns, with the same reply, and leaves the
server and its kernel in the same state, as when it makes the last attempt only, after all those
requests of the others.  There is no attempt after that. -/
theorem retry_transparent (K : Kernel κ) {cl : Client} {call : RetryCall} {params : List Param}
    (hparams : call.params cl = .ok params) {refused : List Attempt} {w w' w₁ : World κ}
    (hrefused : AllRefused K call.proc params refused w w') {a : Attempt} {op : Op}
    (hmeets : a.Meets K call.proc params w' op w₁)
    (hadm : op.blocked w₁.srv.resourceList a.garbage = false)
    (hcall : op.errno? K w₁ ≠ some EAGAIN) (rest : List Attempt) :
    serveAll K (refused.flatMap Attempt.others) w = .ok w' ∧
      call.run K cl (refused ++ a :: rest) w
        = call.run K cl [⟨refused.flatMap Attempt.others ++ a.others, a.garbage, a.cuts⟩] w := by
  have hn := RetryCall.length_params hparams
  have hserve := serveAll_of_allRefused hn hrefused
  refine ⟨hserve, RetryCall.run_congr hparams ?_⟩
  rw [retry_of_allRefused hn hrefused]
  -- both runs now make one attempt, and it meets the server in the same state
  have hmeets' : Attempt.Meets ⟨refused.flatMap Attempt.others ++ a.others, a.garbage, a.cuts⟩ K
      call.proc params w op w₁ := ⟨(serveAll_append hserve).trans hmeets.1, hmeets.2⟩
  have hlong := remote_of_meets hn hmeets
  have hshort := remote_of_meets hn hmeets'
  cases hperform : perform K a.garbage op w₁ with
  | error f =>
    rw [hperform] at hlong hshort
    simp only [retry, hlong, hshort, bind, Except.bind]
  | ok x =>
    obtain ⟨ret, w₂⟩ := x
    rw [hperform] at hlong hshort
    obtain rfl | ⟨_, hasks⟩ := hmeets.asks
    · cases hperform
      simp only [retry, hlong, hshort, bind, Except.bind, ReturnType.int?_null]
    · obtain ⟨r, rfl, hr⟩ := ne_refusal_of_admitted call hasks hadm hcall hperform
      rw [retry_done hlong (ReturnType.int?_int r) hr, retry_done hshort (ReturnType.int?_int r) hr]

/-- Client 2 has the file open that client 1 wants. -/
def heldFile : World FileSystem where
  srv := { mountedDir := .lit "/srv", resourceList := [⟨1, 2, 3, .lit "/srv/a"⟩] }
  kern :=
    { names := [(.lit "/srv/a", .file 0)], nextInode := 1, files := [⟨3, .file 0, 0, true⟩]
      opens := 1 }

/-- It closes it after client 1 has been refused twice. -/
theorem retry_transparent_of_close :
    serveAll (FileSystem.kernel .lowest) [] heldFile = .ok heldFile ∧
      (RetryCall.fsOpen (.lit "mnt/a") 0).run (FileSystem.kernel .lowest) mountedClient
          [.quiet, .quiet, ⟨[.close 2 3], 0, ⟨[], [], [], []⟩⟩, .quiet] heldFile
        = (RetryCall.fsOpen (.lit "mnt/a") 0).run (FileSystem.kernel .lowest) mountedClient
          [⟨[.close 2 3], 0, ⟨[], [], [], []⟩⟩] heldFile := by
  have hparams : (RetryCall.fsOpen (.lit "mnt/a") 0).params mountedClient
      = .ok [.int 1, .int 0, .str (.lit "/srv/a")] := by
    rw [RetryCall.params, translate_mountedClient]
    rfl
  have hpasses : List.Forall₂ Param.Passes [.int 1, .int 0, .str (.lit "/srv/a")]
      [.int 1, .int 0, .str (.lit "/srv/a") (by decide)] :=
    .cons (Param.passes_int _) (.cons (Param.passes_int _) (.cons (Param.passes_str _ _) .nil))
  have hmeets : Attempt.quiet.Meets (FileSystem.kernel .lowest) .fsOpen
      [.int 1, .int 0, .str (.lit "/srv/a")] heldFile (.open_ 1 0 (.lit "/srv/a")) heldFile :=
    ⟨rfl, _, hpasses, Request.op_open⟩
  have hn := RetryCall.length_params hparams
  have hb : (Op.open_ 1 0 (.lit "/srv/a")).blocked heldFile.srv.resourceList 0 = true := by decide
  have hremote := remote_of_blocked hn hmeets hb
  have hrefused : AllRefused (FileSystem.kernel .lowest) .fsOpen
      [.int 1, .int 0, .str (.lit "/srv/a")] [.quiet, .quiet] heldFile heldFile :=
    ⟨_, _, _, _, hmeets, hb, hremote, _, _, _, _, hmeets, hb, hremote, rfl⟩
  have hmeets' : Attempt.Meets ⟨[.close 2 3], 0, ⟨[], [], [], []⟩⟩ (FileSystem.kernel .lowest)
      .fsOpen [.int 1, .int 0, .str (.lit "/srv/a")] heldFile (.open_ 1 0 (.lit "/srv/a")) _ :=
    ⟨rfl, _, hpasses, Request.op_open⟩
  exact retry_transparent (FileSystem.kernel .lowest) hparams hrefused hmeets' (by decide)
    (by decide) [.quiet]

end RemoteFs
