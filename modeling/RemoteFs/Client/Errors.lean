import RemoteFs.Client.Calls

/-!
# How errors get to the caller

The server answers a system call that failed with minus its error number.  The five calls that try
again decode the answer, and return `-1` with the number in `errno` (or should: `fsWrite` looks for
`-1`, where the other four look for a negative number, so that it knows the error number `1` only).

`Decided` is the attempt a call comes to an end with: the first that is not answered `-EAGAIN`.
`RetryCall.run_eq` splits a call into its loop and what it makes of the last answer, and
`meets_of_remote` goes back from an answer to the request the server saw.
-/

set_option autoImplicit false

namespace RemoteFs

variable {κ : Type}

/-- The attempts are answered `-EAGAIN`, one after the other, and leave `w'`. -/
def AllAgain (K : Kernel κ) (proc : Proc) (params : List Param) :
    List Attempt → World κ → World κ → Prop
  | [], w, w' => w' = w
  | a :: as, w, w' => ∃ ret w₁, remote K proc params a w = .ok (ret, w₁) ∧
      ret.int? = .ok (-EAGAIN) ∧ AllAgain K proc params as w₁ w'

/-- After attempts that are answered `-EAGAIN` one is admitted, which asks for `op` in `w₁`. -/
def Decided (K : Kernel κ) (proc : Proc) (params : List Param) (as : List Attempt) (w : World κ)
    (op : Op) (w₁ : World κ) : Prop :=
  ∃ again a rest w', as = again ++ a :: rest ∧ AllAgain K proc params again w w' ∧
    a.Meets K proc params w' op w₁ ∧ op.blocked w₁.srv.resourceList a.garbage = false

/-- The system call an admitted operation makes succeeds. -/
def Op.Succeeds (K : Kernel κ) (w : World κ) : Op → Prop
  | .open_ _ mode path => (K.open_ w.kern path (openFlags mode)).1.isOk = true
  | .close _ fd => (K.close w.kern fd).1.isOk = true
  | .write _ fd count buf => (K.write w.kern fd (buf.take (sizeT count))).1.isOk = true
  | .remove _ path => (K.remove w.kern path).1.isOk = true
  | .closeDir _ num => ∃ d, findNode w.srv.openDirQueue num = some d ∧
      (K.closedir w.kern d.dir).1.isOk = true
  | _ => False

/-! ## The loop -/

section
variable {K : Kernel κ} {proc : Proc} {params : List Param}

theorem retry_of_allAgain {again : List Attempt} {w w' : World κ}
    (h : AllAgain K proc params again w w') (rest : List Attempt) :
    retry (remote K proc params) (again ++ rest) w = retry (remote K proc params) rest w' := by
  induction again generalizing w with
  | nil =>
    cases h
    rfl
  | cons a again ih =>
    obtain ⟨ret, w₁, hremote, hret, h⟩ := h
    rw [List.cons_append, retry_again hremote hret]
    exact ih h

/-- **A loop that ends**, ends with the first answer other than `-EAGAIN`. -/
theorem retry_eq_ok {as : List Attempt} {w w₂ : World κ} {r : Int32} {ret : ReturnType}
    (h : retry (remote K proc params) as w = .ok (r, ret, w₂)) :
    ∃ again a rest w', as = again ++ a :: rest ∧ AllAgain K proc params again w w' ∧
      remote K proc params a w' = .ok (ret, w₂) ∧ ret.int? = .ok r ∧ r ≠ -EAGAIN := by
  induction as generalizing w with
  | nil => cases h
  | cons a as ih =>
    obtain ⟨⟨ret₁, w₁⟩, hremote, h⟩ := bind_eq_ok.mp h
    obtain ⟨r₁, hret, h⟩ := bind_eq_ok.mp h
    split at h
    · rename_i hr
      obtain ⟨again, b, rest, w', rfl, hagain, hlast⟩ := ih h
      exact ⟨a :: again, b, rest, w', rfl, ⟨ret₁, w₁, hremote, hr ▸ hret, hagain⟩, hlast⟩
    · rename_i hr
      cases h
      exact ⟨[], a, as, w, rfl, rfl, hremote, hret, hr⟩

/-- **An answer comes from a request** the server has seen. -/
theorem meets_of_remote (hn : (params.length : ℤ) = proc.nparams.toInt) {a : Attempt}
    {w w₂ : World κ} {ret : ReturnType} (h : remote K proc params a w = .ok (ret, w₂)) :
    ∃ op w₁, a.Meets K proc params w op w₁ ∧ perform K a.garbage op w₁ = .ok (ret, w₂) := by
  obtain ⟨w₁, hothers, hcall⟩ := bind_eq_ok.mp h
  obtain ⟨x, hcall, -⟩ := bind_eq_ok.mp hcall
  obtain ⟨args, hpasses⟩ := exists_passes_of_makeRemoteCall proc.strlen_name hn hcall
  rw [remote_eq K hothers hpasses (by rw [← hpasses.length_eq, hn])] at h
  obtain ⟨op, hop, hperform⟩ := op_of_serve h
  exact ⟨op, w₁, ⟨hothers, args, hpasses, hop⟩, hperform⟩

/-- An answer other than `-EAGAIN` is the answer to an admitted request, and not to an ignored
one. -/
theorem decided_of_remote (hn : (params.length : ℤ) = proc.nparams.toInt) {a : Attempt}
    {w w₂ : World κ} {r : Int32} {ret : ReturnType}
    (h : remote K proc params a w = .ok (ret, w₂)) (hret : ret.int? = .ok r) (hr : r ≠ -EAGAIN) :
    ∃ op w₁ id?, a.Meets K proc params w op w₁ ∧ proc.Asks id? op ∧
      op.blocked w₁.srv.resourceList a.garbage = false ∧
      perform K a.garbage op w₁ = .ok (ret, w₂) := by
  obtain ⟨op, w₁, hmeets, hperform⟩ := meets_of_remote hn h
  have hadm : op.blocked w₁.srv.resourceList a.garbage = false := by
    by_contra hb
    rw [perform_of_blocked K (by simpa using hb)] at hperform
    cases hperform
    cases (ReturnType.int?_int _).symm.trans hret
    exact hr rfl
  obtain rfl | ⟨id?, hasks⟩ := hmeets.asks
  · cases hperform
    cases hret
  · exact ⟨op, w₁, id?, hmeets, hasks, hadm, hperform⟩

end

namespace RetryCall

/-- What a call makes of the answer that ends its loop. -/
def finish (cl : Client) (r : Int32) (ret : ReturnType) (w : World κ) : RetryCall → Outcome κ
  | .fsOpen _ _ => if r < 0 then .failed cl r ret w else ⟨r, ret, cl, w⟩
  | .fsWrite _ _ _ => if r = -1 then .failed cl r ret w else ⟨r, ret, cl, w⟩
  | .fsCloseDir _ | .fsClose _ | .fsRemove _ =>
    if r < 0 then .failed cl r ret w else ⟨0, ret, cl, w⟩

theorem run_eq (K : Kernel κ) {cl : Client} {call : RetryCall} {params : List Param}
    (h : call.params cl = .ok params) (as : List Attempt) (w : World κ) :
    call.run K cl as w = (retry (remote K call.proc params) as w).map
      fun x ↦ call.finish cl x.1 x.2.1 x.2.2 := by
  have key : ∀ (c : Prop) [Decidable c] (o o' : Outcome κ),
      (if c then (pure o : Except Fault (Outcome κ)) else pure o') = .ok (if c then o else o') :=
    fun c _ o o' ↦ by split <;> rfl
  cases call with
  | fsCloseDir | fsClose | fsWrite =>
    cases h
    simp only [run, Client.fsCloseDir, Client.fsClose, Client.fsWrite, proc, key]
    cases retry (remote K _ _) as w <;> rfl
  | fsOpen | fsRemove =>
    obtain ⟨path, hpath, h⟩ := bind_eq_ok.mp h
    cases h
    simp only [run, Client.fsOpen, Client.fsRemove, hpath, ok_bind, proc, key]
    cases retry (remote K _ _) as w <;> rfl

/-- A call that returns has come to the end of its loop. -/
theorem run_eq_ok {K : Kernel κ} {cl : Client} {call : RetryCall} {params : List Param}
    (h : call.params cl = .ok params) {as : List Attempt} {w : World κ} {out : Outcome κ}
    (hrun : call.run K cl as w = .ok out) :
    ∃ r ret w₂, retry (remote K call.proc params) as w = .ok (r, ret, w₂) ∧
      call.finish cl r ret w₂ = out := by
  rw [run_eq K h] at hrun
  cases hretry : retry (remote K call.proc params) as w with
  | error f =>
    rw [hretry] at hrun
    cases hrun
  | ok x =>
    rw [hretry] at hrun
    exact ⟨x.1, x.2.1, x.2.2, rfl, Except.ok.inj hrun⟩

/-- An answer that reports failure is passed on as one, except by `fsWrite`. -/
theorem finish_error_iff (cl : Client) (call : RetryCall) (e : Errno) (ret : ReturnType)
    (w : World κ) :
    (call.finish cl (-e.1) ret w).value = -1 ∧ (call.finish cl (-e.1) ret w).client.errno = e.1 ↔
      call.proc ≠ .fsWrite ∨ e.1 = 1 := by
  have hneg : -e.1 < 0 := Int32.not_le.mp e.neg_lt
  cases call with
  | fsWrite fd buf count =>
    by_cases he : e.1 = 1
    · simp [finish, he, Outcome.failed]
    · have hne : -e.1 ≠ -1 := fun h ↦ he (Int32.neg_inj.mp h)
      simp [finish, he, hne, proc]
  | fsCloseDir | fsOpen | fsClose | fsRemove =>
    simp [finish, hneg, Outcome.failed, proc, Int32.neg_neg]

/-- Success is reported only for an answer that reports it. -/
theorem nonneg_of_finish {cl : Client} {call : RetryCall} {r : Int32} {ret : ReturnType}
    {w : World κ} (h : 0 ≤ (call.finish cl r ret w).value) : 0 ≤ r := by
  have hfailed : ¬ (0 : Int32) ≤ -1 := by decide
  cases call with
  | fsWrite fd buf count =>
    rw [finish] at h
    split at h
    · exact absurd h hfailed
    · exact h
  | fsCloseDir | fsOpen | fsClose | fsRemove =>
    rw [finish] at h
    split at h
    · exact absurd h hfailed
    · rename_i hr
      exact Int32.not_lt.mp hr

end RetryCall

/-! ## The answers -/

theorem orErrno_after_error {α : Type} (w : World κ) (c : Syscall) {r : Except Errno α × κ}
    (ok : α → Int32) {e : Errno} (h : r.1 = .error e) :
    orErrno (intResult r.1 ok) (w.after c r).srv.errno = -e.1 := by
  rw [h, World.after_errno_of_error w c r h]
  rfl

theorem errnoOf_eq_some {α : Type} {r : Except Errno α} {e : Int32}
    (h : Op.errno?.errnoOf r = some e) : ∃ x : Errno, r = .error x ∧ x.1 = e := by
  cases r with
  | ok x => cases h
  | error x => exact ⟨x, rfl, Option.some.inj h⟩

/-- A parameter that is an `int` arrives as one. -/
theorem Param.eq_int_of_passes {n : Int32} {a : ArgType} (h : (Param.int n).Passes a) :
    a = .int n := by
  obtain ⟨val, size, hpos, hlen⟩ := a
  obtain ⟨rfl, hval⟩ := h
  have hfour : val.length = (intBytes n).length := by
    rw [length_intBytes]
    exact ArgType.length_eq_four (a := ⟨val, sizeofInt, hpos, hlen⟩) rfl
  cases hval.eq_of_length hfour
  rfl

/-- What an `fsWrite` of the library asks for: as many bytes as it sends. -/
theorem op_of_meets_write {K : Kernel κ} {cl : Client} {fd : Int32} {buf : Bytes} {count : UInt32}
    {a : Attempt} {w w₁ : World κ} {op : Op}
    (h : a.Meets K .fsWrite [.int cl.id, .int fd, .int count.toInt32, ⟨count.toInt32, buf⟩] w op
      w₁) : ∃ data, op = .write cl.id fd count.toInt32 data ∧ sizeT count.toInt32 ≤ data.length := by
  obtain ⟨-, args, hpasses, hop⟩ := h
  cases hpasses with
  | cons hid hpasses =>
  cases hpasses with
  | cons hfd hpasses =>
  cases hpasses with
  | cons hcount hpasses =>
  cases hpasses with
  | @cons _ data _ _ hdata hpasses =>
  cases hpasses
  cases Param.eq_int_of_passes hid
  cases Param.eq_int_of_passes hfd
  cases Param.eq_int_of_passes hcount
  have hwrite : (⟨.fsWrite, [.int cl.id, .int fd, .int count.toInt32, data], a.garbage⟩ :
      Request).op = .ok (.write cl.id fd count.toInt32 data.argVal) := Request.op_write
  rw [hwrite] at hop
  cases hop
  refine ⟨_, rfl, ?_⟩
  have hsize : count.toInt32 = data.argSize := hdata.1
  have hpos := data.size_pos
  have hlen := data.size_eq
  rw [← hsize] at hpos hlen
  have hlt := Int32.toInt_lt count.toInt32
  rw [sizeT, Int.emod_eq_of_lt (by omega) (by omega)]
  omega

/-- A write that a call of the library asks for has its data. -/
theorem length_of_meets_write {K : Kernel κ} {cl : Client} {call : RetryCall} {params : List Param}
    (hparams : call.params cl = .ok params) {a : Attempt} {w w₁ : World κ} {c fd count : Int32}
    {data : Bytes} (h : a.Meets K call.proc params w (.write c fd count data) w₁) :
    sizeT count ≤ data.length := by
  cases call with
  | fsWrite fd buf count =>
    cases hparams
    obtain ⟨data', hop, hle⟩ := op_of_meets_write h
    cases hop
    exact hle
  | fsCloseDir | fsOpen | fsClose | fsRemove =>
    obtain hno | ⟨_, hasks⟩ := h.asks
    · cases hno
    · cases hasks

/-- **An admitted request whose system call fails is answered with minus the error number.** -/
theorem perform_of_errno {K : Kernel κ} {w : World κ} {call : RetryCall} {op : Op}
    {id? : Option Int32} {g e : Int32} (hop : call.proc.Asks id? op)
    (hadm : op.blocked w.srv.resourceList g = false) (hcall : op.errno? K w = some e)
    (hdata : ∀ c fd count data, op = .write c fd count data → sizeT count ≤ data.length) :
    ∃ (x : Errno) (w' : World κ), x.1 = e ∧ perform K g op w = .ok (.int (-x.1), w') := by
  cases call with
  | fsOpen fname mode =>
    cases hop
    obtain ⟨x, hx, he⟩ := errnoOf_eq_some hcall
    simp only [Op.blocked, findResource_eq_pathEntry] at hadm
    exact ⟨x, _, he, by rw [perform, openPath_of_admitted K w hadm, hx]; rfl⟩
  | fsClose fd =>
    cases hop
    obtain ⟨x, hx, he⟩ := errnoOf_eq_some hcall
    simp only [Op.blocked, findResource_eq_fdEntry] at hadm
    exact ⟨x, _, he, by rw [perform, closeFd_of_admitted K w hadm, hx]; rfl⟩
  | fsRemove name =>
    cases hop
    obtain ⟨x, hx, he⟩ := errnoOf_eq_some hcall
    simp only [Op.blocked, findResource_eq_pathEntry] at hadm
    exact ⟨x, _, he, by rw [perform, removePath_of_admitted K w hadm, hx]; rfl⟩
  | fsCloseDir folder =>
    cases hop
    obtain ⟨d, hd, hcall⟩ := Option.bind_eq_some_iff.mp hcall
    obtain ⟨x, hx, he⟩ := errnoOf_eq_some hcall
    simp only [Op.blocked, findResource_eq_fdEntry] at hadm
    exact ⟨x, _, he, by rw [perform, closeDirNum_of_admitted K w hadm hd, hx]; rfl⟩
  | fsWrite fd buf count =>
    cases hop with
    | write c n m a =>
      obtain ⟨x, hx, he⟩ := errnoOf_eq_some hcall
      have hroom := Nat.not_lt.mpr (hdata c n m a.argVal rfl)
      refine ⟨x, w.after (.write n (a.argVal.take (sizeT m)))
        (K.write w.kern n (a.argVal.take (sizeT m))), he, ?_⟩
      have hret := orErrno_after_error w (.write n (a.argVal.take (sizeT m)))
        (fun k ↦ Int32.ofNat k.1) hx
      rw [perform, if_neg (by simpa [Op.blocked] using hadm), writeFd, if_neg hroom]
      simp only [hret]

/-- **An admitted request that is answered with success has made its system call successfully.** -/
theorem succeeds_of_perform {K : Kernel κ} {w w' : World κ} {call : RetryCall} {op : Op}
    {id? : Option Int32} {g r : Int32} {ret : ReturnType} (hop : call.proc.Asks id? op)
    (hadm : op.blocked w.srv.resourceList g = false) (h : perform K g op w = .ok (ret, w'))
    (hret : ret.int? = .ok r) (hr : 0 ≤ r) : op.Succeeds K w := by
  have key : ∀ {α : Type} (x : Except Errno α) (ok : α → Int32),
      ReturnType.int? (.int (outcome x ok)) = .ok r → x.isOk = true := by
    rintro α (e | y) ok hint
    · cases (ReturnType.int?_int _).symm.trans hint
      exact absurd hr e.neg_lt
    · rfl
  have hperformed := performed_of_perform hadm h
  cases call with
  | fsOpen fname mode =>
    cases hop
    cases hperformed
    exact key _ _ hret
  | fsClose fd =>
    cases hop
    cases hperformed
    exact key _ _ hret
  | fsRemove name =>
    cases hop
    cases hperformed
    exact key _ _ hret
  | fsCloseDir folder =>
    cases hop
    cases hperformed with
    | closeDir hd => exact ⟨_, hd, key _ _ hret⟩
  | fsWrite fd buf count =>
    cases hop with
    | write c n m a =>
      cases hperformed with
      | write h =>
        rw [writeFd] at h
        split at h
        · cases h
        · cases h
          show (K.write w.kern n (a.argVal.take (sizeT m))).1.isOk = true
          cases hx : (K.write w.kern n (a.argVal.take (sizeT m))).1 with
          | ok y => rfl
          | error e =>
            rw [orErrno_after_error w (.write n (a.argVal.take (sizeT m))) _ hx] at hret
            cases (ReturnType.int?_int _).symm.trans hret
            exact absurd hr e.neg_lt

/-! ## The calls -/

/-- **Errors reach the caller**, except through `fsWrite`.  When the system call of an admitted
request fails with an error number `e` other than `EAGAIN`, the call of the library returns, and it
returns `-1` with `e` in `errno` if and only if it is not an `fsWrite`, or `e` is `1`.  And a call
returns a number that is not negative only if the system call made for it succeeded. -/
theorem errors_reach_caller (K : Kernel κ) {cl : Client} {call : RetryCall} {params : List Param}
    (hparams : call.params cl = .ok params) :
    (∀ (as : List Attempt) (w : World κ) (op : Op) (w₁ : World κ) (e : Int32),
      Decided K call.proc params as w op w₁ → op.errno? K w₁ = some e → e ≠ EAGAIN →
        ∃ out, call.run K cl as w = .ok out ∧
          (out.value = -1 ∧ out.client.errno = e ↔ call.proc ≠ .fsWrite ∨ e = 1)) ∧
    ∀ (as : List Attempt) (w : World κ) (out : Outcome κ), call.run K cl as w = .ok out →
      0 ≤ out.value → ∃ op w₁, Decided K call.proc params as w op w₁ ∧ op.Succeeds K w₁ := by
  have hn := RetryCall.length_params hparams
  constructor
  · rintro as w op w₁ e ⟨again, a, rest, w', rfl, hagain, hmeets, hadm⟩ hcall he
    obtain rfl | ⟨id?, hasks⟩ := hmeets.asks
    · cases hcall
    have hdata : ∀ c fd count data, op = .write c fd count data → sizeT count ≤ data.length := by
      rintro c fd count data rfl
      exact length_of_meets_write hparams hmeets
    obtain ⟨x, w₂, rfl, hperform⟩ := perform_of_errno hasks hadm hcall hdata
    rw [← remote_of_meets hn hmeets] at hperform
    have hne : -x.1 ≠ -EAGAIN := fun h ↦ he (Int32.neg_inj.mp h)
    have hretry := (retry_of_allAgain hagain (a :: rest)).trans
      (retry_done hperform (ReturnType.int?_int _) hne)
    refine ⟨_, by rw [RetryCall.run_eq K hparams, hretry]; rfl, ?_⟩
    exact RetryCall.finish_error_iff cl call x _ w₂
  · intro as w out hrun hvalue
    obtain ⟨r, ret, w₂, hretry, rfl⟩ := RetryCall.run_eq_ok hparams hrun
    have hr := RetryCall.nonneg_of_finish hvalue
    obtain ⟨again, a, rest, w', rfl, hagain, hremote, hret, hne⟩ := retry_eq_ok hretry
    obtain ⟨op, w₁, id?, hmeets, hasks, hadm, hperform⟩ := decided_of_remote hn hremote hret hne
    exact ⟨op, w₁, ⟨again, a, rest, w', rfl, hagain, hmeets, hadm⟩,
      succeeds_of_perform hasks hadm hperform hret hr⟩

/-- The world the examples take place in: no file, and nobody has opened one. -/
def freshWorld : World FileSystem where
  srv := { mountedDir := .lit "/srv" }
  kern := {}

/-- A file that does not exist is opened to read. -/
theorem errors_reach_caller_of_missing_file :
    ∃ out, (RetryCall.fsOpen (.lit "mnt/a") 0).run (FileSystem.kernel .lowest) mountedClient [.quiet]
        freshWorld = .ok out ∧ out.value = -1 ∧ out.client.errno = 2 := by
  have hparams : (RetryCall.fsOpen (.lit "mnt/a") 0).params mountedClient
      = .ok [.int 1, .int 0, .str (.lit "/srv/a")] := by
    rw [RetryCall.params, translate_mountedClient]
    rfl
  have hpasses : List.Forall₂ Param.Passes [.int 1, .int 0, .str (.lit "/srv/a")]
      [.int 1, .int 0, .str (.lit "/srv/a") (by decide)] :=
    .cons (Param.passes_int _) (.cons (Param.passes_int _) (.cons (Param.passes_str _ _) .nil))
  have hmeets : Attempt.quiet.Meets (FileSystem.kernel .lowest) .fsOpen
      [.int 1, .int 0, .str (.lit "/srv/a")] freshWorld (.open_ 1 0 (.lit "/srv/a")) freshWorld :=
    ⟨rfl, _, hpasses, Request.op_open⟩
  obtain ⟨out, hrun, hout⟩ := (errors_reach_caller (FileSystem.kernel .lowest) hparams).1
    [.quiet] freshWorld _ _ 2 ⟨[], .quiet, [], freshWorld, rfl, rfl, hmeets, by decide⟩
    (by decide) (by decide)
  exact ⟨out, hrun, hout.mpr (.inl (by decide))⟩

/-- Writing to a descriptor that is not open: the call returns `-9` and leaves `errno` alone. -/
theorem write_error_lost :
    ∃ op w₁ out, Decided (FileSystem.kernel .lowest) .fsWrite
        [.int 1, .int 9, .int 1, ⟨1, [7]⟩] [.quiet] freshWorld op w₁ ∧
      op.errno? (FileSystem.kernel .lowest) w₁ = some 9 ∧
      (RetryCall.fsWrite 9 [7] 1).run (FileSystem.kernel .lowest) mountedClient [.quiet] freshWorld
        = .ok out ∧
      out.value ≠ -1 ∧ out.client.errno ≠ 9 := by
  have hdata : Param.Passes ⟨1, [7]⟩ ⟨[7], 1, by decide, by decide⟩ := ⟨rfl, List.prefix_rfl⟩
  have hpasses : List.Forall₂ Param.Passes [.int 1, .int 9, .int 1, ⟨1, [7]⟩]
      [.int 1, .int 9, .int 1, ⟨[7], 1, by decide, by decide⟩] :=
    .cons (Param.passes_int _) (.cons (Param.passes_int _) (.cons (Param.passes_int _)
      (.cons hdata .nil)))
  have hmeets : Attempt.quiet.Meets (FileSystem.kernel .lowest) .fsWrite
      [.int 1, .int 9, .int 1, ⟨1, [7]⟩] freshWorld (.write 1 9 1 [7]) freshWorld :=
    ⟨rfl, _, hpasses, Request.op_write⟩
  have hremote : remote (FileSystem.kernel .lowest) .fsWrite
      [.int 1, .int 9, .int 1, ⟨1, [7]⟩] .quiet freshWorld = .ok (.int (-9), _) :=
    (remote_of_meets rfl hmeets).trans rfl
  have hretry : retry (remote (FileSystem.kernel .lowest) .fsWrite
      [.int 1, .int 9, .int 1, ⟨1, [7]⟩]) [.quiet] freshWorld = .ok (-9, .int (-9), _) :=
    retry_done hremote (ReturnType.int?_int _) (by decide)
  have hparams : (RetryCall.fsWrite 9 [7] 1).params mountedClient
      = .ok [.int 1, .int 9, .int 1, ⟨1, [7]⟩] := rfl
  exact ⟨_, _, _, ⟨[], .quiet, [], freshWorld, rfl, rfl, hmeets, by decide⟩, by decide,
    (RetryCall.run_eq _ hparams _ _).trans (congrArg _ hretry),
    by decide, by decide⟩

end RemoteFs
