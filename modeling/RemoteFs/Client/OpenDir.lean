import RemoteFs.Client.Directories
import RemoteFs.Client.Errors
import RemoteFs.Server.History

/-!
# Opening a directory

The server answers `fsOpenDir` with a number, with `-EAGAIN`, or with nothing when `opendir` failed.
To know when to try again, the client looks at the answer only if `ret.is_error` is `1`; nobody ever
sets that field, and the variable the loop tests keeps what it held when the function was entered.

* `refusal_taken_for_handle`: a refusal is returned as a handle, and with the wrong value in the
  variable the client asks again for ever, a success notwithstanding.
* `openDir_agrees_iff`: the call ends as it should if and only if it is not refused at all and the
  variable does not hold `-EAGAIN`; and it goes on as it should, after refusals only, if and only if
  the variable does.
-/

set_option autoImplicit false

namespace RemoteFs

variable {κ : Type}

/-- What `fsOpenDir` should return when the request that is admitted meets the server in `w₁`: it
ends with that request, and returns a handle for the stream that `opendir` gave, or `NULL`. -/
def OpenDirMeant (K : Kernel κ) (cl : Client) (path : CString) (w₁ : World κ)
    (out : Pointed κ Int32) : Prop :=
  out.world = (openDirPath K cl.id path w₁).2 ∧
    match (K.opendir w₁.kern path).1 with
    | .ok d => ∃ n, out.value = some n ∧
        out.world.srv.openDirQueue = ⟨n, d⟩ :: w₁.srv.openDirQueue
    | .error _ => out.value = none

/-! ## The calls made -/

section
variable {K : Kernel κ} {w w' : World κ}

/-- Calls that were made stay in the list. -/
theorem calls_suffix_of_perform {g : Int32} {op : Op} {ret : ReturnType}
    (h : perform K g op w = .ok (ret, w')) : w.calls <:+ w'.calls := by
  obtain ⟨call, hcalls, -⟩ := calls_of_perform h
  rw [hcalls]
  exact List.suffix_append _ _

theorem calls_suffix_of_serveAll {reqs : List Request} (h : serveAll K reqs w = .ok w') :
    w.calls <:+ w'.calls := by
  induction reqs generalizing w with
  | nil =>
    cases h
    exact List.suffix_refl _
  | cons req reqs ih =>
    obtain ⟨⟨ret, w₁⟩, hserve, h⟩ := bind_eq_ok.mp h
    obtain ⟨op, -, hperform⟩ := op_of_serve hserve
    exact (calls_suffix_of_perform hperform).trans (ih h)

theorem calls_suffix_of_allRefused {proc : Proc} {params : List Param}
    (hn : (params.length : ℤ) = proc.nparams.toInt) {as : List Attempt}
    (h : AllRefused K proc params as w w') : w.calls <:+ w'.calls :=
  calls_suffix_of_serveAll (serveAll_of_allRefused hn h)

end

/-! ## The loop -/

section
variable {K : Kernel κ} {w w' : World κ} {params : List Param} {a : Attempt} {as : List Attempt}
  {ret : ReturnType}

/-- **Nobody sets `is_error`.** -/
theorem isError_of_remote (hn : (params.length : ℤ) = Proc.fsOpenDir.nparams.toInt)
    (h : remote K .fsOpenDir params a w = .ok (ret, w')) : ret.isError = 0 := by
  obtain ⟨op, w₁, hmeets, hperform⟩ := meets_of_remote hn h
  obtain rfl | ⟨_, hasks⟩ := hmeets.asks
  · cases hperform
    rfl
  · cases hasks with
    | openDir c p =>
      by_cases hb : (Op.openDir c p).blocked w₁.srv.resourceList a.garbage = true
      · rw [perform_of_blocked K hb] at hperform
        cases hperform
        rfl
      · cases performed_of_perform (by simpa using hb) hperform with
        | noDir | openDir => rfl

/-- One attempt: the variable decides. -/
theorem openDirLoop_cons (hn : (params.length : ℤ) = Proc.fsOpenDir.nparams.toInt)
    (h : remote K .fsOpenDir params a w = .ok (ret, w')) (val : Int32) (as : List Attempt) :
    Client.openDirLoop (remote K .fsOpenDir params) val (a :: as) w
      = if val = -EAGAIN then Client.openDirLoop (remote K .fsOpenDir params) val as w'
        else .ok (ret, w') := by
  have hzero : ret.isError ≠ 1 := by
    rw [isError_of_remote hn h]
    decide
  simp only [Client.openDirLoop, h, bind, Except.bind, if_neg hzero]
  rfl

/-- With `-EAGAIN` in the variable the loop does not end. -/
theorem openDirLoop_ne_ok (hn : (params.length : ℤ) = Proc.fsOpenDir.nparams.toInt)
    (as : List Attempt) (w : World κ) (x : ReturnType × World κ) :
    Client.openDirLoop (remote K .fsOpenDir params) (-EAGAIN) as w ≠ .ok x := by
  induction as generalizing w with
  | nil => exact nofun
  | cons a as ih =>
    intro h
    obtain ⟨⟨ret, w'⟩, hremote, -⟩ := bind_eq_ok.mp h
    rw [openDirLoop_cons hn hremote, if_pos rfl] at h
    exact ih w' h

/-- With anything else, there is no second attempt. -/
theorem openDirLoop_of_ne (hn : (params.length : ℤ) = Proc.fsOpenDir.nparams.toInt)
    (h : remote K .fsOpenDir params a w = .ok (ret, w')) {val : Int32} (hval : val ≠ -EAGAIN)
    (as : List Attempt) :
    Client.openDirLoop (remote K .fsOpenDir params) val (a :: as) w = .ok (ret, w') := by
  rw [openDirLoop_cons hn h, if_neg hval]

/-- Refusals only: with `-EAGAIN` the loop goes on. -/
theorem openDirLoop_of_allRefused (hn : (params.length : ℤ) = Proc.fsOpenDir.nparams.toInt)
    (h : AllRefused K .fsOpenDir params as w w') :
    Client.openDirLoop (remote K .fsOpenDir params) (-EAGAIN) as w = .error .hang := by
  induction as generalizing w with
  | nil => rfl
  | cons a as ih =>
    obtain ⟨op, w₁, ret, w₂, -, -, hremote, h⟩ := h
    rw [openDirLoop_cons hn hremote, if_pos rfl]
    exact ih h

end

section
variable {K : Kernel κ} {cl : Client} {name path : CString} {val : Int32} {as : List Attempt}
  {w w' : World κ}

/-- The parameters of `fsOpenDir`. -/
abbrev openDirParams (cl : Client) (path : CString) : List Param := [.int cl.id, .str path]

theorem fsOpenDir_of_int (hpath : cl.translateDir name = .ok path) {n : Int32}
    (h : Client.openDirLoop (remote K .fsOpenDir (openDirParams cl path)) val as w
      = .ok (.int n, w')) :
    cl.fsOpenDir K name val as w = .ok ⟨some n, cl, w'⟩ := by
  simp only [Client.fsOpenDir, hpath, h, bind, Except.bind, ReturnType.int, intAt_intBytes]
  rfl

theorem fsOpenDir_of_null (hpath : cl.translateDir name = .ok path)
    (h : Client.openDirLoop (remote K .fsOpenDir (openDirParams cl path)) val as w
      = .ok (.null, w')) :
    cl.fsOpenDir K name val as w = .ok ⟨none, { cl with errno := -1 }, w'⟩ := by
  simp only [Client.fsOpenDir, hpath, h, bind, Except.bind, ReturnType.null]
  rfl

theorem fsOpenDir_of_error (hpath : cl.translateDir name = .ok path) {f : Fault}
    (h : Client.openDirLoop (remote K .fsOpenDir (openDirParams cl path)) val as w = .error f) :
    cl.fsOpenDir K name val as w = .error f := by
  simp only [Client.fsOpenDir, hpath, h, bind, Except.bind]

/-- A call that comes back has left its loop. -/
theorem openDirLoop_of_fsOpenDir (hpath : cl.translateDir name = .ok path) {out : Pointed κ Int32}
    (h : cl.fsOpenDir K name val as w = .ok out) :
    ∃ x, Client.openDirLoop (remote K .fsOpenDir (openDirParams cl path)) val as w = .ok x := by
  cases hloop : Client.openDirLoop (remote K .fsOpenDir (openDirParams cl path)) val as w with
  | error f =>
    rw [fsOpenDir_of_error hpath hloop] at h
    cases h
  | ok x => exact ⟨x, rfl⟩

/-- **A request that is admitted at once** is answered as it should be. -/
theorem fsOpenDir_of_admitted (hpath : cl.translateDir name = .ok path) {a : Attempt}
    {w₁ : World κ} (hmeets : a.Meets K .fsOpenDir (openDirParams cl path) w (.openDir cl.id path) w₁)
    (hadm : (Op.openDir cl.id path).blocked w₁.srv.resourceList a.garbage = false)
    (hval : val ≠ -EAGAIN) (rest : List Attempt) :
    ∃ out, cl.fsOpenDir K name val (a :: rest) w = .ok out ∧ OpenDirMeant K cl path w₁ out := by
  have hremote : remote K .fsOpenDir (openDirParams cl path) a w
      = .ok (openDirPath K cl.id path w₁) := remote_of_meets rfl hmeets
  have hadm' : refuses (pathEntry w₁.srv.resourceList path) cl.id = false := by
    rw [← findResource_eq_pathEntry _ cl.id]
    exact hadm
  cases hd : (K.opendir w₁.kern path).1 with
  | error e =>
    have hopen := openDirPath_of_error K w₁ hadm' hd
    have hloop := openDirLoop_of_ne rfl (hremote.trans (congrArg Except.ok hopen)) hval rest
    refine ⟨_, fsOpenDir_of_null hpath hloop, ?_⟩
    rw [OpenDirMeant, hd, hopen]
    exact ⟨rfl, rfl⟩
  | ok d =>
    obtain ⟨w₂, hopen, hopened⟩ := openDirPath_of_ok K w₁ hadm' hd
    have hloop := openDirLoop_of_ne rfl (hremote.trans (congrArg Except.ok hopen)) hval rest
    refine ⟨_, fsOpenDir_of_int hpath hloop, ?_⟩
    rw [OpenDirMeant, hd, hopen]
    exact ⟨rfl, _, rfl, hopened.queue⟩

end

/-- An `opendir` that is made is in the list of calls. -/
theorem calls_openDirPath {K : Kernel κ} {c : Int32} {path : CString} {w : World κ}
    (hadm : refuses (pathEntry w.srv.resourceList path) c = false) :
    (openDirPath K c path w).2.calls = .opendir path :: w.calls := by
  cases hd : (K.opendir w.kern path).1 with
  | error e =>
    rw [openDirPath_of_error K w hadm hd]
    rfl
  | ok d =>
    obtain ⟨w₂, hopen, hopened⟩ := openDirPath_of_ok K w hadm hd
    rw [hopen]
    exact hopened.calls

/-! ## Refusals -/

section
variable {K : Kernel κ} {cl : Client} {name path : CString} {val : Int32} {w w' w₁ : World κ}

/-- **After a refusal** the call returns what was to mean "try again", and makes no more attempts. -/
theorem fsOpenDir_of_refused (hpath : cl.translateDir name = .ok path) {b : Attempt}
    {bs : List Attempt}
    (hrefused : AllRefused K .fsOpenDir (openDirParams cl path) (b :: bs) w w')
    (hval : val ≠ -EAGAIN) (rest : List Attempt) :
    ∃ w₂, cl.fsOpenDir K name val ((b :: bs) ++ rest) w = .ok ⟨some (-EAGAIN), cl, w₂⟩ ∧
      w₂.calls <:+ w'.calls := by
  obtain ⟨op, wb, ret, w₂, hmeets, hb, hremote, hrefused⟩ := hrefused
  have hblocked := remote_of_blocked rfl hmeets hb
  cases hblocked.symm.trans hremote
  have hloop := openDirLoop_of_ne rfl hblocked hval (bs ++ rest)
  exact ⟨wb, fsOpenDir_of_int hpath hloop, calls_suffix_of_allRefused rfl hrefused⟩

/-- So it does not get to an attempt that is admitted later. -/
theorem eq_nil_of_meant (hpath : cl.translateDir name = .ok path) {refused : List Attempt}
    {a : Attempt} {rest : List Attempt} {out : Pointed κ Int32}
    (hrefused : AllRefused K .fsOpenDir (openDirParams cl path) refused w w')
    (hmeets : a.Meets K .fsOpenDir (openDirParams cl path) w' (.openDir cl.id path) w₁)
    (hadm : (Op.openDir cl.id path).blocked w₁.srv.resourceList a.garbage = false)
    (hval : val ≠ -EAGAIN) (h : cl.fsOpenDir K name val (refused ++ a :: rest) w = .ok out)
    (hmeant : OpenDirMeant K cl path w₁ out) : refused = [] := by
  cases refused with
  | nil => rfl
  | cons b bs =>
    obtain ⟨w₂, hearly, hcalls⟩ := fsOpenDir_of_refused hpath hrefused hval (a :: rest)
    cases hearly.symm.trans h
    -- the `opendir` that was to be made is not among the calls yet
    have hadm' : refuses (pathEntry w₁.srv.resourceList path) cl.id = false := by
      rw [← findResource_eq_pathEntry _ cl.id]
      exact hadm
    have hlater := calls_openDirPath (K := K) hadm'
    rw [← hmeant.1] at hlater
    have hle := (hcalls.trans (calls_suffix_of_serveAll hmeets.1)).length_le
    rw [hlater, List.length_cons] at hle
    omega

/-- **Refusals only**: the call goes on as it should if the variable says so. -/
theorem fsOpenDir_hang_iff (hpath : cl.translateDir name = .ok path) {refused : List Attempt}
    (hrefused : AllRefused K .fsOpenDir (openDirParams cl path) refused w w') :
    cl.fsOpenDir K name val refused w = .error .hang ↔ refused = [] ∨ val = -EAGAIN := by
  constructor
  · intro h
    by_contra hnot
    obtain ⟨hne, hval⟩ := not_or.mp hnot
    cases refused with
    | nil => exact hne rfl
    | cons b bs =>
      obtain ⟨w₂, hearly, -⟩ := fsOpenDir_of_refused hpath hrefused hval []
      rw [List.append_nil, h] at hearly
      cases hearly
  · rintro (rfl | rfl)
    · exact fsOpenDir_of_error hpath rfl
    · exact fsOpenDir_of_error hpath (openDirLoop_of_allRefused rfl hrefused)

end

/-! ## The theorem -/

/-- **When client and server agree about `fsOpenDir`.**  A call makes some attempts that are
refused by the lock check, and then one that is admitted; whatever the others ask for in between,
and whatever `opendir` returns then, the call ends with that attempt, with a handle for the stream
or with `NULL`, if and only if there was no refusal and the variable `val` did not happen to hold
`-EAGAIN` at the start.  And when there have been refusals only, the call still goes on if and only
if there has been none, or the variable held `-EAGAIN`. -/
theorem openDir_agrees_iff (K : Kernel κ) {cl : Client} {name path : CString}
    (hpath : cl.translateDir name = .ok path) (val : Int32) :
    (∀ (refused : List Attempt) (w w' : World κ) (a : Attempt) (w₁ : World κ)
        (rest : List Attempt), AllRefused K .fsOpenDir (openDirParams cl path) refused w w' →
      a.Meets K .fsOpenDir (openDirParams cl path) w' (.openDir cl.id path) w₁ →
      (Op.openDir cl.id path).blocked w₁.srv.resourceList a.garbage = false →
      ((∃ out, cl.fsOpenDir K name val (refused ++ a :: rest) w = .ok out ∧
        OpenDirMeant K cl path w₁ out) ↔ refused = [] ∧ val ≠ -EAGAIN)) ∧
    ∀ (refused : List Attempt) (w w' : World κ),
      AllRefused K .fsOpenDir (openDirParams cl path) refused w w' →
      (cl.fsOpenDir K name val refused w = .error .hang ↔ refused = [] ∨ val = -EAGAIN) := by
  refine ⟨?_, fun refused w w' hrefused ↦ fsOpenDir_hang_iff hpath hrefused⟩
  intro refused w w' a w₁ rest hrefused hmeets hadm
  constructor
  · rintro ⟨out, hout, hmeant⟩
    have hval : val ≠ -EAGAIN := by
      rintro rfl
      obtain ⟨x, hx⟩ := openDirLoop_of_fsOpenDir hpath hout
      exact openDirLoop_ne_ok rfl _ _ x hx
    exact ⟨eq_nil_of_meant hpath hrefused hmeets hadm hval hout hmeant, hval⟩
  · rintro ⟨rfl, hval⟩
    cases hrefused
    exact fsOpenDir_of_admitted hpath hmeets hadm hval rest

/-! ## Runs -/

/-- A server with a directory that nobody has open. -/
def dirWorld : World FileSystem := .start (.lit "/srv") { names := [(.lit "/srv/d", .dir [])] }

theorem translateDir_mountedClient :
    mountedClient.translateDir (.lit "mnt/d") = .ok (.lit "/srv/d") := by
  decide

/-- What the client sends for it arrives. -/
theorem meets_openDir {K : Kernel κ} (w : World κ) :
    Attempt.quiet.Meets K .fsOpenDir (openDirParams mountedClient (.lit "/srv/d")) w
      (.openDir 1 (.lit "/srv/d")) w :=
  ⟨rfl, [.int 1, .str (.lit "/srv/d") (by decide)],
    .cons (Param.passes_int _) (.cons (Param.passes_str _ _) .nil), Request.op_openDir⟩

/-- It is opened at once. -/
theorem openDir_agrees_of_free :
    ∃ out, mountedClient.fsOpenDir (FileSystem.kernel .lowest) (.lit "mnt/d") 0 [.quiet] dirWorld
        = .ok out ∧
      OpenDirMeant (FileSystem.kernel .lowest) mountedClient (.lit "/srv/d") dirWorld out := by
  have hagree := (openDir_agrees_iff (FileSystem.kernel .lowest) translateDir_mountedClient 0).1
  exact (hagree [] _ _ .quiet _ [] rfl (meets_openDir _) rfl).mpr ⟨rfl, by decide⟩

/-- Client 2 has a directory open.  Client 1 is refused, and gets `-EAGAIN` as its handle.  Nobody
has it open, and `-EAGAIN` is in the variable: `opendir` succeeds, and the call goes on. -/
theorem refusal_taken_for_handle :
    (∃ es w, ServerRun (FileSystem.kernel .lowest) Run.free (.lit "/srv")
        { names := [(.lit "/srv/d", .dir [])] } es w ∧
      (Op.openDir 1 (.lit "/srv/d")).blocked w.srv.resourceList 0 = true ∧
      mountedClient.fsOpenDir (FileSystem.kernel .lowest) (.lit "mnt/d") 0 [.quiet] w
        = .ok ⟨some (-EAGAIN), mountedClient, w⟩) ∧
    mountedClient.fsOpenDir (FileSystem.kernel .lowest) (.lit "mnt/d") (-EAGAIN) [.quiet] dirWorld
      = .error .hang := by
  constructor
  · obtain ⟨es, w, hrun, hb⟩ := exists_run (FileSystem.kernel .lowest) Run.free (.lit "/srv")
      { names := [(.lit "/srv/d", .dir [])] } [.openDir 2 (.lit "/srv/d") (by decide)]
      (fun _ w ↦ (Op.openDir 1 (.lit "/srv/d")).blocked w.srv.resourceList 0) (by decide)
    have hremote : remote (FileSystem.kernel .lowest) .fsOpenDir _ .quiet w = _ :=
      remote_of_blocked rfl (meets_openDir w) hb
    exact ⟨es, w, hrun, hb,
      fsOpenDir_of_int translateDir_mountedClient (openDirLoop_of_ne rfl hremote (by decide) [])⟩
  · have hremote : remote (FileSystem.kernel .lowest) .fsOpenDir _ .quiet dirWorld = _ :=
      remote_of_meets rfl (meets_openDir dirWorld)
    exact fsOpenDir_of_error translateDir_mountedClient (openDirLoop_cons rfl hremote _ [])

end RemoteFs
