import RemoteFs.Lock.Ownership

/-!
# When the system call fails

A handler whose system call fails reports the error.  What it has done to the lists by then differs
from handler to handler: `fsOpenDir` returns before it touches them, `fsOpen` has pushed an entry
already, and `fsRemove` drops the entry whatever `remove` returned.

`error_atomicity` says exactly when a failing request leaves the lists as they were, for every state
of the server.
-/

set_option autoImplicit false

namespace RemoteFs

variable {κ : Type}

/-- The system call of an operation on a path fails. -/
def Op.fails (K : Kernel κ) (w : World κ) : Op → Bool
  | .open_ _ mode p => !(K.open_ w.kern p (openFlags mode)).1.isOk
  | .openDir _ p => !(K.opendir w.kern p).1.isOk
  | .remove _ p => !(K.remove w.kern p).1.isOk
  | _ => false

/-- When the handler of an operation on a path leaves a table alone on failure. -/
def Op.KeepsOnFailure (l : List Resource) : Op → Prop
  | .open_ _ _ p => (pathEntry l p).isSome
  | .remove _ p => pathEntry l p = none
  | _ => True

/-- `resource_list` and `open_dir_queue` are what they were. -/
def SameLists (w w' : World κ) : Prop :=
  w'.srv.resourceList = w.srv.resourceList ∧ w'.srv.openDirQueue = w.srv.openDirQueue

/-- A failing `open` changes the table when the path had no entry. -/
theorem open_next_eq_iff {kind : Kind} {lock c : Int32} {p : CString} {l : List Resource} :
    (Action.open_ kind lock c p none).next l = l ↔ (pathEntry l p).isSome := by
  rw [Action.next]
  by_cases hp : (pathEntry l p).isSome
  · simp [hp]
  · simp [hp, List.cons_ne_self]

/-- An admitted `remove` changes the table when the path had an entry. -/
theorem remove_next_eq_iff {c : Int32} {p : CString} {ok : Bool} {l : List Resource}
    (hadm : ∀ r, pathEntry l p = some r → r.id = c) :
    (Action.remove c p ok).next l = l ↔ pathEntry l p = none := by
  rw [Action.next, List.eraseP_eq_self_iff]
  constructor
  · intro hnone
    by_contra hp
    obtain ⟨r, hr⟩ := Option.ne_none_iff_exists'.mp hp
    have hpath := (pathEntry_some hr).2
    exact hnone r (pathEntry_some hr).1 (by simp [hpath, hadm r hr])
  · intro hp r hr hmatch
    exact pathEntry_eq_none_iff.mp hp r hr (by simpa using (of_decide_eq_true hmatch).1)

/-- **Error atomicity.**  A request on a path that passes the lock check and whose system call fails
is answered, and leaves the two lists as they were exactly in these cases: an `fsOpenDir`, an
`fsOpen` of a path that has an entry, an `fsRemove` of a path that has none. -/
theorem error_atomicity (K : Kernel κ) {w : World κ} {req : Request} {op : Op}
    (hop : req.op = .ok op) (hadm : op.blocked w.srv.resourceList req.garbage = false)
    (hfail : op.fails K w = true) :
    ∃ r w', serve K req w = .ok (r, w') ∧
      (SameLists w w' ↔ op.KeepsOnFailure w.srv.resourceList) := by
  have hserve := serve_of_op (K := K) (w := w) hop
  cases op with
  | open_ c mode p =>
    simp only [Op.blocked, findResource_eq_pathEntry] at hadm
    rw [perform, openPath_of_admitted K w hadm] at hserve
    refine ⟨_, _, hserve, ?_⟩
    cases hr : (K.open_ w.kern p (openFlags mode)).1 with
    | ok fd => simp [Op.fails, hr, Except.isOk, Except.toBool] at hfail
    | error x =>
      have hact : (Op.open_ c mode p).action K w = .open_ .file mode c p none := by
        simp [Op.action, hr, Except.toOption]
      simpa [SameLists, hact, Op.KeepsOnFailure] using open_next_eq_iff
  | openDir c p =>
    simp only [Op.blocked, findResource_eq_pathEntry] at hadm
    cases hr : (K.opendir w.kern p).1 with
    | ok d => simp [Op.fails, hr, Except.isOk, Except.toBool] at hfail
    | error x =>
      rw [perform, openDirPath_of_error K w hadm hr] at hserve
      refine ⟨_, _, hserve, ?_⟩
      simp [SameLists, Op.KeepsOnFailure]
  | remove c p =>
    simp only [Op.blocked, findResource_eq_pathEntry] at hadm
    rw [perform, removePath_of_admitted K w hadm] at hserve
    refine ⟨_, _, hserve, ?_⟩
    have hiff : (Action.remove c p (K.remove w.kern p).1.isOk).next w.srv.resourceList
        = w.srv.resourceList ↔ _ := remove_next_eq_iff (refuses_eq_false_iff.mp hadm)
    simpa [SameLists, Op.action, Op.KeepsOnFailure] using hiff
  | _ => simp [Op.fails] at hfail

/-- A client that has a file open fails to open it once more, and its table is as it was. -/
theorem error_atomicity_of_reopen :
    ∃ es w, ServerRun (FileSystem.kernel .lowest) Run.free (.lit "/srv") {} es w ∧
      ∃ r w', serve (FileSystem.kernel .lowest) (.open_ 1 (.lit "/srv/a") (by decide) 0) w
        = .ok (r, w') ∧ SameLists w w' := by
  obtain ⟨es, w, hrun, hw⟩ := exists_run (FileSystem.kernel .lowest)
    Run.free (.lit "/srv") {}
    [.open_ 1 (.lit "/srv/a") (by decide) 0]
    (fun _ w ↦ (pathEntry w.srv.resourceList (.lit "/srv/a")).isSome &&
      ((Op.open_ 1 0 (.lit "/srv/a")).fails (FileSystem.kernel .lowest) w &&
      !(Op.open_ 1 0 (.lit "/srv/a")).blocked w.srv.resourceList 0)) (by decide)
  obtain ⟨hentry, hfail, hadm⟩ : _ ∧ _ ∧ _ = false := by simpa using hw
  have hop : (Request.open_ 1 (.lit "/srv/a") (by decide) 0).op
      = .ok (.open_ 1 0 (.lit "/srv/a")) := Request.op_open
  obtain ⟨r, w', hserve, hiff⟩ := error_atomicity (FileSystem.kernel .lowest) hop hadm hfail
  exact ⟨es, w, hrun, r, w', hserve, hiff.mpr hentry⟩

/-- The first request the server sees is an `fsOpen` of a file that is not there.  It fails, and
the path is locked. -/
theorem failed_open_locks :
    ∃ es w r w', ServerRun (FileSystem.kernel .lowest) Run.free (.lit "/srv") {} es w ∧
      (Op.open_ 1 0 (.lit "/srv/a")).fails (FileSystem.kernel .lowest) w = true ∧
      serve (FileSystem.kernel .lowest) (.open_ 1 (.lit "/srv/a") (by decide) 0) w = .ok (r, w') ∧
      ¬ SameLists w w' := by
  refine ⟨[], World.start (.lit "/srv") {}, _, _, .start, by decide, rfl, ?_⟩
  rintro ⟨hlist, -⟩
  exact absurd hlist (by decide)

end RemoteFs
