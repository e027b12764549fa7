import RemoteFs.Lib.FirstMatch
import RemoteFs.Server.Operations

/-!
# What a request does to the lock table

The handlers mix the lock check, the system call, the table update and the conversion of the error
code.  Seen from the table they do very little, and this file says what: `action K w req` is the
`Action` a request amounts to in the world `w` (a function of the request, the table and the answer
of the kernel), `Action.next` is its effect, `Action.Admitted` what the lock check has established,
and `Event.label` is what an observer of the request and its reply learns.

`Performed` lists what the handlers do once the lock check has been passed, and
`serverStep_action` is the one inversion lemma for all ten of them.  Every invariant of the table
in the later files is derived from it, by cases on five kinds of action.

Two points of the C code show in `Action.next`.  Opening a path that already has an entry leaves the
table as it is: the entry pushed for the new handle is the first match of the removal that follows,
so it is the *new* one that goes.  And a failed `open` of a path without an entry still pushes one,
with descriptor `-1`.
-/

set_option autoImplicit false

namespace RemoteFs

variable {κ : Type}

/-! ## Lookups -/

/-- The entry of a path: what a search by path finds. -/
def pathEntry (l : List Resource) (p : CString) : Option Resource :=
  l.find? fun r ↦ decide (r.path = p)

/-- The entry of a number: what a search by descriptor finds. -/
def fdEntry (l : List Resource) (n : Int32) : Option Resource :=
  l.find? fun r ↦ decide (n ≠ 0 ∧ r.fd = n)

theorem findResource_eq_pathEntry (l : List Resource) (id : Int32) (p : CString) :
    findResource l id 0 (some p) = pathEntry l p := findResource_path l id p

theorem findResource_eq_fdEntry (l : List Resource) (id n : Int32) :
    findResource l id n none = fdEntry l n := findResource_fd l id n

theorem pathEntry_some {l : List Resource} {p : CString} {r : Resource}
    (h : pathEntry l p = some r) : r ∈ l ∧ r.path = p :=
  ⟨List.mem_of_find?_eq_some h, by simpa using List.find?_some h⟩

theorem pathEntry_eq_none_iff {l : List Resource} {p : CString} :
    pathEntry l p = none ↔ ∀ r ∈ l, r.path ≠ p := by
  simp [pathEntry]

theorem fdEntry_some {l : List Resource} {n : Int32} {r : Resource} (h : fdEntry l n = some r) :
    r ∈ l ∧ n ≠ 0 ∧ r.fd = n :=
  ⟨List.mem_of_find?_eq_some h, by simpa using List.find?_some h⟩

theorem refuses_eq_false_iff {res : Option Resource} {id : Int32} :
    refuses res id = false ↔ ∀ r, res = some r → r.id = id := by
  cases res <;> simp [refuses]

theorem refuses_eq_true_iff {res : Option Resource} {id : Int32} :
    refuses res id = true ↔ ∃ r, res = some r ∧ r.id ≠ id := by
  cases res <;> simp [refuses]

/-! ## Actions -/

/-- The two kinds of handles. -/
inductive Kind where
  | file
  | dir
  deriving DecidableEq

/-- A handle given to a client: what it was opened as, by whom, on which path, and its number. -/
structure Handle where
  kind : Kind
  client : Int32
  path : CString
  num : Int32
  deriving DecidableEq

/-- What a request amounts to for the lock table. -/
inductive Action where
  /-- Nothing: refused, ignored, or not concerned with the table. -/
  | quiet
  /-- An admitted open; `num` is the new handle, `none` when the call failed. -/
  | open_ (kind : Kind) (lock client : Int32) (path : CString) (num : Option Int32)
  /-- An admitted close; `ok` tells whether the call succeeded. -/
  | close (kind : Kind) (client num : Int32) (ok : Bool)
  /-- An admitted removal. -/
  | remove (client : Int32) (path : CString) (ok : Bool)
  /-- A client leaves. -/
  | unmount (client : Int32)
  deriving DecidableEq

/-- The effect of an action on the table. -/
def Action.next : Action → List Resource → List Resource
  | .quiet, l => l
  | .open_ _ lock c p num, l =>
    if (pathEntry l p).isSome then l else ⟨lock, c, num.getD (-1), p⟩ :: l
  | .close _ c n _, l => l.eraseP fun r ↦ decide (n ≠ 0 ∧ r.fd = n ∧ r.id = c)
  | .remove c p _, l => l.eraseP fun r ↦ decide (r.path = p ∧ r.id = c)
  | .unmount _, l => l

/-- What the lock check has established when an action takes place.  The check of `fsCloseDir` is
made on garbage and establishes nothing. -/
def Action.Admitted : Action → List Resource → Prop
  | .open_ _ _ c p _, l | .remove c p _, l => ∀ r, pathEntry l p = some r → r.id = c
  | .close .file c n _, l => ∀ r, fdEntry l n = some r → r.id = c
  | _, _ => True

/-- What can be told from outside about a request: which handle it issued, closed, and so on. -/
inductive Label where
  | quiet
  | issued (h : Handle)
  | closed (kind : Kind) (client num : Int32)
  | removed (client : Int32) (path : CString)
  | unmounted (client : Int32)
  deriving DecidableEq

/-- The label of an action. -/
def Action.label : Action → Label
  | .open_ kind _ c p (some n) => .issued ⟨kind, c, p, n⟩
  | .close kind c n true => .closed kind c n
  | .remove c p true => .removed c p
  | .unmount c => .unmounted c
  | _ => .quiet

/-- Only a successful open issues a handle. -/
theorem Action.label_eq_issued {a : Action} {h : Handle} :
    a.label = .issued h ↔ ∃ lock, a = .open_ h.kind lock h.client h.path (some h.num) := by
  constructor
  · intro hl
    cases a with
    | open_ kind lock c p num =>
      cases num with
      | none => cases hl
      | some n => cases hl; exact ⟨lock, rfl⟩
    | close kind c n ok => cases ok <;> cases hl
    | remove c p ok => cases ok <;> cases hl
    | quiet => cases hl
    | unmount c => cases hl
  · rintro ⟨lock, rfl⟩
    rfl

/-- Only a close that succeeds closes. -/
theorem Action.label_eq_closed {a : Action} {kind : Kind} {c n : Int32} :
    a.label = .closed kind c n ↔ a = .close kind c n true := by
  constructor
  · intro hl
    cases a with
    | close kind c n ok =>
      cases ok with
      | false => cases hl
      | true => cases hl; rfl
    | open_ kind lock c p num => cases num <;> cases hl
    | remove c p ok => cases ok <;> cases hl
    | quiet => cases hl
    | unmount c => cases hl
  · rintro rfl
    rfl

theorem Action.label_eq_unmounted {a : Action} {c : Int32} :
    a.label = .unmounted c ↔ a = .unmount c := by
  constructor
  · intro hl
    cases a with
    | unmount c => cases hl; rfl
    | open_ kind lock c p num => cases num <;> cases hl
    | close kind c n ok => cases ok <;> cases hl
    | remove c p ok => cases ok <;> cases hl
    | quiet => cases hl
  · rintro rfl
    rfl

/-- The action of an admitted operation. -/
def Op.action (K : Kernel κ) (w : World κ) : Op → Action
  | .openDir c p =>
    match (K.opendir w.kern p).1 with
    | .ok _ => .open_ .dir 1 c p (some (w.srv.openDirId + 1))
    | .error _ => .quiet
  | .open_ c mode p =>
    .open_ .file mode c p ((K.open_ w.kern p (openFlags mode)).1.toOption.map fun fd ↦ fd.1)
  | .close c n => .close .file c n (K.close w.kern n).1.isOk
  | .closeDir c n =>
    match findNode w.srv.openDirQueue n with
    | some d => .close .dir c n (K.closedir w.kern d.dir).1.isOk
    | none => .quiet
  | .remove c p => .remove c p (K.remove w.kern p).1.isOk
  | .unmount (some c) => .unmount c
  | _ => .quiet

/-- **What a request amounts to**: a function of the request, the table and the kernel. -/
def action (K : Kernel κ) (w : World κ) (req : Request) : Action :=
  match req.op with
  | .ok op => if op.blocked w.srv.resourceList req.garbage then .quiet else op.action K w
  | .error _ => .quiet

/-! ## Events -/

/-- A request that was served: the system calls made for it, newest first, and the reply. -/
structure Event where
  req : Request
  calls : List Syscall
  reply : ReturnType

/-- A request is served and its event recorded. -/
def serverStep (K : Kernel κ) (w : World κ) (e : Event) (w' : World κ) : Prop :=
  serve K e.req w = .ok (e.reply, w') ∧ w'.calls = e.calls ++ w.calls

/-- The reply is an `int` that reports success. -/
def Event.success? (e : Event) : Option Int32 :=
  match e.reply.int? with
  | .ok n => if 0 ≤ n then some n else none
  | .error _ => none

/-- What the request and its reply show.  The number of a directory may be any `int`; a reply to
`fsOpenDir` that is an `int` is a handle unless the request was refused without a call. -/
def Event.label (e : Event) : Label :=
  match e.req.op with
  | .ok (.open_ c _ p) =>
    match e.success? with
    | some n => .issued ⟨.file, c, p, n⟩
    | none => .quiet
  | .ok (.openDir c p) =>
    if e.calls = [] then .quiet
    else
      match e.reply.int? with
      | .ok n => .issued ⟨.dir, c, p, n⟩
      | .error _ => .quiet
  | .ok (.close c n) => if e.success?.isSome then .closed .file c n else .quiet
  | .ok (.closeDir c n) => if e.success?.isSome then .closed .dir c n else .quiet
  | .ok (.remove c p) => if e.success?.isSome then .removed c p else .quiet
  | .ok (.unmount (some c)) => .unmounted c
  | _ => .quiet

/-! ## What the handlers return -/

theorem Fd.ne_neg_one (fd : Fd) : fd.1 ≠ -1 := by
  intro h
  have hpos := fd.2
  rw [h] at hpos
  exact absurd hpos (by decide)

/-- An error code is a negative reply. -/
theorem Errno.neg_lt (e : Errno) : ¬ (0 : Int32) ≤ -e.1 := by
  obtain ⟨e, he⟩ := e
  rw [Int32.lt_iff_toInt_lt] at he
  rw [Int32.le_iff_toInt_le, Int32.toInt_neg]
  have hlt := Int32.toInt_lt e
  simp only [Int32.toInt_zero] at he ⊢
  rw [Int.bmod_eq_of_le (by omega) (by omega)]
  omega

/-- The `int` a call is answered with: its value, or minus the error number. -/
def outcome {α : Type} (r : Except Errno α) (ok : α → Int32) : Int32 :=
  match r with
  | .ok x => ok x
  | .error e => -e.1

theorem orErrno_after {α : Type} (w : World κ) (c : Syscall) (r : Except Errno α × κ)
    (ok : α → Int32) (hok : ∀ x, ok x ≠ -1) :
    orErrno (intResult r.1 ok) (w.after c r).srv.errno = outcome r.1 ok := by
  cases h : r.1 with
  | ok x => simp [orErrno, intResult, outcome, hok x]
  | error e => simp [orErrno, intResult, outcome, World.after_errno_of_error w c r h]

theorem success?_int {e : Event} {n : Int32} (h : e.reply = .int n) :
    e.success? = if 0 ≤ n then some n else none := by
  simp [Event.success?, h]

/-- Pushing an entry and then removing "the old one": when there was one, the entry pushed is the
first that matches. -/
theorem push_remove (l : List Resource) (lock c n : Int32) (p : CString) :
    (if (pathEntry l p).isSome then removeResource (addResource l lock c n p) c 0 (some p)
      else addResource l lock c n p)
      = if (pathEntry l p).isSome then l else ⟨lock, c, n, p⟩ :: l := by
  split
  · simp [addResource, removeResource]
  · rfl

section
variable (K : Kernel κ) (w : World κ)

theorem openPath_of_blocked {c mode : Int32} {p : CString}
    (h : refuses (pathEntry w.srv.resourceList p) c = true) :
    openPath K c mode p w = (refusal, w) := by
  simp [openPath, findResource_eq_pathEntry, h]

theorem openPath_of_admitted {c mode : Int32} {p : CString}
    (h : refuses (pathEntry w.srv.resourceList p) c = false) :
    openPath K c mode p w =
      (.int (outcome (K.open_ w.kern p (openFlags mode)).1 fun fd ↦ fd.1),
        (w.after (.open_ p (openFlags mode)) (K.open_ w.kern p (openFlags mode))).setResources
          (((Op.open_ c mode p).action K w).next w.srv.resourceList)) := by
  have hret := orErrno_after w (.open_ p (openFlags mode)) (K.open_ w.kern p (openFlags mode))
    (fun fd ↦ fd.1) Fd.ne_neg_one
  have hnum : intResult (K.open_ w.kern p (openFlags mode)).1 (fun fd ↦ fd.1)
      = ((K.open_ w.kern p (openFlags mode)).1.toOption.map fun fd ↦ fd.1).getD (-1) := by
    cases (K.open_ w.kern p (openFlags mode)).1 <;> rfl
  rw [hnum] at hret
  simp only [openPath, findResource_eq_pathEntry, h, Bool.false_eq_true, if_false, hret,
    World.after_resourceList, push_remove, Op.action, Action.next, hnum]

theorem openDirPath_of_blocked {c : Int32} {p : CString}
    (h : refuses (pathEntry w.srv.resourceList p) c = true) :
    openDirPath K c p w = (refusal, w) := by
  simp [openDirPath, findResource_eq_pathEntry, h]

theorem openDirPath_of_error {c : Int32} {p : CString} {e : Errno}
    (h : refuses (pathEntry w.srv.resourceList p) c = false)
    (he : (K.opendir w.kern p).1 = .error e) :
    openDirPath K c p w = (.null, w.after (.opendir p) (K.opendir w.kern p)) := by
  simp only [openDirPath, findResource_eq_pathEntry, h, he, Bool.false_eq_true, if_false]

/-- The world after a directory has been opened. -/
structure DirOpened (c : Int32) (p : CString) (d : Dir) (w' : World κ) : Prop where
  list : w'.srv.resourceList = ((Op.openDir c p).action K w).next w.srv.resourceList
  id : w'.srv.openDirId = w.srv.openDirId + 1
  queue : w'.srv.openDirQueue = ⟨w.srv.openDirId + 1, d⟩ :: w.srv.openDirQueue
  kern : w'.kern = (K.opendir w.kern p).2
  calls : w'.calls = .opendir p :: w.calls

theorem openDirPath_of_ok {c : Int32} {p : CString} {d : Dir}
    (h : refuses (pathEntry w.srv.resourceList p) c = false)
    (hd : (K.opendir w.kern p).1 = .ok d) :
    ∃ w', openDirPath K c p w = (.int (w.srv.openDirId + 1), w') ∧ DirOpened K w c p d w' := by
  simp only [openDirPath, findResource_eq_pathEntry, h, hd, Bool.false_eq_true, if_false,
    World.after_resourceList, World.after_openDirId, World.after_openDirQueue, push_remove]
  refine ⟨_, rfl, ?_, rfl, rfl, rfl, rfl⟩
  simp [Op.action, Action.next, hd]

theorem closeFd_of_blocked {c n : Int32} (h : refuses (fdEntry w.srv.resourceList n) c = true) :
    closeFd K c n w = (refusal, w) := by
  simp [closeFd, findResource_eq_fdEntry, h]

theorem closeFd_of_admitted {c n : Int32} (h : refuses (fdEntry w.srv.resourceList n) c = false) :
    closeFd K c n w =
      (.int (outcome (K.close w.kern n).1 fun _ ↦ 0),
        (w.after (.close n) (K.close w.kern n)).setResources
          (((Op.close c n).action K w).next w.srv.resourceList)) := by
  have hret := orErrno_after w (.close n) (K.close w.kern n) (fun _ ↦ 0)
    fun _ ↦ by decide
  simp only [closeFd, findResource_eq_fdEntry, h, Bool.false_eq_true, if_false, hret,
    World.after_resourceList, removeResource_fd, Op.action, Action.next]

theorem removePath_of_blocked {c : Int32} {p : CString}
    (h : refuses (pathEntry w.srv.resourceList p) c = true) :
    removePath K c p w = (refusal, w) := by
  simp [removePath, findResource_eq_pathEntry, h]

theorem removePath_of_admitted {c : Int32} {p : CString}
    (h : refuses (pathEntry w.srv.resourceList p) c = false) :
    removePath K c p w =
      (.int (outcome (K.remove w.kern p).1 fun _ ↦ 0),
        (w.after (.remove p) (K.remove w.kern p)).setResources
          (((Op.remove c p).action K w).next w.srv.resourceList)) := by
  have hret := orErrno_after w (.remove p) (K.remove w.kern p) (fun _ ↦ 0)
    fun _ ↦ by decide
  simp only [removePath, findResource_eq_pathEntry, h, Bool.false_eq_true, if_false, hret,
    World.after_resourceList, removeResource_path, Op.action, Action.next]

theorem closeDirNum_of_blocked {c n g : Int32}
    (h : refuses (fdEntry w.srv.resourceList g) c = true) :
    closeDirNum K c n g w = .ok (refusal, w) := by
  simp [closeDirNum, findResource_eq_fdEntry, h]

theorem closeDirNum_of_admitted {c n g : Int32} {d : Node}
    (h : refuses (fdEntry w.srv.resourceList g) c = false)
    (hd : findNode w.srv.openDirQueue n = some d) :
    closeDirNum K c n g w =
      .ok (.int (outcome (K.closedir w.kern d.dir).1 fun _ ↦ 0),
        (w.after (.closedir d.dir) (K.closedir w.kern d.dir)).setResources
          (((Op.closeDir c n).action K w).next w.srv.resourceList)) := by
  have hret := orErrno_after w (.closedir d.dir) (K.closedir w.kern d.dir) (fun _ ↦ 0)
    fun _ ↦ by decide
  simp only [closeDirNum, findResource_eq_fdEntry, h, hd, Bool.false_eq_true, if_false, hret,
    World.after_resourceList, removeResource_fd, Op.action, Action.next]

/-! ### The requests that leave the table alone -/

variable {K w} {r : ReturnType} {w' : World κ}

theorem mountClient_world (h : mountClient w = .ok (r, w')) :
    w' = { w with srv := { w.srv with clientId := w.srv.clientId + 1 } } := by
  simp only [mountClient] at h
  split at h
  · cases h
  · cases h; rfl

theorem readFd_world {n count : Int32} (h : readFd K n count w = .ok (r, w')) :
    w' = w.after (.read n (sizeT count)) (K.read w.kern n (sizeT count)) := by
  simp only [readFd] at h
  split at h <;> split at h
  · cases h
  · split at h <;> cases h
    rfl
  · cases h
  · split at h <;> cases h
    rfl

theorem writeFd_world {n count : Int32} {buf : Bytes} (h : writeFd K n count buf w = .ok (r, w')) :
    w' = w.after (.write n (buf.take (sizeT count)))
      (K.write w.kern n (buf.take (sizeT count))) := by
  simp only [writeFd] at h
  split at h
  · cases h
  · cases h; rfl

theorem readDirNum_world {n : Int32} (h : readDirNum K n w = .ok (r, w')) :
    ∃ d, findNode w.srv.openDirQueue n = some d ∧
      w' = w.after (.readdir d.dir) (K.readdir w.kern d.dir) := by
  simp only [readDirNum] at h
  split at h
  · cases h
  · rename_i d hd
    refine ⟨d, hd, ?_⟩
    split at h
    · cases h; rfl
    · split at h <;> (cases h; rfl)

theorem findNode_of_closeDirNum {c n g : Int32}
    (hg : refuses (fdEntry w.srv.resourceList g) c = false)
    (h : closeDirNum K c n g w = .ok (r, w')) :
    ∃ d, findNode w.srv.openDirQueue n = some d := by
  simp only [closeDirNum, findResource_eq_fdEntry, hg, Bool.false_eq_true, if_false] at h
  cases hd : findNode w.srv.openDirQueue n with
  | none => simp [hd] at h
  | some d => exact ⟨d, rfl⟩

end

/-! ## The inversion lemma -/

/-- **A refused request changes nothing**, makes no call and is answered `-EAGAIN`. -/
theorem perform_of_blocked (K : Kernel κ) {w : World κ} {op : Op} {g : Int32}
    (h : op.blocked w.srv.resourceList g = true) : perform K g op w = .ok (refusal, w) := by
  cases op with
  | openDir c p =>
    simp only [Op.blocked, findResource_eq_pathEntry] at h
    rw [perform, openDirPath_of_blocked K w h]
  | remove c p =>
    simp only [Op.blocked, findResource_eq_pathEntry] at h
    rw [perform, removePath_of_blocked K w h]
  | open_ c mode p =>
    simp only [Op.blocked, findResource_eq_pathEntry] at h
    rw [perform, openPath_of_blocked K w h]
  | close c n =>
    simp only [Op.blocked, findResource_eq_fdEntry] at h
    rw [perform, closeFd_of_blocked K w h]
  | closeDir c n =>
    simp only [Op.blocked, findResource_eq_fdEntry] at h
    rw [perform, closeDirNum_of_blocked K w h]
  | write c n count buf =>
    simp only [Op.blocked] at h
    rw [perform, if_pos h]
  | _ => simp [Op.blocked] at h

/-- What an admitted operation does: its reply, and the world it leaves. -/
inductive Performed (K : Kernel κ) (w : World κ) : Op → ReturnType → World κ → Prop
  | ignored : Performed K w .ignored .null w
  | unmount (c : Option Int32) : Performed K w (.unmount c) .null w
  | mount {r : ReturnType} {w' : World κ} (h : mountClient w = .ok (r, w')) :
    Performed K w .mount r w'
  | readDir {n : Int32} {r : ReturnType} {w' : World κ} (h : readDirNum K n w = .ok (r, w')) :
    Performed K w (.readDir n) r w'
  | read {n count : Int32} {r : ReturnType} {w' : World κ} (h : readFd K n count w = .ok (r, w')) :
    Performed K w (.read n count) r w'
  | write {c n count : Int32} {buf : Bytes} {r : ReturnType} {w' : World κ}
    (h : writeFd K n count buf w = .ok (r, w')) : Performed K w (.write c n count buf) r w'
  | open_ {c mode : Int32} {p : CString}
    (hadm : refuses (pathEntry w.srv.resourceList p) c = false) :
    Performed K w (.open_ c mode p)
      (.int (outcome (K.open_ w.kern p (openFlags mode)).1 fun fd ↦ fd.1))
      ((w.after (.open_ p (openFlags mode)) (K.open_ w.kern p (openFlags mode))).setResources
        (((Op.open_ c mode p).action K w).next w.srv.resourceList))
  | noDir {c : Int32} {p : CString} {e : Errno} (he : (K.opendir w.kern p).1 = .error e) :
    Performed K w (.openDir c p) .null (w.after (.opendir p) (K.opendir w.kern p))
  | openDir {c : Int32} {p : CString} {d : Dir} {w' : World κ}
    (hadm : refuses (pathEntry w.srv.resourceList p) c = false)
    (hd : (K.opendir w.kern p).1 = .ok d) (hopened : DirOpened K w c p d w') :
    Performed K w (.openDir c p) (.int (w.srv.openDirId + 1)) w'
  | close {c n : Int32} (hadm : refuses (fdEntry w.srv.resourceList n) c = false) :
    Performed K w (.close c n) (.int (outcome (K.close w.kern n).1 fun _ ↦ 0))
      ((w.after (.close n) (K.close w.kern n)).setResources
        (((Op.close c n).action K w).next w.srv.resourceList))
  | closeDir {c n : Int32} {d : Node} (hd : findNode w.srv.openDirQueue n = some d) :
    Performed K w (.closeDir c n) (.int (outcome (K.closedir w.kern d.dir).1 fun _ ↦ 0))
      ((w.after (.closedir d.dir) (K.closedir w.kern d.dir)).setResources
        (((Op.closeDir c n).action K w).next w.srv.resourceList))
  | remove {c : Int32} {p : CString} (hadm : refuses (pathEntry w.srv.resourceList p) c = false) :
    Performed K w (.remove c p) (.int (outcome (K.remove w.kern p).1 fun _ ↦ 0))
      ((w.after (.remove p) (K.remove w.kern p)).setResources
        (((Op.remove c p).action K w).next w.srv.resourceList))

/-- **The handlers, one by one**, once the lock check has been passed. -/
theorem performed_of_perform {K : Kernel κ} {w w' : World κ} {op : Op} {g : Int32} {r : ReturnType}
    (hb : op.blocked w.srv.resourceList g = false) (h : perform K g op w = .ok (r, w')) :
    Performed K w op r w' := by
  cases op with
  | ignored | unmount =>
    cases h
    constructor
  | mount => exact .mount h
  | readDir n => exact .readDir h
  | read n count => exact .read h
  | write c n count buf =>
    rw [perform, if_neg (by simpa [Op.blocked] using hb)] at h
    exact .write h
  | open_ c mode p =>
    simp only [Op.blocked, findResource_eq_pathEntry] at hb
    rw [perform, openPath_of_admitted K w hb] at h
    cases h
    exact .open_ hb
  | openDir c p =>
    simp only [Op.blocked, findResource_eq_pathEntry] at hb
    cases hd : (K.opendir w.kern p).1 with
    | error e =>
      rw [perform, openDirPath_of_error K w hb hd] at h
      cases h
      exact .noDir hd
    | ok d =>
      obtain ⟨w₁, hw, hopened⟩ := openDirPath_of_ok K w hb hd
      rw [perform, hw] at h
      cases h
      exact .openDir hb hd hopened
  | close c n =>
    simp only [Op.blocked, findResource_eq_fdEntry] at hb
    rw [perform, closeFd_of_admitted K w hb] at h
    cases h
    exact .close hb
  | closeDir c n =>
    simp only [Op.blocked, findResource_eq_fdEntry] at hb
    obtain ⟨d, hd⟩ := findNode_of_closeDirNum hb h
    rw [perform, closeDirNum_of_admitted K w hb hd] at h
    cases h
    exact .closeDir hd
  | remove c p =>
    simp only [Op.blocked, findResource_eq_pathEntry] at hb
    rw [perform, removePath_of_admitted K w hb] at h
    cases h
    exact .remove hb

theorem serve_of_op {K : Kernel κ} {w : World κ} {req : Request} {op : Op} (h : req.op = .ok op) :
    serve K req w = perform K req.garbage op w := by
  rw [serve_eq, h]
  rfl

/-- A request that was served had readable arguments. -/
theorem op_of_serve {K : Kernel κ} {w w' : World κ} {req : Request} {r : ReturnType}
    (h : serve K req w = .ok (r, w')) :
    ∃ op, req.op = .ok op ∧ perform K req.garbage op w = .ok (r, w') := by
  rw [serve_eq] at h
  cases hop : req.op with
  | error f => simp [hop, bind, Except.bind] at h
  | ok op => exact ⟨op, rfl, by simpa [hop, bind, Except.bind] using h⟩

theorem action_of_op {K : Kernel κ} {w : World κ} {req : Request} {op : Op}
    (h : req.op = .ok op) :
    action K w req
      = if op.blocked w.srv.resourceList req.garbage then .quiet else op.action K w := by
  simp [action, h]

/-- What `serverStep_action` says about a step. -/
structure ActionSpec (K : Kernel κ) (w : World κ) (e : Event) (w' : World κ) : Prop where
  /-- The table changes as the action says. -/
  next : w'.srv.resourceList = (action K w e.req).next w.srv.resourceList
  /-- The lock check has been passed. -/
  admitted : (action K w e.req).Admitted w.srv.resourceList
  /-- The reply shows what happened. -/
  label : e.label = (action K w e.req).label

theorem calls_eq_nil {w : World κ} {e : Event} (h : w.calls = e.calls ++ w.calls) :
    e.calls = [] := by
  simpa using h

/-- The reply to an operation that succeeded or failed, as an observer sees it. -/
theorem success?_outcome {α : Type} {e : Event} {r : Except Errno α} {ok : α → Int32}
    (hok : ∀ x, 0 ≤ ok x) (h : e.reply = .int (outcome r ok)) :
    e.success? = r.toOption.map ok := by
  rw [success?_int h]
  cases r with
  | ok x => simp [outcome, hok x, Except.toOption]
  | error x => simp [outcome, Errno.neg_lt x, Except.toOption]

/-- A refused request shows nothing. -/
theorem label_of_refused {e : Event} (hcalls : e.calls = []) (h : e.reply = refusal)
    (hun : ∀ c, e.req.op ≠ .ok (.unmount c)) : e.label = .quiet := by
  have hs : e.success? = none := by rw [success?_int h]; decide
  rw [Event.label]
  split <;> simp_all

/-- What an admitted operation does to the table, and what it shows. -/
theorem Performed.spec {K : Kernel κ} {w w' : World κ} {e : Event} {op : Op}
    (h : Performed K w op e.reply w') (hop : e.req.op = .ok op)
    (hcalls : w'.calls = e.calls ++ w.calls) :
    w'.srv.resourceList = (op.action K w).next w.srv.resourceList ∧
      (op.action K w).Admitted w.srv.resourceList ∧ e.label = (op.action K w).label := by
  generalize hr : e.reply = r at h
  have hlabel := Event.label.eq_1 e
  rw [hop] at hlabel
  cases h with
  | ignored => exact ⟨rfl, trivial, hlabel⟩
  | mount h =>
    rw [mountClient_world h]
    exact ⟨rfl, trivial, hlabel⟩
  | unmount c => cases c <;> exact ⟨rfl, trivial, hlabel⟩
  | readDir h =>
    obtain ⟨d, -, rfl⟩ := readDirNum_world h
    exact ⟨World.after_resourceList _ _ _, trivial, hlabel⟩
  | read h =>
    rw [readFd_world h]
    exact ⟨World.after_resourceList _ _ _, trivial, hlabel⟩
  | write h =>
    rw [writeFd_world h]
    exact ⟨World.after_resourceList _ _ _, trivial, hlabel⟩
  | @open_ c mode p hadm =>
    refine ⟨rfl, refuses_eq_false_iff.mp hadm, ?_⟩
    have hs := success?_outcome (fun fd : Fd ↦ fd.2) hr
    simp only [hlabel, hs, Op.action]
    cases (K.open_ w.kern p (openFlags mode)).1 <;> rfl
  | @noDir c p x he =>
    have hact : (Op.openDir c p).action K w = .quiet := by simp [Op.action, he]
    rw [hact, hlabel, hr]
    refine ⟨World.after_resourceList _ _ _, trivial, ?_⟩
    simp [Action.label]
  | @openDir c p d _ hadm hd hopened =>
    have hact : (Op.openDir c p).action K w = .open_ .dir 1 c p (some (w.srv.openDirId + 1)) := by
      simp [Op.action, hd]
    have hne : e.calls ≠ [] := by
      intro hnil
      rw [hopened.calls, hnil] at hcalls
      simp at hcalls
    refine ⟨hopened.list, ?_, ?_⟩
    · rw [hact]
      exact refuses_eq_false_iff.mp hadm
    · rw [hact, hlabel, hr]
      simp [hne, Action.label]
  | @close c n hadm =>
    refine ⟨rfl, refuses_eq_false_iff.mp hadm, ?_⟩
    have hs := success?_outcome (fun _ : Unit ↦ by decide) hr
    simp only [hlabel, hs, Op.action]
    cases (K.close w.kern n).1 <;> rfl
  | @closeDir c n d hd =>
    have hact : (Op.closeDir c n).action K w
        = .close .dir c n (K.closedir w.kern d.dir).1.isOk := by simp [Op.action, hd]
    refine ⟨rfl, by rw [hact]; trivial, ?_⟩
    have hs := success?_outcome (fun _ : Unit ↦ by decide) hr
    simp only [hact, hlabel, hs]
    cases (K.closedir w.kern d.dir).1 <;> rfl
  | @remove c p hadm =>
    refine ⟨rfl, refuses_eq_false_iff.mp hadm, ?_⟩
    have hs := success?_outcome (fun _ : Unit ↦ by decide) hr
    simp only [hlabel, hs, Op.action]
    cases (K.remove w.kern p).1 <;> rfl

/-- **The inversion lemma.**  Served by the ten handlers, a request changes the table as its action
says, has passed the lock check, and is answered accordingly. -/
theorem serverStep_action {K : Kernel κ} {w w' : World κ} {e : Event}
    (h : serverStep K w e w') : ActionSpec K w e w' := by
  obtain ⟨hserve, hcalls⟩ := h
  obtain ⟨op, hop, hperf⟩ := op_of_serve hserve
  have hact := action_of_op (K := K) (w := w) hop
  by_cases hb : op.blocked w.srv.resourceList e.req.garbage = true
  · rw [perform_of_blocked K hb] at hperf
    obtain ⟨hr, rfl⟩ : refusal = e.reply ∧ w = w' := by simpa using hperf
    rw [if_pos hb] at hact
    refine ⟨by rw [hact]; rfl, by rw [hact]; trivial, ?_⟩
    rw [hact, label_of_refused (calls_eq_nil hcalls) hr.symm]
    · rfl
    · intro c hc
      rw [hop] at hc
      cases hc
      simp [Op.blocked] at hb
  · rw [if_neg hb] at hact
    obtain ⟨h₁, h₂, h₃⟩ := (performed_of_perform (by simpa using hb) hperf).spec hop hcalls
    exact ⟨by rw [hact]; exact h₁, by rw [hact]; exact h₂, by rw [hact]; exact h₃⟩

/-- Serving a request makes at most one call, on the path of the request. -/
theorem calls_of_perform {K : Kernel κ} {w w' : World κ} {g : Int32} {op : Op} {r : ReturnType}
    (h : perform K g op w = .ok (r, w')) :
    ∃ call : Option Syscall, w'.calls = call.toList ++ w.calls ∧
      ∀ c ∈ call, c.path? = op.path? := by
  by_cases hb : op.blocked w.srv.resourceList g = true
  · rw [perform_of_blocked K hb] at h
    obtain ⟨-, rfl⟩ := by simpa using h
    exact ⟨none, rfl, nofun⟩
  · rw [Bool.not_eq_true] at hb
    cases performed_of_perform hb h with
    | ignored | unmount => exact ⟨none, rfl, nofun⟩
    | mount h =>
      rw [mountClient_world h]
      exact ⟨none, rfl, nofun⟩
    | readDir h =>
      obtain ⟨d, -, rfl⟩ := readDirNum_world h
      exact ⟨some _, rfl, by simp [Syscall.path?, Op.path?]⟩
    | read h =>
      rw [readFd_world h]
      exact ⟨some _, rfl, by simp [Syscall.path?, Op.path?]⟩
    | write h =>
      rw [writeFd_world h]
      exact ⟨some _, rfl, by simp [Syscall.path?, Op.path?]⟩
    | openDir _ _ hopened => exact ⟨some _, hopened.calls, by simp [Syscall.path?, Op.path?]⟩
    | open_ | noDir | close | closeDir | remove =>
      exact ⟨some _, rfl, by simp [Syscall.path?, Op.path?]⟩

/-- Every request that is served is a step. -/
theorem exists_serverStep {K : Kernel κ} {w w' : World κ} {req : Request} {r : ReturnType}
    (h : serve K req w = .ok (r, w')) :
    ∃ calls, serverStep K w ⟨req, calls, r⟩ w' := by
  obtain ⟨op, -, hperf⟩ := op_of_serve h
  obtain ⟨call, hcall, -⟩ := calls_of_perform hperf
  exact ⟨call.toList, h, hcall⟩

/-! ## The shape of the effect -/

/-- The entry an action removes. -/
def Action.dropped : Action → List Resource → Option Resource
  | .close _ c n _, l => l.find? fun r ↦ decide (n ≠ 0 ∧ r.fd = n ∧ r.id = c)
  | .remove c p _, l => l.find? fun r ↦ decide (r.path = p ∧ r.id = c)
  | _, _ => none

/-- **An entry stays unless it is the one dropped.** -/
theorem mem_next_or_dropped {a : Action} {l : List Resource} {r : Resource} (h : r ∈ l) :
    r ∈ a.next l ∨ a.dropped l = some r := by
  cases a with
  | quiet => exact .inl h
  | open_ kind lock c p num =>
    left
    rw [Action.next]
    split
    · exact h
    · exact List.mem_cons_of_mem _ h
  | close kind c n ok => exact FirstMatch.mem_eraseP_or_find? h
  | remove c p ok => exact FirstMatch.mem_eraseP_or_find? h
  | unmount c => exact .inl h

/-- **A new entry is the one pushed by an open** of a path that had none. -/
theorem mem_of_mem_next {a : Action} {l : List Resource} {r : Resource} (h : r ∈ a.next l) :
    r ∈ l ∨ ∃ kind lock c p num, a = .open_ kind lock c p num ∧ pathEntry l p = none ∧
      r = ⟨lock, c, num.getD (-1), p⟩ := by
  cases a with
  | quiet => exact .inl h
  | open_ kind lock c p num =>
    rw [Action.next] at h
    split at h
    · exact .inl h
    · rename_i hp
      rcases List.mem_cons.mp h with rfl | h
      · exact .inr ⟨kind, lock, c, p, num, rfl, by simpa using hp, rfl⟩
      · exact .inl h
  | close kind c n ok => exact .inl (List.mem_of_mem_eraseP h)
  | remove c p ok => exact .inl (List.mem_of_mem_eraseP h)
  | unmount c => exact .inl h

/-- **The entry of a number changes** only when it is dropped, or when an open pushes another one
with that number. -/
theorem fdEntry_next {a : Action} {l : List Resource} {n : Int32} {r : Resource}
    (h : fdEntry l n = some r) :
    a.dropped l = some r ∨ fdEntry (a.next l) n = some r ∨
      ∃ kind lock c p num, a = .open_ kind lock c p num ∧ pathEntry l p = none ∧
        num.getD (-1) = n := by
  have herase : ∀ q, l.find? q = some r ∨ fdEntry (l.eraseP q) n = some r := fun q ↦ by
    by_cases hq : l.find? q = some r
    · exact .inl hq
    · exact .inr (FirstMatch.find?_eraseP_of_ne h hq)
  cases a with
  | quiet => exact .inr (.inl h)
  | unmount c => exact .inr (.inl h)
  | close kind c m ok => exact (herase _).imp_right .inl
  | remove c p ok => exact (herase _).imp_right .inl
  | open_ kind lock c p num =>
    right
    by_cases hp : pathEntry l p = none
    · by_cases hn : num.getD (-1) = n
      · exact .inr ⟨kind, lock, c, p, num, rfl, hp, hn⟩
      · left
        rw [Action.next, hp]
        simpa [fdEntry, List.find?_cons, hn] using h
    · left
      rw [Action.next, if_pos (Option.isSome_iff_ne_none.mpr hp)]
      exact h

end RemoteFs
