import RemoteFs.Lib.Handles
import RemoteFs.Server.History

/-!
# Directory requests

What the requests do to the directory streams the server has handed out.  `Event.handleUse?` is what
an event shows of it, in terms of the numbers the clients know; `World.dirOf` is the stream behind a
number.

`dirStep` is the inversion lemma for all of this: `DirStep` has one case for each way a request can
end, and the later files reason by cases on it.  Two points of the C code show in it.  `fsCloseDir`
closes the stream and leaves the node of its number in `open_dir_queue`, and neither it nor
`fsReadDir` asks who opened the number.
-/

set_option autoImplicit false

namespace RemoteFs

variable {κ : Type}

/-- The three operations on directories. -/
def Op.onDir : Op → Bool
  | .openDir _ _ | .readDir _ | .closeDir _ _ => true
  | _ => false

/-- The directory number an operation uses. -/
def Op.dirNum? : Op → Option Int32
  | .readDir n | .closeDir _ n => some n
  | _ => none

/-- What an operation that was carried out did to a directory number. -/
def Op.handleUse? (reply : ReturnType) : Op → Option (Use Int32)
  | .openDir _ _ => reply.int?.toOption.map .opened
  | .readDir n => some (.used n)
  | .closeDir _ n => some (.closed n)
  | _ => none

/-- What a served request did to a directory number.  A request that made no call did nothing. -/
def Event.handleUse? (e : Event) : Option (Use Int32) :=
  if e.calls = [] then none
  else
    match e.req.op with
    | .ok op => op.handleUse? e.reply
    | .error _ => none

/-- What was done to directory numbers, newest first. -/
def handleUses (es : List Event) : List (Use Int32) := es.filterMap Event.handleUse?

/-- The stream `find` gets for a number. -/
def World.dirOf (w : World κ) (n : Int32) : Option Dir :=
  (findNode w.srv.openDirQueue n).map Node.dir

/-- The queue and the counter are left alone. -/
structure SameDirs (w w' : World κ) : Prop where
  queue : w'.srv.openDirQueue = w.srv.openDirQueue
  id : w'.srv.openDirId = w.srv.openDirId

/-- A step, as far as directories are concerned. -/
inductive DirStep (K : Kernel κ) (w : World κ) (e : Event) (w' : World κ) : Prop
  | opened {c : Int32} {p : CString} {d : Dir} (hop : e.req.op = .ok (.openDir c p))
    (huse : e.handleUse? = some (.opened (w.srv.openDirId + 1)))
    (hreply : e.reply = .int (w.srv.openDirId + 1))
    (hcall : K.opendir w.kern p = (.ok d, w'.kern)) (hid : w'.srv.openDirId = w.srv.openDirId + 1)
    (hqueue : w'.srv.openDirQueue = ⟨w.srv.openDirId + 1, d⟩ :: w.srv.openDirQueue)
  | notOpened {c : Int32} {p : CString} {x : Errno} (hop : e.req.op = .ok (.openDir c p))
    (huse : e.handleUse? = none) (hcall : K.opendir w.kern p = (.error x, w'.kern))
    (hsame : SameDirs w w')
  | read {n : Int32} {d : Dir} (hop : e.req.op = .ok (.readDir n))
    (huse : e.handleUse? = some (.used n)) (hd : w.dirOf n = some d)
    (hread : readDirNum K n w = .ok (e.reply, w')) (hkern : w'.kern = (K.readdir w.kern d).2)
    (hsame : SameDirs w w')
  | closed {c n : Int32} {d : Dir} (hop : e.req.op = .ok (.closeDir c n))
    (hadm : (Op.closeDir c n).blocked w.srv.resourceList e.req.garbage = false)
    (huse : e.handleUse? = some (.closed n)) (hd : w.dirOf n = some d)
    (hkern : w'.kern = (K.closedir w.kern d).2) (hsame : SameDirs w w')
  | refused {op : Op} (hop : e.req.op = .ok op) (hadm : op.blocked w.srv.resourceList
    e.req.garbage = true) (huse : e.handleUse? = none) (hreply : e.reply = refusal) (heq : w' = w)
  | other {op : Op} (hop : e.req.op = .ok op) (hdir : op.onDir = false) (huse : e.handleUse? = none)
    (hperf : Performed K w op e.reply w') (hsame : SameDirs w w')

theorem handleUse?_of_calls {e : Event} {c : Syscall} {op : Op} {w w' : World κ}
    (hcalls : w'.calls = e.calls ++ w.calls) (hcall : w'.calls = c :: w.calls)
    (hop : e.req.op = .ok op) :
    e.handleUse? = op.handleUse? e.reply := by
  have hne : e.calls ≠ [] := by
    intro hnil
    rw [hcall, hnil] at hcalls
    simp at hcalls
  simp only [Event.handleUse?, if_neg hne, hop]

theorem handleUse?_of_not_onDir {e : Event} {op : Op} (hop : e.req.op = .ok op)
    (h : op.onDir = false) : e.handleUse? = none := by
  simp only [Event.handleUse?, hop]
  cases op <;> first | exact ite_self _ | cases h

theorem dirOf_of_findNode {w : World κ} {n : Int32} {d : Node}
    (h : findNode w.srv.openDirQueue n = some d) : w.dirOf n = some d.dir := by
  rw [World.dirOf, h]
  rfl

/-- An operation on something else leaves the directories alone. -/
theorem Performed.sameDirs {K : Kernel κ} {w w' : World κ} {op : Op} {r : ReturnType}
    (h : Performed K w op r w') (hdir : op.onDir = false) : SameDirs w w' := by
  cases h with
  | ignored | unmount => exact ⟨rfl, rfl⟩
  | mount h =>
    rw [mountClient_world h]
    exact ⟨rfl, rfl⟩
  | read h =>
    rw [readFd_world h]
    exact ⟨World.after_openDirQueue .., World.after_openDirId ..⟩
  | write h =>
    rw [writeFd_world h]
    exact ⟨World.after_openDirQueue .., World.after_openDirId ..⟩
  | open_ | close | remove => exact ⟨World.after_openDirQueue .., World.after_openDirId ..⟩
  | readDir | noDir | openDir | closeDir => cases hdir

/-- **The inversion lemma for directories.** -/
theorem dirStep {K : Kernel κ} {w w' : World κ} {e : Event} (h : serverStep K w e w') :
    DirStep K w e w' := by
  obtain ⟨hserve, hcalls⟩ := h
  obtain ⟨op, hop, hperf⟩ := op_of_serve hserve
  by_cases hb : op.blocked w.srv.resourceList e.req.garbage = true
  · rw [perform_of_blocked K hb] at hperf
    obtain ⟨hr, rfl⟩ : refusal = e.reply ∧ w = w' := by simpa using hperf
    have huse : e.handleUse? = none := by
      rw [Event.handleUse?, if_pos (calls_eq_nil hcalls)]
    exact .refused hop hb huse hr.symm rfl
  · rw [Bool.not_eq_true] at hb
    have hperformed := performed_of_perform hb hperf
    by_cases hdir : op.onDir = true
    · generalize hr : e.reply = r at hperformed
      cases hperformed with
      | @noDir c p x he =>
        have huse := handleUse?_of_calls hcalls rfl hop
        rw [hr] at huse
        exact .notOpened hop huse (Prod.ext he rfl)
          ⟨World.after_openDirQueue .., World.after_openDirId ..⟩
      | @openDir c p d _ hadm hd hopened =>
        have huse := handleUse?_of_calls hcalls hopened.calls hop
        rw [hr, Op.handleUse?, ReturnType.int?_int] at huse
        exact .opened hop huse hr (Prod.ext hd hopened.kern.symm) hopened.id hopened.queue
      | readDir h =>
        obtain ⟨d, hd, rfl⟩ := readDirNum_world h
        exact .read hop (handleUse?_of_calls hcalls rfl hop) (dirOf_of_findNode hd)
          (by rw [hr]; exact h) rfl ⟨World.after_openDirQueue .., World.after_openDirId ..⟩
      | @closeDir c n d hd =>
        exact .closed hop hb (handleUse?_of_calls hcalls rfl hop) (dirOf_of_findNode hd) rfl
          ⟨World.after_openDirQueue .., World.after_openDirId ..⟩
      | _ => cases hdir
    · rw [Bool.not_eq_true] at hdir
      exact .other hop hdir (handleUse?_of_not_onDir hop hdir) hperformed
        (hperformed.sameDirs hdir)

theorem SameDirs.dirOf {w w' : World κ} (h : SameDirs w w') : w'.dirOf = w.dirOf := by
  funext n
  rw [World.dirOf, h.queue, World.dirOf]

theorem dirOf_cons_self {w : World κ} {n : Int32} {d : Dir} {queue : List Node}
    (h : w.srv.openDirQueue = ⟨n, d⟩ :: queue) : w.dirOf n = some d := by
  rw [World.dirOf, h, findNode, if_pos rfl]
  rfl

theorem dirOf_cons_of_ne {w w' : World κ} {n m : Int32} {d : Dir}
    (h : w'.srv.openDirQueue = ⟨n, d⟩ :: w.srv.openDirQueue) (hm : m ≠ n) :
    w'.dirOf m = w.dirOf m := by
  rw [World.dirOf, h, findNode, if_neg (Ne.symm hm)]
  rfl

/-- A number that has been handed out stays in the queue. -/
theorem dirOf_isSome_step {K : Kernel κ} {w w' : World κ} {e : Event} (h : serverStep K w e w')
    {n : Int32} (hn : (w.dirOf n).isSome = true) : (w'.dirOf n).isSome = true := by
  cases dirStep h with
  | @opened c p d _ _ _ _ _ hqueue =>
    by_cases hsame : n = w.srv.openDirId + 1
    · rw [hsame, dirOf_cons_self hqueue]
      rfl
    · rwa [dirOf_cons_of_ne hqueue hsame]
  | notOpened _ _ _ hsame => rwa [hsame.dirOf]
  | read _ _ _ _ _ hsame => rwa [hsame.dirOf]
  | closed _ _ _ _ _ hsame => rwa [hsame.dirOf]
  | refused _ _ _ _ heq => rwa [heq]
  | other _ _ _ _ hsame => rwa [hsame.dirOf]

theorem handleUses_cons (e : Event) (es : List Event) :
    handleUses (e :: es) = e.handleUse?.toList ++ handleUses es := by
  rw [handleUses, List.filterMap_cons]
  cases e.handleUse? <;> rfl

theorem handleUses_of_some {e : Event} {u : Use Int32} (h : e.handleUse? = some u) (es : List Event) :
    handleUses (e :: es) = u :: handleUses es := by
  rw [handleUses_cons, h]
  rfl

theorem handleUses_of_none {e : Event} (h : e.handleUse? = none) (es : List Event) :
    handleUses (e :: es) = handleUses es := by
  rw [handleUses_cons, h]
  rfl

end RemoteFs
