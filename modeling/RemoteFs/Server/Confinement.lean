import RemoteFs.Server.FileSystem
import RemoteFs.Server.History

/-!
# The served directory

The server is started for one directory, `mountedDir`.  What it does with the name is to tell it to
clients that mount; they put it in front of the paths they send.  The server itself uses the path of
a request as it comes.

* `resolve` removes `.`, `..` and repeated `/` from a path, without looking at the file system, and
  `Within` says that a path leads to a directory or below it.
* `paths_as_requested`: in every run the paths handed to `open`, `opendir` and `remove` are the
  paths of the requests for which a call was made, so the server stays within its directory exactly
  if these requests do; and `mountedDir` plays no part in it.
* `served_outside`: a request for a path outside is carried out.
-/

set_option autoImplicit false

namespace RemoteFs

variable {κ : Type}

/-! ## Lexical resolution -/

/-- A path without `.`, `..` and empty components, apart from the `..`s a relative path begins
with. -/
structure Lexical where
  absolute : Bool
  /-- The number of `..`s in front. -/
  ups : ℕ
  names : List Bytes
  deriving DecidableEq

/-- One component further. -/
def Lexical.enter (p : Lexical) (name : Bytes) : Lexical :=
  if name = [] ∨ name = [46] then p
  else if name = [46, 46] then
    if p.names ≠ [] then { p with names := p.names.dropLast }
    else if p.absolute then p
    else { p with ups := p.ups + 1 }
  else { p with names := p.names ++ [name] }

/-- What a path denotes, judged by its components alone. -/
def resolve (p : CString) : Lexical :=
  (p.chars.splitOn 47).foldl Lexical.enter ⟨p.chars.head? = some 47, 0, []⟩

/-- `p` resolves to `dir` itself or to a name below it. -/
def Within (dir p : CString) : Prop :=
  (resolve dir).absolute = (resolve p).absolute ∧
    ((resolve dir).ups = (resolve p).ups ∧ (resolve dir).names <+: (resolve p).names ∨
      (resolve p).ups < (resolve dir).ups ∧ (resolve dir).names = [])

instance (dir p : CString) : Decidable (Within dir p) := by
  unfold Within; infer_instance

example : Within (.lit "/srv/") (.lit "/srv//a/../b/.") := by decide

example : ¬ Within (.lit "/srv") (.lit "/srv/../srv2") := by decide

/-! ## The directory plays no part -/

/-- Another directory is served. -/
def World.serving (w : World κ) (dir : CString) : World κ :=
  { w with srv := { w.srv with mountedDir := dir } }

section
variable (w : World κ) (dir : CString)

@[simp] theorem World.serving_resourceList :
    (w.serving dir).srv.resourceList = w.srv.resourceList := rfl

@[simp] theorem World.serving_openDirQueue :
    (w.serving dir).srv.openDirQueue = w.srv.openDirQueue := rfl

@[simp] theorem World.serving_errno : (w.serving dir).srv.errno = w.srv.errno := rfl

@[simp] theorem World.serving_kern : (w.serving dir).kern = w.kern := rfl

@[simp] theorem World.serving_setResources (l : List Resource) :
    (w.serving dir).setResources l = (w.setResources l).serving dir := rfl

@[simp] theorem World.serving_after {α : Type} (c : Syscall) (r : Except Errno α × κ) :
    (w.serving dir).after c r = (w.after c r).serving dir := by
  simp only [World.after, World.serving]
  split <;> rfl

/-- **Only `fsMount` looks at the directory.** -/
theorem perform_serving (K : Kernel κ) (g : Int32) {op : Op} (h : op ≠ .mount) :
    perform K g op (w.serving dir)
      = (perform K g op w).map fun x ↦ (x.1, x.2.serving dir) := by
  cases op with
  | mount => exact absurd rfl h
  | ignored => rfl
  | unmount c => rfl
  | openDir c p =>
    simp only [perform, openDirPath, World.serving_resourceList, World.serving_kern,
      World.serving_after]
    split
    · rfl
    · split <;> rfl
  | readDir n =>
    simp only [perform, readDirNum, World.serving_openDirQueue, World.serving_kern,
      World.serving_after, World.serving_errno]
    split
    · rfl
    · split
      · rfl
      · split <;> rfl
  | closeDir c n =>
    simp only [perform, closeDirNum, World.serving_resourceList, World.serving_openDirQueue,
      World.serving_kern, World.serving_after, World.serving_errno]
    split
    · rfl
    · split <;> rfl
  | remove c p =>
    simp only [perform, removePath, World.serving_resourceList, World.serving_kern,
      World.serving_after, World.serving_errno]
    split <;> rfl
  | open_ c mode p =>
    simp only [perform, openPath, World.serving_resourceList, World.serving_kern,
      World.serving_after, World.serving_errno]
    split <;> rfl
  | close c n =>
    simp only [perform, closeFd, World.serving_resourceList, World.serving_kern,
      World.serving_after, World.serving_errno]
    split <;> rfl
  | read n count =>
    simp only [perform, readFd, World.serving_kern, World.serving_after]
    split
    · split
      · rfl
      · split <;> rfl
    · split
      · rfl
      · split <;> rfl
  | write c n count buf =>
    simp only [perform, writeFd, World.serving_resourceList, World.serving_kern,
      World.serving_after, World.serving_errno]
    split
    · rfl
    · split <;> rfl

end

theorem serve_serving (K : Kernel κ) (w : World κ) (dir : CString) {req : Request}
    (h : req.op ≠ .ok .mount) :
    serve K req (w.serving dir) = (serve K req w).map fun x ↦ (x.1, x.2.serving dir) := by
  rw [serve_eq, serve_eq]
  cases hop : req.op with
  | error f => rfl
  | ok op =>
    have hne : op ≠ .mount := fun heq ↦ h (heq ▸ hop)
    exact perform_serving w dir K req.garbage hne

/-- No request changes it. -/
theorem mountedDir_of_step {K : Kernel κ} {w w' : World κ} {e : Event} (h : serverStep K w e w') :
    w'.srv.mountedDir = w.srv.mountedDir := by
  by_cases hop : e.req.op = .ok .mount
  · have hperf := h.1
    rw [serve_of_op hop] at hperf
    rw [mountClient_world hperf]
  · -- serving the same directory is serving another one
    have hsame := serve_serving K w w.srv.mountedDir hop
    have hw : w.serving w.srv.mountedDir = w := rfl
    rw [hw, h.1] at hsame
    have hw' : w' = w'.serving w.srv.mountedDir := congrArg Prod.snd (Except.ok.inj hsame)
    rw [hw']
    rfl

/-! ## The paths that are used -/

/-- The path an event is about. -/
def Event.path? (e : Event) : Option CString := e.req.op.toOption.bind Op.path?

/-- The paths of the requests for which a call was made. -/
def usedPaths (es : List Event) : List CString :=
  (es.filter fun e ↦ e.calls ≠ []).filterMap Event.path?

/-- A step that makes a call makes it on the path of the request. -/
theorem path?_of_step {K : Kernel κ} {w w' : World κ} {e : Event} (h : serverStep K w e w') :
    e.calls.filterMap Syscall.path? = usedPaths [e] := by
  obtain ⟨hserve, hcalls⟩ := h
  obtain ⟨op, hop, hperf⟩ := op_of_serve hserve
  obtain ⟨call, hcall, hpath⟩ := calls_of_perform hperf
  have hlist : e.calls = call.toList := by
    rw [hcalls] at hcall
    exact List.append_cancel_right hcall
  have hop' : e.path? = op.path? := by
    rw [Event.path?, hop]
    rfl
  cases call with
  | none => simp [usedPaths, hlist]
  | some c =>
    have hp : c.path? = e.path? := (hpath c rfl).trans hop'.symm
    simp [usedPaths, hlist, List.filterMap_cons, hp]

theorem usedPaths_cons (e : Event) (es : List Event) :
    usedPaths (e :: es) = usedPaths [e] ++ usedPaths es := by
  rw [usedPaths, usedPaths, usedPaths, ← List.filterMap_append, ← List.filter_append,
    List.singleton_append]

/-- What a run has done with paths, and with the directory. -/
theorem paths_of_run {K : Kernel κ} {dir : CString} {k : κ} {es : List Event} {w : World κ}
    (h : ServerRun K Run.free dir k es w) :
    w.srv.mountedDir = dir ∧ w.calls.filterMap Syscall.path? = usedPaths es := by
  refine Run.invariant
    (I := fun es w ↦ w.srv.mountedDir = dir ∧ w.calls.filterMap Syscall.path? = usedPaths es)
    ⟨rfl, rfl⟩ ?_ h
  rintro es w e w' - ⟨hdir, hpaths⟩ - hstep
  refine ⟨(mountedDir_of_step hstep).trans hdir, ?_⟩
  rw [hstep.2, List.filterMap_append, path?_of_step hstep, hpaths, ← usedPaths_cons]

/-- **The server uses paths as they are requested.**  In every run: `mountedDir` stays what it was
at the start; the paths handed to `open`, `opendir` and `remove` are those of the requests for which
a call was made, one by one; so all paths used resolve to the served directory or below if and only
if the paths of these requests do; and no request but a mount is answered differently, or does
anything different, when another directory is served. -/
theorem paths_as_requested (K : Kernel κ) {dir : CString} {k : κ} {es : List Event} {w : World κ}
    (run : ServerRun K Run.free dir k es w) :
    w.srv.mountedDir = dir ∧
    w.calls.filterMap Syscall.path? = usedPaths es ∧
    ((∀ call ∈ w.calls, ∀ p, call.path? = some p → Within dir p) ↔
      ∀ e ∈ es, e.calls ≠ [] → ∀ p, e.path? = some p → Within dir p) ∧
    ∀ (req : Request) (dir' : CString), req.op ≠ .ok .mount →
      serve K req (w.serving dir') = (serve K req w).map fun x ↦ (x.1, x.2.serving dir') := by
  obtain ⟨hdir, hpaths⟩ := paths_of_run run
  refine ⟨hdir, hpaths, ?_, fun req dir' hreq ↦ serve_serving K w dir' hreq⟩
  have hcalls : (∀ call ∈ w.calls, ∀ p, call.path? = some p → Within dir p) ↔
      ∀ p ∈ w.calls.filterMap Syscall.path?, Within dir p := by
    simp only [List.mem_filterMap]
    exact ⟨fun h p ⟨call, hc, hp⟩ ↦ h call hc p hp, fun h call hc p hp ↦ h p ⟨call, hc, hp⟩⟩
  have hreqs : (∀ e ∈ es, e.calls ≠ [] → ∀ p, e.path? = some p → Within dir p) ↔
      ∀ p ∈ usedPaths es, Within dir p := by
    simp only [usedPaths, List.mem_filterMap, List.mem_filter, decide_eq_true_eq]
    exact ⟨fun h p ⟨e, ⟨he, hc⟩, hp⟩ ↦ h e he hc p hp, fun h e he hc p hp ↦ h p ⟨e, ⟨he, hc⟩, hp⟩⟩
  rw [hcalls, hreqs, hpaths]

/-- A run on one path inside and one outside. -/
theorem paths_as_requested_of_two :
    ∃ es w, ServerRun (FileSystem.kernel .lowest) Run.free (.lit "/srv") {} es w ∧
      usedPaths es = [.lit "/srv/../etc/passwd", .lit "/srv/a"] ∧
      w.calls.filterMap Syscall.path? = [.lit "/srv/../etc/passwd", .lit "/srv/a"] := by
  obtain ⟨es, w, hrun, hes⟩ := exists_run (FileSystem.kernel .lowest)
    Run.free (.lit "/srv") {}
    [.open_ 1 (.lit "/srv/a") (by decide) 1, .remove 1 (.lit "/srv/../etc/passwd") (by decide)]
    (fun es _ ↦ decide (usedPaths es = [.lit "/srv/../etc/passwd", .lit "/srv/a"])) (by decide)
  have hused := of_decide_eq_true hes
  exact ⟨es, w, hrun, hused, (paths_as_requested _ hrun).2.1.trans hused⟩

/-- The first request the server sees is an `fsOpen` of a path outside its directory, and the file
is created. -/
theorem served_outside :
    ∃ es w r w', ServerRun (FileSystem.kernel .lowest) Run.free (.lit "/srv") {} es w ∧
      ¬ Within w.srv.mountedDir (.lit "/etc/passwd") ∧
      serve (FileSystem.kernel .lowest) (.open_ 1 (.lit "/etc/passwd") (by decide) 1) w
        = .ok (r, w') ∧
      w'.calls = [.open_ (.lit "/etc/passwd") (openFlags 1)] ∧ r.int? = .ok 3 := by
  refine ⟨[], World.start (.lit "/srv") {}, _, _, .start, by decide, rfl, rfl, by decide⟩

end RemoteFs
