import RemoteFs.Dir.Step
import RemoteFs.Server.FileSystem

/-!
# The life cycle of directory streams

A `DIR *` may be passed to `readdir` and `closedir` from the `opendir` that returned it to the first
`closedir`, and not after that.  `Kernel.traced` is a kernel that remembers what is done to its
streams and behaves as before (`perform_traced`, `exists_traced_run`), and `Use.WellUsed` is what its
memory should be.

* `closed_dir_reused`: `fsCloseDir` leaves the node of the number it closes in `open_dir_queue`, so
  a second `fsCloseDir` passes the freed pointer to `closedir`.
* `dir_life_cycle`: streams are well used in every run in which nobody names a closed number, unless
  the lock check of `fsCloseDir` turns the request away.  The invariant is `DirsOk`: the numbers
  that are open denote open streams, and different ones different streams.
-/

set_option autoImplicit false

namespace RemoteFs

variable {κ : Type}

/-- The kernel with a memory of what was done to the streams, newest first. -/
def Kernel.traced (K : Kernel κ) : Kernel (κ × List (Use Dir)) where
  open_ s p flags := ((K.open_ s.1 p flags).1, (K.open_ s.1 p flags).2, s.2)
  close s fd := ((K.close s.1 fd).1, (K.close s.1 fd).2, s.2)
  read s fd count := ((K.read s.1 fd count).1, (K.read s.1 fd count).2, s.2)
  write s fd data := ((K.write s.1 fd data).1, (K.write s.1 fd data).2, s.2)
  remove s p := ((K.remove s.1 p).1, (K.remove s.1 p).2, s.2)
  opendir s p :=
    ((K.opendir s.1 p).1, (K.opendir s.1 p).2,
      (K.opendir s.1 p).1.toOption.toList.map .opened ++ s.2)
  readdir s d := ((K.readdir s.1 d).1, (K.readdir s.1 d).2, .used d :: s.2)
  closedir s d := ((K.closedir s.1 d).1, (K.closedir s.1 d).2, .closed d :: s.2)

/-- What was done to the streams. -/
abbrev World.streamUses (w : World (κ × List (Use Dir))) : List (Use Dir) := w.kern.2

/-! ## The memory changes nothing -/

/-- The world without the memory. -/
def World.forget (w : World (κ × List (Use Dir))) : World κ := ⟨w.srv, w.kern.1, w.calls⟩

section
variable (w : World (κ × List (Use Dir)))

@[simp] theorem World.forget_srv : w.forget.srv = w.srv := rfl

@[simp] theorem World.forget_kern : w.forget.kern = w.kern.1 := rfl

@[simp] theorem World.forget_calls : w.forget.calls = w.calls := rfl

@[simp] theorem World.forget_setResources (l : List Resource) :
    (w.setResources l).forget = w.forget.setResources l := rfl

@[simp] theorem World.forget_after {α : Type} (c : Syscall)
    (r : Except Errno α × κ × List (Use Dir)) :
    (w.after c r).forget = w.forget.after c (r.1, r.2.1) := rfl

/-- **A traced kernel answers like the kernel it traces.** -/
theorem perform_traced (K : Kernel κ) (g : Int32) (op : Op) :
    perform K g op w.forget = (perform K.traced g op w).map fun x ↦ (x.1, x.2.forget) := by
  obtain ⟨srv, ⟨kern, uses⟩, calls⟩ := w
  cases op with
  | ignored | unmount => rfl
  | mount =>
    dsimp only [perform, mountClient, World.forget]
    split <;> rfl
  | openDir c p =>
    dsimp only [perform, openDirPath, World.forget, Kernel.traced]
    split
    · rfl
    · split <;> rfl
  | readDir n =>
    dsimp only [perform, readDirNum, World.forget, Kernel.traced, World.after]
    split
    · rfl
    · split
      · rfl
      · split <;> rfl
  | closeDir c n =>
    dsimp only [perform, closeDirNum, World.forget, Kernel.traced]
    split
    · rfl
    · split <;> rfl
  | remove c p =>
    dsimp only [perform, removePath, World.forget, Kernel.traced]
    split <;> rfl
  | open_ c mode p =>
    dsimp only [perform, openPath, World.forget, Kernel.traced]
    split <;> rfl
  | close c n =>
    dsimp only [perform, closeFd, World.forget, Kernel.traced]
    split <;> rfl
  | read n count =>
    dsimp only [perform, readFd, World.forget, Kernel.traced]
    split
    · rfl
    · split <;> rfl
  | write c n count buf =>
    dsimp only [perform, writeFd, World.forget, Kernel.traced]
    split
    · rfl
    · split <;> rfl

end

/-- So every run is the run of a traced kernel, its memory forgotten. -/
theorem exists_traced_run {K : Kernel κ} {dir : CString} {k : κ} {es : List Event} {w : World κ}
    (run : ServerRun K Run.free dir k es w) :
    ∃ w', ServerRun K.traced Run.free dir (k, []) es w' ∧ w'.forget = w := by
  refine Run.invariant (I := fun es w ↦
    ∃ w', ServerRun K.traced Run.free dir (k, []) es w' ∧ w'.forget = w) ?_ ?_ run
  · exact ⟨World.start dir (k, []), .start, rfl⟩
  · rintro es _ e w₁ - ⟨w', run', rfl⟩ - ⟨hserve, hcalls⟩
    obtain ⟨op, hop, hperf⟩ := op_of_serve hserve
    rw [perform_traced] at hperf
    cases htraced : perform K.traced e.req.garbage op w' with
    | error f =>
      rw [htraced] at hperf
      cases hperf
    | ok x =>
      obtain ⟨r, x⟩ := x
      rw [htraced] at hperf
      obtain ⟨rfl, rfl⟩ : r = e.reply ∧ x.forget = w₁ := by simpa [Except.map] using hperf
      exact ⟨x, .next run' trivial ⟨(serve_of_op hop).trans htraced, hcalls⟩, rfl⟩

/-! ## The condition -/

/-- The stream an operation gets when it opens a directory. -/
def Kernel.opens (K : Kernel κ) (k : κ) : Op → Option Dir
  | .openDir _ p => (K.opendir k p).1.toOption
  | _ => none

/-- What `opendir` promises: the stream it returns is not open already. -/
def FreshDir (K : Kernel κ) (_es : List Event) (w : World (κ × List (Use Dir))) (e : Event) : Prop :=
  ∀ op ∈ e.req.op.toOption, ∀ d ∈ K.opens w.kern.1 op, d ∉ Use.inUse w.streamUses

instance (K : Kernel κ) (es : List Event) (w : World (κ × List (Use Dir))) (e : Event) :
    Decidable (FreshDir K es w e) := by
  unfold FreshDir
  refine @Option.decidableForallMem _ _ (fun op ↦ ?_) _
  exact @Option.decidableForallMem _ _ (fun d ↦ inferInstance) _

/-- The request does not name a number that has been closed, or is turned away. -/
def NamesNoClosed (es : List Event) (w : World (κ × List (Use Dir))) (e : Event) : Prop :=
  ∀ op ∈ e.req.op.toOption, ∀ n ∈ op.dirNum?,
    op.blocked w.srv.resourceList e.req.garbage = true ∨ n ∉ Use.gone (handleUses es)

instance (es : List Event) (w : World (κ × List (Use Dir))) (e : Event) :
    Decidable (NamesNoClosed es w e) := by
  unfold NamesNoClosed
  refine @Option.decidableForallMem _ _ (fun op ↦ ?_) _
  exact @Option.decidableForallMem _ _ (fun n ↦ inferInstance) _

/-- The runs `dir_life_cycle` is about. -/
def UsesOpenDirs (K : Kernel κ) (es : List Event) (w : World (κ × List (Use Dir))) (e : Event) :
    Prop :=
  FreshDir K es w e ∧ NamesNoClosed es w e

instance (K : Kernel κ) (es : List Event) (w : World (κ × List (Use Dir))) (e : Event) :
    Decidable (UsesOpenDirs K es w e) := inferInstanceAs (Decidable (_ ∧ _))

theorem FreshDir.of_opendir {K : Kernel κ} {es : List Event} {w : World (κ × List (Use Dir))}
    {e : Event} {c : Int32} {p : CString} {d : Dir} (h : FreshDir K es w e)
    (hop : e.req.op = .ok (.openDir c p)) (hd : (K.opendir w.kern.1 p).1 = .ok d) :
    d ∉ Use.inUse w.streamUses := by
  refine h (.openDir c p) ?_ d ?_
  · rw [hop]
    rfl
  · rw [Kernel.opens, hd]
    rfl

theorem NamesNoClosed.of_op {es : List Event} {w : World (κ × List (Use Dir))} {e : Event}
    {op : Op} {n : Int32} (h : NamesNoClosed es w e) (hop : e.req.op = .ok op)
    (hn : op.dirNum? = some n) (hadm : op.blocked w.srv.resourceList e.req.garbage = false) :
    n ∉ Use.gone (handleUses es) := by
  have hor := h op (by rw [hop]; rfl) n hn
  exact hor.resolve_left (by rw [hadm]; exact Bool.false_ne_true)

/-! ## The invariant -/

/-- The three records of what is open agree: the numbers the server has handed out, its queue, and
the streams of the kernel. -/
structure DirsOk (es : List Event) (w : World (κ × List (Use Dir))) : Prop where
  /-- Open numbers denote open streams, and different ones different streams. -/
  apart : Apart w.dirOf (Use.inUse (handleUses es)) (· ∈ Use.inUse w.streamUses)
  /-- What is in the queue was opened. -/
  known : ∀ {n d}, w.dirOf n = some d → Use.opened n ∈ handleUses es
  wellUsed : Use.WellUsed w.streamUses

/-- Something else was done, and the streams were left alone. -/
theorem DirsOk.of_same {es : List Event} {w w' : World (κ × List (Use Dir))} {e : Event}
    (h : DirsOk es w) (huse : e.handleUse? = none) (hsame : SameDirs w w')
    (hstreams : w'.streamUses = w.streamUses) : DirsOk (e :: es) w' := by
  have huses := handleUses_of_none huse es
  refine ⟨?_, ?_, ?_⟩
  · rw [huses, hsame.dirOf, hstreams]
    exact h.apart
  · rw [huses, hsame.dirOf]
    exact h.known
  · rw [hstreams]
    exact h.wellUsed

/-- The operations on other things do not touch the streams. -/
theorem streamUses_of_performed {K : Kernel κ} {w w' : World (κ × List (Use Dir))} {op : Op}
    {r : ReturnType} (h : Performed K.traced w op r w') (hdir : op.onDir = false) :
    w'.streamUses = w.streamUses := by
  cases h with
  | ignored | unmount => rfl
  | mount h => rw [mountClient_world h]
  | read h => rw [readFd_world h]; rfl
  | write h => rw [writeFd_world h]; rfl
  | open_ | close | remove => rfl
  | readDir | noDir | openDir | closeDir => cases hdir

/-- A number that is in the queue and has not been closed is open, and so is its stream. -/
theorem DirsOk.stream_inUse {es : List Event} {w : World (κ × List (Use Dir))} {n : Int32} {d : Dir}
    (h : DirsOk es w) (hd : w.dirOf n = some d) (hn : n ∉ Use.gone (handleUses es)) :
    n ∈ Use.inUse (handleUses es) ∧ d ∈ Use.inUse w.streamUses := by
  have hlive := (Use.mem_inUse_or_gone (h.known hd)).resolve_right hn
  obtain ⟨d', hd', huse⟩ := h.apart.found n hlive
  rw [hd, Option.some_inj] at hd'
  exact ⟨hlive, hd' ▸ huse⟩

/-- **One step keeps the records in agreement.** -/
theorem DirsOk.step {K : Kernel κ} {es : List Event} {w w' : World (κ × List (Use Dir))} {e : Event}
    (h : DirsOk es w) (hguard : UsesOpenDirs K es w e) (hstep : serverStep K.traced w e w') :
    DirsOk (e :: es) w' := by
  obtain ⟨hfresh, hnames⟩ := hguard
  cases dirStep hstep with
  | @opened c p d hop huse _ hcall _ hqueue =>
    have hopendir : (K.opendir w.kern.1 p).1 = .ok d := congrArg Prod.fst hcall
    have hstreams : w'.streamUses = .opened d :: w.streamUses := by
      rw [World.streamUses, ← congrArg (fun x ↦ x.2.2) hcall]
      show (K.opendir w.kern.1 p).1.toOption.toList.map Use.opened ++ w.kern.2 = _
      rw [hopendir]
      rfl
    have huses := handleUses_of_some huse es
    refine ⟨?_, ?_, ?_⟩
    · rw [huses, hstreams]
      exact h.apart.opened (hfresh.of_opendir hop hopendir) (dirOf_cons_self hqueue)
        (fun m hm ↦ dirOf_cons_of_ne hqueue hm) List.mem_cons_self
        fun r hr ↦ List.mem_cons_of_mem _ hr
    · intro n d' hd'
      rw [huses]
      by_cases hn : n = w.srv.openDirId + 1
      · rw [hn]
        exact List.mem_cons_self
      · rw [dirOf_cons_of_ne hqueue hn] at hd'
        exact List.mem_cons_of_mem _ (h.known hd')
    · rw [hstreams]
      exact h.wellUsed
  | @notOpened c p x hop huse hcall hsame =>
    refine h.of_same huse hsame ?_
    have hopendir : (K.opendir w.kern.1 p).1 = .error x := congrArg Prod.fst hcall
    rw [World.streamUses, ← congrArg (fun x ↦ x.2.2) hcall]
    show (K.opendir w.kern.1 p).1.toOption.toList.map Use.opened ++ w.kern.2 = _
    rw [hopendir]
    rfl
  | @read n d hop huse hd _ hkern hsame =>
    have hopen := h.stream_inUse hd (hnames.of_op hop rfl rfl)
    have hstreams : w'.streamUses = .used d :: w.streamUses := by rw [World.streamUses, hkern]; rfl
    have huses := handleUses_of_some huse es
    refine ⟨?_, ?_, ?_⟩
    · rw [huses, hsame.dirOf, hstreams]
      exact h.apart
    · rw [huses, hsame.dirOf]
      exact fun hd' ↦ List.mem_cons_of_mem _ (h.known hd')
    · rw [hstreams]
      exact ⟨hopen.2, h.wellUsed⟩
  | @closed c n d hop hadm huse hd hkern hsame =>
    have hopen := h.stream_inUse hd (hnames.of_op hop rfl hadm)
    have hstreams : w'.streamUses = .closed d :: w.streamUses := by
      rw [World.streamUses, hkern]
      rfl
    have huses := handleUses_of_some huse es
    refine ⟨?_, ?_, ?_⟩
    · rw [huses, hsame.dirOf, hstreams]
      exact h.apart.closed hopen.1 hd fun r hr huse ↦ Use.mem_inUse_closed.mpr ⟨huse, hr⟩
    · rw [huses, hsame.dirOf]
      exact fun hd' ↦ List.mem_cons_of_mem _ (h.known hd')
    · rw [hstreams]
      exact ⟨hopen.2, h.wellUsed⟩
  | refused hop hadm huse hreply heq =>
    rw [heq]
    exact h.of_same huse ⟨rfl, rfl⟩ rfl
  | other hop hdir huse hperf hsame =>
    exact h.of_same huse hsame (streamUses_of_performed hperf hdir)

theorem dirsOk_of_run {K : Kernel κ} {dir : CString} {k : κ} {es : List Event}
    {w : World (κ × List (Use Dir))} (run : ServerRun K.traced (UsesOpenDirs K) dir (k, []) es w) :
    DirsOk es w := by
  refine Run.invariant ?_ (fun _ hI hguard hstep ↦ hI.step hguard hstep) run
  exact ⟨.nil, nofun, trivial⟩

/-! ## The theorem -/

/-- Among the requests that may be made, those that name a closed number are refused. -/
theorem refused_of_closed {K : Kernel κ} {es : List Event} {w w' : World (κ × List (Use Dir))}
    {e : Event} (hnames : NamesNoClosed es w e) (hstep : serverStep K.traced w e w') {op : Op}
    {n : Int32} (hop : e.req.op = .ok op) (hn : op.dirNum? = some n)
    (hgone : n ∈ Use.gone (handleUses es)) : e.reply = refusal := by
  have hblocked : op.blocked w.srv.resourceList e.req.garbage = true := by
    by_contra hadm
    exact hnames.of_op hop hn (by simpa using hadm) hgone
  have hserve := hstep.1
  rw [serve_of_op hop, perform_of_blocked _ hblocked] at hserve
  exact (congrArg Prod.fst (Except.ok.inj hserve)).symm

/-- **The life cycle of directory streams**, in every run in which no request names a closed number
unless it is turned away: every stream that is passed to `readdir` or `closedir` was returned by
`opendir` and has not been passed to `closedir` since, and every request that names a closed number
is answered with an error. -/
theorem dir_life_cycle (K : Kernel κ) {dir : CString} {k : κ} {es : List Event}
    {w : World (κ × List (Use Dir))} (run : ServerRun K.traced (UsesOpenDirs K) dir (k, []) es w) :
    Use.WellUsed w.streamUses ∧
      ∀ (e : Event) (earlier : List Event), e :: earlier <:+ es →
        ∀ (op : Op) (n : Int32), e.req.op = .ok op → op.dirNum? = some n →
          n ∈ Use.gone (handleUses earlier) → ∃ r : Int32, r < 0 ∧ e.reply = .int r := by
  refine ⟨(dirsOk_of_run run).wellUsed, fun e earlier hmem ↦ ?_⟩
  refine Run.forall_events (P := fun earlier e ↦ ∀ (op : Op) (n : Int32), e.req.op = .ok op →
    op.dirNum? = some n → n ∈ Use.gone (handleUses earlier) →
      ∃ r : Int32, r < 0 ∧ e.reply = .int r) ?_ run hmem
  intro es w e w' _ hguard hstep op n hop hn hgone
  exact ⟨-EAGAIN, by decide, refused_of_closed hguard.2 hstep hop hn hgone⟩

/-- A file system with one directory, which is empty. -/
def oneDirectory : FileSystem := { names := [(.lit "/srv/d", .dir [])] }

/-- Client 1 opens a directory, reads it to the end and closes it, and client 2 opens it again. -/
theorem dir_life_cycle_of_reopen :
    ∃ es w, ServerRun (FileSystem.kernel .lowest).traced (UsesOpenDirs (FileSystem.kernel .lowest))
      (.lit "/srv") (oneDirectory, []) es w ∧
      w.streamUses = [.opened 1, .closed 0, .used 0, .opened 0] ∧ Use.WellUsed w.streamUses := by
  obtain ⟨es, w, hrun, hes⟩ := exists_run (FileSystem.kernel .lowest).traced
    (UsesOpenDirs (FileSystem.kernel .lowest)) (.lit "/srv") (oneDirectory, [])
    [.openDir 1 (.lit "/srv/d") (by decide), .readDir 1 2, .closeDir 1 2 0,
      .openDir 1 (.lit "/srv/d") (by decide)]
    (fun _ w ↦ decide (w.streamUses = [.opened 1, .closed 0, .used 0, .opened 0]))
    (by decide)
  exact ⟨es, w, hrun, of_decide_eq_true hes, (dir_life_cycle _ hrun).1⟩

/-- Client 1 opens a directory and closes it twice. -/
theorem closed_dir_reused :
    ∃ es w, ServerRun (FileSystem.kernel .lowest).traced (FreshDir (FileSystem.kernel .lowest))
      (.lit "/srv") (oneDirectory, []) es w ∧
      w.streamUses = [.closed 0, .closed 0, .opened 0] ∧ ¬ Use.WellUsed w.streamUses := by
  obtain ⟨es, w, hrun, hes⟩ := exists_run (FileSystem.kernel .lowest).traced
    (FreshDir (FileSystem.kernel .lowest)) (.lit "/srv") (oneDirectory, [])
    [.openDir 1 (.lit "/srv/d") (by decide), .closeDir 1 2 0, .closeDir 1 2 0]
    (fun _ w ↦ decide (w.streamUses = [.closed 0, .closed 0, .opened 0])) (by decide)
  have huses := of_decide_eq_true hes
  exact ⟨es, w, hrun, huses, by rw [huses]; decide⟩

end RemoteFs
