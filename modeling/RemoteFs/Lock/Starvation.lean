import RemoteFs.Client.RoundTrip
import RemoteFs.Lock.Exclusive

/-!
# Nobody is next

A refused client asks again, and the server forgets that it has asked: the table holds what is locked and
not who waits.  So a client that keeps asking may lose every time to one that opens the path just before
and closes it just after, although the path has no entry between any two of its turns.

`Bypassed P c d p n w w'` is a run of `n` such turns.  `starvation` says that from every state in which the
path has no entry there are runs of any number of turns, for any two clients.
-/

set_option autoImplicit false

namespace RemoteFs

/-- So many times client `c` has opened the path and closed it, client `d` being refused meanwhile, and
every time the table has no entry for it afterwards. -/
inductive Bypassed (P : Policy) (c d : Int32) (p : CString) :
    ℕ → World FileSystem → World FileSystem → Prop
  | zero {w : World FileSystem} (free : pathEntry w.srv.resourceList p = none) : Bypassed P c d p 0 w w
  | succ {n : ℕ} {m : Int32} {w w₁ w₂ w₃ w₄ : World FileSystem} {e : Event}
    (before : Bypassed P c d p n w w₁) (opens : Acquires P c 1 p m w₁ w₂)
    (asks : serverStep (FileSystem.kernel P) w₂ e w₃) (request : e.req.op = .ok (.open_ d 0 p))
    (refused : e.reply = refusal) (closes : Releases P c m w₃ w₄)
    (free : pathEntry w₄.srv.resourceList p = none) : Bypassed P c d p (n + 1) w w₄

/-- What a turn needs: the path has no entry and names a file, and there is a descriptor left.  The file
may be open already, under this name or another one. -/
structure Takeable (P : Policy) (p : CString) (w : World FileSystem) : Prop where
  free : pathEntry w.srv.resourceList p = none
  file : (w.kern.fileAt p).isSome = true
  room : ∀ opened, (P.pick opened w.kern.used).isSome = true

section
variable {P : Policy} {p : CString} {w : World FileSystem} {c d : Int32}

theorem Takeable.serves (h : Takeable P p w) (hp : p.strlen < PATH_MAX) :
    ∃ n m, w.kern.Serves P p n m := by
  obtain ⟨n, hn⟩ := Option.isSome_iff_exists.mp (h.room w.kern.opens)
  obtain ⟨m, hm⟩ := Option.isSome_iff_exists.mp (h.room (w.kern.opens + 1))
  refine ⟨n, m, hp, fun es hdir ↦ ?_, hn, hm⟩
  have hfile := h.file
  simp only [FileSystem.fileAt, hdir] at hfile
  cases hfile

/-- Client `c` has just opened the path as `m`: its entry and its file are in front of what there was. -/
structure JustOpened (c : Int32) (p : CString) (m : Int32) (w w₁ : World FileSystem) : Prop where
  ne_zero : m ≠ 0
  table : w₁.srv.resourceList = ⟨1, c, m, p⟩ :: w.srv.resourceList
  file : ∃ i, w₁.kern.names.lookup p = some (.file i) ∧
    w₁.kern.files = ⟨m, .file i, 0, true⟩ :: w.kern.files
  dirFds : w₁.kern.dirFds = w.kern.dirFds

/-- A path that can be taken is opened, by anybody. -/
theorem Takeable.opens (h : Takeable P p w) (hp : p.strlen < PATH_MAX) (c : Int32) :
    ∃ m w₁, Acquires P c 1 p m w w₁ ∧ JustOpened c p m w w₁ := by
  have hlt : p.strlen + 1 < 2 ^ 31 := by
    rw [PATH_MAX] at hp
    omega
  obtain ⟨m, m', hserves⟩ := h.serves hp
  have hpos : 0 < m := P.pos hserves.first
  obtain ⟨i, fs', hopen, hname, -, hdirs, hfiles⟩ :=
    FileSystem.open_to_write hserves (show openFlags 1 ≠ 0 by decide)
  have hopen' : (FileSystem.kernel P).open_ w.kern p (openFlags 1) = _ := hopen
  obtain ⟨w₁, hperform, rfl, htable⟩ := perform_open (g := 0) (c := c) h.free hopen'
  have hserve : serve (FileSystem.kernel P) (.open_ c p hlt 1) w = .ok (.int m, w₁) :=
    (serve_of_op Request.op_open).trans hperform
  obtain ⟨calls, hstep⟩ := exists_serverStep hserve
  refine ⟨m, w₁, ⟨_, hstep, Request.op_open, (success?_int rfl).trans (if_pos (Int32.le_of_lt hpos))⟩,
    ?_, htable, ⟨i, hname, hfiles⟩, hdirs⟩
  rintro rfl
  exact absurd hpos (by decide)

section
variable {m : Int32} {w₁ : World FileSystem}

/-- Any other client is refused then. -/
theorem JustOpened.refuses (h : JustOpened c p m w w₁) (P : Policy) (hp : p.strlen < PATH_MAX)
    (hne : c ≠ d) :
    ∃ e, serverStep (FileSystem.kernel P) w₁ e w₁ ∧ e.req.op = .ok (.open_ d 0 p) ∧
      e.reply = refusal := by
  have hlt : p.strlen + 1 < 2 ^ 31 := by
    rw [PATH_MAX] at hp
    omega
  have hblocked : (Op.open_ d 0 p).blocked w₁.srv.resourceList 0 = true := by
    rw [Op.blocked, findResource_eq_pathEntry, h.table]
    exact refuses_eq_true_iff.mpr ⟨⟨1, c, m, p⟩, by simp [pathEntry], hne⟩
  have hserve : serve (FileSystem.kernel P) (.open_ d p hlt 0) w₁ = .ok (refusal, w₁) :=
    (serve_of_op Request.op_open).trans (perform_of_blocked _ hblocked)
  obtain ⟨calls, hstep⟩ := exists_serverStep hserve
  exact ⟨_, hstep, Request.op_open, rfl⟩

/-- When the client closes its descriptor, the entry and the file are gone again. -/
theorem JustOpened.closes (h : JustOpened c p m w w₁) (P : Policy) :
    ∃ w₂, Releases P c m w₁ w₂ ∧ w₂.srv.resourceList = w.srv.resourceList ∧
      w₂.kern = { w₁.kern with files := w.kern.files } := by
  obtain ⟨i, -, hfiles⟩ := h.file
  have hclose : (FileSystem.kernel P).close w₁.kern m
      = (.ok (), { w₁.kern with files := w.kern.files }) := FileSystem.close_head hfiles
  obtain ⟨w₂, hperform, hkern, htable⟩ := perform_close (g := 0) h.table h.ne_zero hclose
  have hserve : serve (FileSystem.kernel P) (.close c m) w₁ = .ok (.int 0, w₂) :=
    (serve_of_op Request.op_close).trans hperform
  obtain ⟨calls, hstep⟩ := exists_serverStep hserve
  exact ⟨w₂, ⟨_, hstep, Request.op_close⟩, htable, hkern⟩

end

/-- **One turn**, after which everything a turn needs is as it was. -/
theorem Takeable.turn {n : ℕ} {w₀ : World FileSystem} (h : Takeable P p w)
    (hbefore : Bypassed P c d p n w₀ w) (hp : p.strlen < PATH_MAX) (hne : c ≠ d) :
    ∃ w', Bypassed P c d p (n + 1) w₀ w' ∧ Takeable P p w' := by
  obtain ⟨m, w₁, hacquires, hopened⟩ := h.opens hp c
  obtain ⟨e, hasks, hop, hrefused⟩ := hopened.refuses P hp hne
  obtain ⟨w₂, hreleases, htable, hkern⟩ := hopened.closes P
  have hfree : pathEntry w₂.srv.resourceList p = none := by
    rw [htable]
    exact h.free
  refine ⟨w₂, .succ hbefore hacquires hasks hop hrefused hreleases hfree, hfree, ?_, fun opened ↦ ?_⟩
  · obtain ⟨i, hname, -⟩ := hopened.file
    have hlookup : w₂.kern.names.lookup p = some (.file i) := by
      rw [hkern]
      exact hname
    rw [FileSystem.fileAt, hlookup]
    rfl
  · have hused : w₂.kern.used = w.kern.used := by
      rw [hkern]
      exact congrArg (fun dirs ↦ w.kern.files.map OpenFile.fd ++ dirs.map Prod.snd) hopened.dirFds
    rw [hused]
    exact h.room opened

end

/-- **A client may wait for ever.**  Take any state in which a path has no entry in the table, names a file,
and there is a descriptor left; and any two clients.  Then one of them can be refused any number of times
while the other opens and closes the path, which has no entry in between. -/
theorem starvation (P : Policy) {w : World FileSystem} {p : CString}
    (hfree : pathEntry w.srv.resourceList p = none) (hfile : (w.kern.fileAt p).isSome = true)
    (hp : p.strlen < PATH_MAX) (hroom : ∀ opened, (P.pick opened w.kern.used).isSome = true)
    {c d : Int32} (hne : c ≠ d) (n : ℕ) :
    ∃ w', Bypassed P c d p n w w' := by
  have key : ∃ w', Bypassed P c d p n w w' ∧ Takeable P p w' := by
    induction n with
    | zero => exact ⟨w, .zero hfree, hfree, hfile, hroom⟩
    | succ n ih =>
      obtain ⟨w₁, hbefore, htake⟩ := ih
      exact htake.turn hbefore hp hne
  obtain ⟨w', hbypassed, -⟩ := key
  exact ⟨w', hbypassed⟩

theorem strlen_stocked : (CString.lit "/srv/a").strlen + 1 < 2 ^ 31 := by decide

/-- A file that is still open although the table has no entry for it: the same client has opened it twice
and closed the first descriptor. -/
def leftOpen : World FileSystem :=
  servedWorld stocked [.open_ 3 (.lit "/srv/a") strlen_stocked 0, .open_ 3 (.lit "/srv/a") strlen_stocked 0,
    .close 3 3]

theorem used_leftOpen : leftOpen.kern.used = [4] := by decide

/-- Client 1 goes first, a hundred times, while client 3 has the file open. -/
theorem starvation_of_two :
    leftOpen.kern.used = [4] ∧ ∃ w', Bypassed .lowest 1 2 (.lit "/srv/a") 100 leftOpen w' := by
  have hroom : ∀ opened, (Policy.lowest.pick opened leftOpen.kern.used).isSome = true := by
    intro opened
    rw [used_leftOpen]
    exact (by decide : (Policy.lowest.pick 0 [4]).isSome = true)
  exact ⟨used_leftOpen, starvation .lowest (by decide) (by decide) (by decide) hroom (by decide) 100⟩

end RemoteFs
