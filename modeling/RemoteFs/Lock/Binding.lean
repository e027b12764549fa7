import RemoteFs.Lock.Ownership

/-!
# Which handle an entry is for

Every later request on a handle is looked up by the number in the `fd` field, so an open had better
leave the number it returns there.  For a path its client holds already, `fsOpen` and `fsOpenDir`
push the new entry at the head of the list and then remove "the old one": the first entry of the
client with that path.  That is the new one.

* `reopen_keeps_old_handle`: the table goes on showing the descriptor of the first open.
* `open_binds_lock`: an open that succeeds leaves its own entry, and no other for the path, if and
  only if the path had no entry before, or had this very one.
-/

set_option autoImplicit false

namespace RemoteFs

variable {κ : Type}

/-- `r` is the one entry of its path. -/
def Bound (l : List Resource) (r : Resource) : Prop :=
  (l.filter fun s ↦ decide (s.path = r.path)) = [r]

instance (l : List Resource) (r : Resource) : Decidable (Bound l r) :=
  inferInstanceAs (Decidable (_ = _))

/-- The request is an open that succeeds; `r` is the entry for the handle it returns.  The number
of a directory may be any `int`, and what tells it from a refusal is that a call was made. -/
inductive Opens (K : Kernel κ) (req : Request) (w w' : World κ) : Resource → Prop
  | file {c mode fd : Int32} {p : CString} (hop : req.op = .ok (.open_ c mode p))
      (h : serve K req w = .ok (.int fd, w')) (hfd : 0 ≤ fd) : Opens K req w w' ⟨mode, c, fd, p⟩
  | dir {c n : Int32} {p : CString} (hop : req.op = .ok (.openDir c p))
      (h : serve K req w = .ok (.int n, w')) (hcall : w'.calls ≠ w.calls) :
    Opens K req w w' ⟨1, c, n, p⟩

/-- An open of a path has nothing to replace: the path has no entry, or one that says already what
the new one would, about the number that the kernel or the counter has for it. -/
def OpensAnew (K : Kernel κ) (w : World κ) (req : Request) : Prop :=
  match action K w req with
  | .open_ _ lock c p (some n) => ∀ old ∈ w.srv.resourceList, old.path = p → old = ⟨lock, c, n, p⟩
  | _ => True

section
variable {K : Kernel κ} {req : Request} {w w' : World κ} {r : Resource}

/-- A request that opens shows its handle. -/
theorem Opens.issued (h : Opens K req w w' r) :
    ∃ e kind, e.req = req ∧ serverStep K w e w' ∧ e.label = .issued ⟨kind, r.id, r.path, r.fd⟩ := by
  cases h with
  | @file c mode fd p hop h hfd =>
    obtain ⟨calls, hstep⟩ := exists_serverStep h
    refine ⟨_, .file, rfl, hstep, ?_⟩
    have hs : Event.success? ⟨req, calls, .int fd⟩ = some fd := by
      rw [success?_int rfl, if_pos hfd]
    simp only [Event.label, hop, hs]
  | @dir c n p hop h hcall =>
    obtain ⟨calls, hstep⟩ := exists_serverStep h
    refine ⟨_, .dir, rfl, hstep, ?_⟩
    have hne : calls ≠ [] := by
      rintro rfl
      exact hcall hstep.2
    simp only [Event.label, hop, if_neg hne, ReturnType.int?_int]

/-- And it is an open of the table. -/
theorem Opens.action_eq (h : Opens K req w w' r) :
    ∃ kind, action K w req = .open_ kind r.lockType r.id r.path (some r.fd) := by
  obtain ⟨e, kind, rfl, hstep, hlabel⟩ := h.issued
  rw [(serverStep_action hstep).label] at hlabel
  obtain ⟨lock, ha⟩ := Action.label_eq_issued.mp hlabel
  refine ⟨kind, ha.trans ?_⟩
  -- the lock type is the one the request asks for
  have hlock : lock = r.lockType := by
    cases h with
    | file hop _ _ =>
      rw [action_of_op hop] at ha
      split at ha
      · cases ha
      · obtain ⟨-, hmode, -⟩ := Action.open_.inj ha
        exact hmode.symm
    | dir hop _ _ =>
      rw [action_of_op hop, Op.action] at ha
      split at ha
      · cases ha
      · split at ha
        · obtain ⟨-, hone, -⟩ := Action.open_.inj ha
          exact hone.symm
        · cases ha
  rw [hlock]

/-- **An open that succeeds** pushes its entry if the path has none. -/
theorem Opens.resourceList (h : Opens K req w w' r) :
    w'.srv.resourceList =
      if (pathEntry w.srv.resourceList r.path).isSome then w.srv.resourceList
      else r :: w.srv.resourceList := by
  obtain ⟨kind, ha⟩ := h.action_eq
  obtain ⟨e, -, rfl, hstep, -⟩ := h.issued
  rw [(serverStep_action hstep).next, ha]
  rfl

/-- With one entry for each path, the entry of a path is the one it is bound to. -/
theorem PathsNodup.filter_eq {l : List Resource} (h : PathsNodup l) {s : Resource} (hs : s ∈ l) :
    Bound l s := by
  induction l with
  | nil => cases hs
  | cons t l ih =>
    obtain ⟨ht, hl⟩ := List.nodup_cons.mp h
    rw [Bound, List.filter_cons]
    rcases List.mem_cons.mp hs with rfl | hs
    · rw [if_pos (decide_eq_true rfl), List.cons.injEq, List.filter_eq_nil_iff]
      refine ⟨rfl, fun x hx hpath ↦ ht ?_⟩
      rw [← of_decide_eq_true hpath]
      exact List.mem_map_of_mem hx
    · have hne : t.path ≠ s.path := fun heq ↦ ht (heq ▸ List.mem_map_of_mem hs)
      rw [if_neg (by simpa using hne)]
      exact ih hl hs

end

/-- **When an open binds the lock to its handle.**  In every state a run reaches, an open that
succeeds leaves exactly one entry for its path, with its client, the number it returns and the mode
it was asked for, if and only if the path had no entry before, or had that very one. -/
theorem open_binds_lock (K : Kernel κ) {dir : CString} {k : κ} {es : List Event} {w : World κ}
    (run : ServerRun K Run.free dir k es w) {req : Request} {w' : World κ} {r : Resource}
    (h : Opens K req w w' r) :
    Bound w'.srv.resourceList r ↔ OpensAnew K w req := by
  have hnodup := paths_nodup run
  have hanew : OpensAnew K w req ↔
      ∀ old ∈ w.srv.resourceList, old.path = r.path → old = r := by
    obtain ⟨kind, ha⟩ := h.action_eq
    rw [OpensAnew, ha]
  rw [hanew]
  rw [h.resourceList]
  cases hp : pathEntry w.srv.resourceList r.path with
  | none =>
    have hnone := pathEntry_eq_none_iff.mp hp
    have hrest : (w.srv.resourceList.filter fun s ↦ decide (s.path = r.path)) = [] := by
      rw [List.filter_eq_nil_iff]
      exact fun s hs hpath ↦ hnone s hs (of_decide_eq_true hpath)
    refine iff_of_true ?_ fun old hold hpath ↦ absurd hpath (hnone old hold)
    rw [if_neg (by simp), Bound, List.filter_cons, if_pos (decide_eq_true rfl), hrest]
  | some s =>
    -- the entry pushed has been removed again, and `s` is still there
    obtain ⟨hs, hpath⟩ := pathEntry_some hp
    have hbound : Bound w.srv.resourceList s := hnodup.filter_eq hs
    rw [Option.isSome_some, if_pos rfl, Bound, ← hpath, hbound, List.cons.injEq, and_iff_left rfl]
    constructor
    · rintro rfl old hold hold'
      have hentry := hnodup.pathEntry hold
      rw [hold', hnodup.pathEntry hs] at hentry
      exact (Option.some.inj hentry).symm
    · intro hall
      exact hall s hs rfl

/-- Client 1 opens a file that it has closed before, for reading this time. -/
theorem open_binds_lock_after_close :
    ∃ es w w', ServerRun (FileSystem.kernel .lowest) Run.free (.lit "/srv") {} es w ∧
      Opens (FileSystem.kernel .lowest) (.open_ 1 (.lit "/srv/a") (by decide) 0) w w'
        ⟨0, 1, 4, .lit "/srv/a"⟩ ∧
      Bound w'.srv.resourceList ⟨0, 1, 4, .lit "/srv/a"⟩ := by
  obtain ⟨es, w, w', hrun, hserve, hw⟩ := exists_run_serve (FileSystem.kernel .lowest) Run.free
    (.lit "/srv") {}
    [.open_ 1 (.lit "/srv/a") (by decide) 1, .open_ 2 (.lit "/srv/b") (by decide) 1, .close 2 4,
      .close 1 3, .open_ 2 (.lit "/srv/b") (by decide) 1]
    (.open_ 1 (.lit "/srv/a") (by decide) 0) (.int 4)
    (fun w _ ↦ decide (∀ r ∈ w.srv.resourceList, r.path ≠ .lit "/srv/a")) (by decide)
  have hnone : ∀ r ∈ w.srv.resourceList, r.path ≠ .lit "/srv/a" := of_decide_eq_true hw
  have hopens : Opens (FileSystem.kernel .lowest) (.open_ 1 (.lit "/srv/a") (by decide) 0) w w'
      ⟨0, 1, 4, .lit "/srv/a"⟩ := .file Request.op_open hserve (by decide)
  obtain ⟨kind, ha⟩ := hopens.action_eq
  have hanew :
      OpensAnew (FileSystem.kernel .lowest) w (.open_ 1 (.lit "/srv/a") (by decide) 0) := by
    rw [OpensAnew, ha]
    exact fun old hold hpath ↦ absurd hpath (hnone old hold)
  exact ⟨es, w, w', hrun, hopens, (open_binds_lock _ hrun hopens).mpr hanew⟩

/-- Client 1 opens a file again, and the table goes on showing its first descriptor. -/
theorem reopen_keeps_old_handle :
    ∃ es w w', ServerRun (FileSystem.kernel .lowest) Run.free (.lit "/srv") {} es w ∧
      Opens (FileSystem.kernel .lowest) (.open_ 1 (.lit "/srv/a") (by decide) 1) w w'
        ⟨1, 1, 4, .lit "/srv/a"⟩ ∧
      w'.srv.resourceList = [⟨1, 1, 3, .lit "/srv/a"⟩] ∧
      ¬ Bound w'.srv.resourceList ⟨1, 1, 4, .lit "/srv/a"⟩ := by
  obtain ⟨es, w, w', hrun, hserve, hw⟩ := exists_run_serve (FileSystem.kernel .lowest) Run.free
    (.lit "/srv") {} [.open_ 1 (.lit "/srv/a") (by decide) 1]
    (.open_ 1 (.lit "/srv/a") (by decide) 1) (.int 4)
    (fun _ w' ↦ decide (w'.srv.resourceList = [⟨1, 1, 3, .lit "/srv/a"⟩])) (by decide)
  have htable := of_decide_eq_true hw
  refine ⟨es, w, w', hrun, .file Request.op_open hserve (by decide), htable, ?_⟩
  rw [htable]
  decide

end RemoteFs
