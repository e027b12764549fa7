import RemoteFs.Lock.Ownership
import RemoteFs.Server.FileSystem

/-!
# Mutual exclusion

The lock table is there so that a file is open by one client at a time.  `openOn es` are the file
handles a history leaves open: issued by a successful `fsOpen`, not closed by a successful
`fsClose`, and not left behind by a successful `fsRemove` of their path.

* `mutual_exclusion_fails`: the code does not exclude.  A client that opens a path twice and closes
  the first descriptor loses its entry, the second descriptor being recorded nowhere, and the next
  client gets in.
* `mutual_exclusion`: it does as long as nobody loses a lock in this way.  `KeepsLock` says when a
  request drops an entry without leaving a descriptor unprotected, and the invariant that carries
  the proof is `Covered`: the path of an open handle has an entry of the client that holds it.
-/

set_option autoImplicit false

namespace RemoteFs

variable {κ : Type}

/-- The file handles a history leaves open on their paths. -/
def openOn (es : List Event) : List Handle := heldFiles leavesPath es

/-- All open handles on a path belong to one client. -/
def Exclusive (es : List Event) : Prop :=
  ∀ h₁ ∈ openOn es, ∀ h₂ ∈ openOn es, h₁.path = h₂.path → h₁.client = h₂.client

/-- The request drops no entry on whose path its client keeps a handle open: what the entry's
client has open on the entry's path, the request itself ends. -/
def KeepsLock (K : Kernel κ) (es : List Event) (w : World κ) (e : Event) : Prop :=
  ∀ r ∈ (action K w e.req).dropped w.srv.resourceList, ∀ h ∈ openOn es,
    h.client = r.id → h.path = r.path → leavesPath (action K w e.req).label h = true

instance (K : Kernel κ) (es : List Event) (w : World κ) (e : Event) :
    Decidable (KeepsLock K es w e) := by
  unfold KeepsLock; infer_instance

/-! ## The invariant -/

/-- The path of every open handle has an entry of the handle's client. -/
def Covered (es : List Event) (l : List Resource) : Prop :=
  ∀ h ∈ openOn es, ∃ r ∈ l, r.path = h.path ∧ r.id = h.client

/-- After an open that got through, the path has an entry of the client. -/
theorem exists_entry_of_open {kind : Kind} {lock c : Int32} {p : CString} {num : Option Int32}
    {l : List Resource} (h : (Action.open_ kind lock c p num).Admitted l) :
    ∃ r ∈ (Action.open_ kind lock c p num).next l, r.path = p ∧ r.id = c := by
  rw [Action.next]
  cases hp : pathEntry l p with
  | none => exact ⟨⟨lock, c, num.getD (-1), p⟩, by simp, rfl, rfl⟩
  | some r =>
    obtain ⟨hr, hrp⟩ := pathEntry_some hp
    exact ⟨r, by simpa using hr, hrp, h r hp⟩

/-- **One step keeps open handles covered**, when it keeps the lock. -/
theorem Covered.step {K : Kernel κ} {es : List Event} {w w' : World κ} {e : Event}
    (h : Covered es w.srv.resourceList) (hkeep : KeepsLock K es w e) (hstep : serverStep K w e w') :
    Covered (e :: es) w'.srv.resourceList := by
  obtain ⟨hnext, hadm, hlabel⟩ := serverStep_action hstep
  rw [hnext]
  intro x hx
  rcases mem_heldFiles_cons.mp hx with ⟨-, hissued⟩ | ⟨hx, hstays⟩
  · -- the handle is new: the action is an open
    obtain ⟨lock, ha⟩ := Action.label_eq_issued.mp (hlabel ▸ hissued)
    rw [ha] at hadm ⊢
    exact exists_entry_of_open hadm
  · -- the handle was open: its entry is not the one dropped
    obtain ⟨r, hr, hpath, hid⟩ := h x hx
    rcases mem_next_or_dropped (a := action K w e.req) hr with hr | hdrop
    · exact ⟨r, hr, hpath, hid⟩
    · have hends := hkeep r hdrop x hx hid.symm hpath.symm
      rw [← hlabel, hstays] at hends
      cases hends

theorem covered_of_run {K : Kernel κ} {dir : CString} {k : κ} {es : List Event} {w : World κ}
    (h : ServerRun K (KeepsLock K) dir k es w) : Covered es w.srv.resourceList := by
  refine Run.invariant (I := fun es w ↦ Covered es w.srv.resourceList) ?_ ?_ h
  · intro x hx
    simp [openOn, heldFiles, held] at hx
  · intro es w e w' _ hI hkeep hstep
    exact hI.step hkeep hstep

/-- Covered handles on one path belong to the client of the path's one entry. -/
theorem Covered.exclusive {es : List Event} {l : List Resource} (h : Covered es l)
    (hl : PathsNodup l) : Exclusive es := by
  intro h₁ hh₁ h₂ hh₂ hpath
  obtain ⟨r₁, hr₁, hp₁, hid₁⟩ := h h₁ hh₁
  obtain ⟨r₂, hr₂, hp₂, hid₂⟩ := h h₂ hh₂
  have h₁₂ : some r₁ = some r₂ := by
    rw [← hl.pathEntry hr₁, ← hl.pathEntry hr₂, hp₁, hp₂, hpath]
  cases h₁₂
  rw [← hid₁, ← hid₂]

/-- **Mutual exclusion**, in every run in which no request drops the entry of a path its client
still has open. -/
theorem mutual_exclusion (K : Kernel κ) {dir : CString} {k : κ} {es : List Event} {w : World κ}
    (run : ServerRun K (KeepsLock K) dir k es w) : Exclusive es :=
  (covered_of_run run).exclusive (paths_nodup run)

instance (es : List Event) : Decidable (Exclusive es) := by
  unfold Exclusive; infer_instance

/-- A run on three descriptors: client 1 has two of one path, client 2 has one of another. -/
theorem mutual_exclusion_of_reopen :
    ∃ es w, ServerRun (FileSystem.kernel .lowest) (KeepsLock (FileSystem.kernel .lowest))
      (.lit "/srv") {} es w ∧ (openOn es).length = 3 ∧ Exclusive es := by
  obtain ⟨es, w, hrun, hes⟩ := exists_run (FileSystem.kernel .lowest)
    (KeepsLock (FileSystem.kernel .lowest)) (.lit "/srv") {}
    [.open_ 1 (.lit "/srv/a") (by decide) 1, .open_ 1 (.lit "/srv/a") (by decide) 1,
      .open_ 2 (.lit "/srv/b") (by decide) 1, .open_ 2 (.lit "/srv/a") (by decide) 1]
    (fun es _ ↦ decide ((openOn es).length = 3)) (by decide)
  exact ⟨es, w, hrun, of_decide_eq_true hes, mutual_exclusion _ hrun⟩

/-! ## A run that breaks it -/

/-- Client 1 opens a path twice and closes the first descriptor; client 2 opens the path and gets
in, while client 1 still has its second descriptor. -/
theorem mutual_exclusion_fails :
    ∃ es w, ServerRun (FileSystem.kernel .lowest) (FreshOpen (FileSystem.kernel .lowest))
      (.lit "/srv") {} es w ∧ ¬ Exclusive es := by
  obtain ⟨es, w, hrun, hes⟩ := exists_run (FileSystem.kernel .lowest)
    (FreshOpen (FileSystem.kernel .lowest)) (.lit "/srv") {}
    [.open_ 1 (.lit "/srv/a") (by decide) 1, .open_ 1 (.lit "/srv/a") (by decide) 1, .close 1 3,
      .open_ 2 (.lit "/srv/a") (by decide) 1]
    (fun es _ ↦ !decide (Exclusive es)) (by decide)
  exact ⟨es, w, hrun, by simpa using hes⟩

end RemoteFs
