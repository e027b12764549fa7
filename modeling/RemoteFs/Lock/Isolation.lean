import RemoteFs.Lock.Ownership

/-!
# Who may use an open descriptor

A descriptor travels as a plain number, so the server has to look up whose it is.  `fsWrite` and
`fsClose` do; `fsRead` reads the client id from its arguments and then does not use it.

* `read_not_isolated`: a client reads through another client's descriptor.
* `descriptor_isolation`: a request on somebody else's open descriptor is refused without effect
  *unless it is a read*, in every run in which descriptors keep the entry that says whose they are.
  The invariant is `Owned`: looked up by its number, an open descriptor is its client's.

What may go wrong with the entry is said by `KeepsOwner`: a path opened again gets a descriptor and
no entry; a directory may be numbered like an open descriptor; and a failing `fsClose`, an
`fsCloseDir` or an `fsRemove` may drop the entry of a descriptor that stays open.
-/

set_option autoImplicit false

namespace RemoteFs

variable {κ : Type}

/-- The step does not take away, hide or fail to make the entry of a descriptor. -/
def KeepsOwner (K : Kernel κ) (es : List Event) (w : World κ) (e : Event) : Prop :=
  (∀ r ∈ (action K w e.req).dropped w.srv.resourceList, ∀ h ∈ openFiles es,
    h.client = r.id → h.num = r.fd → closesFd (action K w e.req).label h = true) ∧
  match action K w e.req with
  | .open_ .file _ _ p (some _) => pathEntry w.srv.resourceList p = none
  | .open_ .dir _ c p (some n) =>
    pathEntry w.srv.resourceList p = none → ∀ h ∈ openFiles es, h.num = n → h.client = c
  | _ => True

instance (K : Kernel κ) (es : List Event) (w : World κ) (e : Event) :
    Decidable (KeepsOwner K es w e) := by
  unfold KeepsOwner
  refine @instDecidableAnd _ _ inferInstance ?_
  rcases action K w e.req with _ | ⟨_ | _, _, _, _, _ | _⟩ | _ | _ | _ <;> exact inferInstance

/-- The runs `descriptor_isolation` is about. -/
def KeepsOwners (K : Kernel κ) (es : List Event) (w : World κ) (e : Event) : Prop :=
  FreshOpen K es w e ∧ KeepsOwner K es w e

instance (K : Kernel κ) (es : List Event) (w : World κ) (e : Event) :
    Decidable (KeepsOwners K es w e) := inferInstanceAs (Decidable (_ ∧ _))

/-! ## The invariant -/

/-- Looked up by its number, an open descriptor is its client's. -/
def Owned (es : List Event) (l : List Resource) : Prop :=
  ∀ h ∈ openFiles es, 0 < h.num ∧ ∃ r, fdEntry l h.num = some r ∧ r.id = h.client

theorem fdEntry_cons_self {l : List Resource} {r : Resource} (h : r.fd ≠ 0) :
    fdEntry (r :: l) r.fd = some r := by
  simp [fdEntry, h]

/-- **One step keeps descriptors owned.** -/
theorem Owned.step {K : Kernel κ} {es : List Event} {w w' : World κ} {e : Event}
    (h : Owned es w.srv.resourceList) (hkeep : KeepsOwners K es w e) (hstep : serverStep K w e w') :
    Owned (e :: es) w'.srv.resourceList := by
  obtain ⟨hfresh, hdropped, hopened⟩ := hkeep
  obtain ⟨hnext, -, hlabel⟩ := serverStep_action hstep
  rw [hnext]
  intro x hx
  rcases mem_heldFiles_cons.mp hx with ⟨hfile, hissued⟩ | ⟨hx, hstays⟩
  · -- a new descriptor: it was pushed with its number
    obtain ⟨lock, ha⟩ := Action.label_eq_issued.mp (hlabel ▸ hissued)
    rw [hfile] at ha
    obtain ⟨hpos, -⟩ := hfresh.of_action ha
    have hp : pathEntry w.srv.resourceList x.path = none := by simpa only [ha] using hopened
    refine ⟨hpos, ⟨lock, x.client, x.num, x.path⟩, ?_, rfl⟩
    rw [ha, Action.next, hp]
    exact fdEntry_cons_self (Int32.ne_of_lt hpos).symm
  · -- an old one: its entry was not dropped, and what hides it, if anything, is its client's too
    obtain ⟨hpos, r, hr, hid⟩ := h x hx
    refine ⟨hpos, ?_⟩
    rcases fdEntry_next (a := action K w e.req) hr with hdrop | hkept | hpush
    · have hends := hdropped r hdrop x hx hid.symm (fdEntry_some hr).2.2.symm
      rw [← hlabel, hstays] at hends
      cases hends
    · exact ⟨r, hkept, hid⟩
    · obtain ⟨kind, lock, c, p, num, ha, hp, hn⟩ := hpush
      cases num with
      | none =>
        rw [← hn] at hpos
        exact absurd hpos (by decide)
      | some n =>
        obtain rfl : n = x.num := hn
        cases kind with
        | file => exact absurd rfl ((hfresh.of_action ha).2 x hx)
        | dir =>
          have hc : x.client = c := by
            simp only [ha] at hopened
            exact hopened hp x hx rfl
          refine ⟨⟨lock, c, x.num, p⟩, ?_, hc.symm⟩
          rw [ha, Action.next, hp]
          exact fdEntry_cons_self (Int32.ne_of_lt hpos).symm

theorem owned_of_run {K : Kernel κ} {dir : CString} {k : κ} {es : List Event} {w : World κ}
    (h : ServerRun K (KeepsOwners K) dir k es w) : Owned es w.srv.resourceList := by
  refine Run.invariant (I := fun es w ↦ Owned es w.srv.resourceList) ?_ ?_ h
  · intro x hx
    simp [openFiles, heldFiles, held] at hx
  · intro es w e w' _ hI hkeep hstep
    exact hI.step hkeep hstep

/-! ## The theorem -/

/-- **Descriptor isolation**, for every request but a read: in a run in which descriptors keep
their entries, a request of one client on an open descriptor of another is refused without any
effect exactly when it is an `fsWrite` or an `fsClose`. -/
theorem descriptor_isolation (K : Kernel κ) {dir : CString} {k : κ} {es : List Event} {w : World κ}
    (run : ServerRun K (KeepsOwners K) dir k es w) {h : Handle} (live : h ∈ openFiles es)
    {req : Request} {op : Op} {c : Int32} (hop : req.op = .ok op) (hc : req.clientId? = some c)
    (hother : c ≠ h.client) (hfd : op.fd? = some h.num) :
    serve K req w = .ok (refusal, w) ↔ ∀ count, op ≠ .read h.num count := by
  constructor
  · rintro hserve count rfl
    exact read_not_refused hop hserve
  · intro hread
    obtain ⟨-, r, hr, hid⟩ := owned_of_run run h live
    exact refused_of_fdEntry hop hc hfd hread hr (hid ▸ hother.symm)

/-- Client 2 may not write to the descriptor of client 1. -/
theorem descriptor_isolation_after_open :
    ∃ es w, ServerRun (FileSystem.kernel .lowest) (KeepsOwners (FileSystem.kernel .lowest))
      (.lit "/srv") {} es w ∧
      serve (FileSystem.kernel .lowest) (.write 2 3 4 (.int 0)) w = .ok (refusal, w) := by
  obtain ⟨es, w, hrun, hes⟩ := exists_run (FileSystem.kernel .lowest)
    (KeepsOwners (FileSystem.kernel .lowest)) (.lit "/srv") {}
    [.open_ 1 (.lit "/srv/a") (by decide) 1]
    (fun es _ ↦ decide (⟨.file, 1, .lit "/srv/a", 3⟩ ∈ openFiles es)) (by decide)
  refine ⟨es, w, hrun, ?_⟩
  exact (descriptor_isolation _ hrun (of_decide_eq_true hes) Request.op_write
    (clientId?_of_op Request.op_write rfl) (by decide) rfl).mpr (by rintro _ ⟨⟩)

/-- Client 2 reads from a descriptor that only client 1 has been given, and is served. -/
theorem read_not_isolated :
    ∃ es w, ServerRun (FileSystem.kernel .lowest) (KeepsOwners (FileSystem.kernel .lowest))
      (.lit "/srv") {} es w ∧ (⟨.file, 1, .lit "/srv/a", 3⟩ : Handle) ∈ openFiles es ∧
      Request.clientId? (.read 2 3 4 (.int 0)) = some 2 ∧
      serve (FileSystem.kernel .lowest) (.read 2 3 4 (.int 0)) w ≠ .ok (refusal, w) := by
  obtain ⟨es, w, hrun, hes⟩ := exists_run (FileSystem.kernel .lowest)
    (KeepsOwners (FileSystem.kernel .lowest)) (.lit "/srv") {}
    [.open_ 1 (.lit "/srv/a") (by decide) 1, .close 1 3, .open_ 1 (.lit "/srv/a") (by decide) 0]
    (fun es _ ↦ decide (⟨.file, 1, .lit "/srv/a", 3⟩ ∈ openFiles es)) (by decide)
  exact ⟨es, w, hrun, of_decide_eq_true hes, by decide, read_not_refused Request.op_read⟩

end RemoteFs
