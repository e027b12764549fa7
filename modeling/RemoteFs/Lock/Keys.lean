import RemoteFs.Lock.Ownership

/-!
# One field for two kinds of numbers

The `fd` field of an entry is the key `find_resource` looks up, and it is filled from two sources:
`fsOpen` puts a descriptor there, `fsOpenDir` the value of the counter `open_dir_id`.  Neither knows
of the other.

* `keys_collide`: a file is open as descriptor 3 when the counter reaches 3.  The entry of the
  directory comes first, and the client that holds the descriptor is refused on it.
* `keys_distinct`: nothing else goes wrong.  As long as no descriptor is the number of a directory
  in the table and no new directory gets a number that is in use (`NumbersApart`), no two entries
  have the same positive number, and nobody is refused on a descriptor it holds.

The descriptors among themselves take care of each other: `Keyed.source` says that the number of an
entry is a directory's or that of a descriptor its client has open, so a fresh descriptor is in no
entry.
-/

set_option autoImplicit false

namespace RemoteFs

variable {κ : Type}

/-- The number of the entry was handed out for a directory, by an `fsOpenDir` of its path. -/
def DirEntry (es : List Event) (r : Resource) : Prop :=
  (⟨.dir, r.id, r.path, r.fd⟩ : Handle) ∈ held (fun _ _ ↦ false) es

instance (es : List Event) (r : Resource) : Decidable (DirEntry es r) :=
  inferInstanceAs (Decidable (_ ∈ _))

/-- The step does not use one number for a directory and something else: a descriptor is no number
of a directory's entry, and the number of a directory that gets an entry is neither that nor an
open descriptor. -/
def NumbersApart (K : Kernel κ) (es : List Event) (w : World κ) (e : Event) : Prop :=
  match action K w e.req with
  | .open_ .file _ _ _ (some n) => ∀ r ∈ w.srv.resourceList, DirEntry es r → r.fd ≠ n
  | .open_ .dir _ _ p (some n) =>
    pathEntry w.srv.resourceList p = none → 0 < n →
      (∀ r ∈ w.srv.resourceList, DirEntry es r → r.fd ≠ n) ∧ ∀ h ∈ openFiles es, h.num ≠ n
  | _ => True

instance (K : Kernel κ) (es : List Event) (w : World κ) (e : Event) :
    Decidable (NumbersApart K es w e) := by
  unfold NumbersApart
  rcases action K w e.req with _ | ⟨_ | _, _, _, _, _ | _⟩ | _ | _ | _ <;> exact inferInstance

/-- The runs `keys_distinct` is about. -/
def FreshNumbers (K : Kernel κ) (es : List Event) (w : World κ) (e : Event) : Prop :=
  FreshOpen K es w e ∧ NumbersApart K es w e

instance (K : Kernel κ) (es : List Event) (w : World κ) (e : Event) :
    Decidable (FreshNumbers K es w e) := inferInstanceAs (Decidable (_ ∧ _))

/-- No two entries have the same positive number. -/
def KeysDistinct (l : List Resource) : Prop := l.Pairwise fun r s ↦ 0 < r.fd → r.fd ≠ s.fd

instance (l : List Resource) : Decidable (KeysDistinct l) :=
  inferInstanceAs (Decidable (l.Pairwise _))

/-! ## The invariant -/

/-- What holds between the table and the open descriptors. -/
structure Keyed (es : List Event) (l : List Resource) : Prop where
  /-- Open descriptors are positive. -/
  pos : ∀ h ∈ openFiles es, 0 < h.num
  /-- Numbers are not repeated. -/
  distinct : KeysDistinct l
  /-- A positive number is a directory's, or that of a descriptor the client has open. -/
  source : ∀ r ∈ l, 0 < r.fd →
    DirEntry es r ∨ ∃ h ∈ openFiles es, h.client = r.id ∧ h.num = r.fd
  /-- An entry with the number of an open descriptor is the client's. -/
  owner : ∀ r ∈ l, ∀ h ∈ openFiles es, h.num = r.fd → r.id = h.client

theorem DirEntry.cons {e : Event} {es : List Event} {r : Resource} (h : DirEntry es r) :
    DirEntry (e :: es) r :=
  mem_held_cons.mpr (.inr ⟨h, rfl⟩)

theorem KeysDistinct.next_of_close {kind : Kind} {c n : Int32} {ok : Bool} {l : List Resource}
    {r : Resource} (h : KeysDistinct l) (hr : r ∈ (Action.close kind c n ok).next l) (hpos : 0 < n)
    (hid : r.id = c) : r.fd ≠ n := by
  have hcount : l.countP (fun r ↦ decide (n ≠ 0 ∧ r.fd = n ∧ r.id = c)) ≤ 1 := by
    refine FirstMatch.countP_le_one (h.imp fun {x y} hxy hx ↦ ?_)
    obtain ⟨-, hx, -⟩ := of_decide_eq_true hx
    simp only [decide_eq_false_iff_not]
    rintro ⟨-, hy, -⟩
    exact hxy (hx ▸ hpos) (hx.trans hy.symm)
  have hgone := FirstMatch.not_of_mem_eraseP hcount hr
  intro hfd
  simp [hfd, hid, (Int32.ne_of_lt hpos).symm] at hgone

/-- With distinct numbers, a positive number is looked up to the entry that has it. -/
theorem KeysDistinct.fdEntry {l : List Resource} (h : KeysDistinct l) {r : Resource} (hr : r ∈ l)
    (hpos : 0 < r.fd) : fdEntry l r.fd = some r := by
  induction l with
  | nil => cases hr
  | cons s l ih =>
    obtain ⟨hs, hl⟩ := List.pairwise_cons.mp h
    have hne : r.fd ≠ 0 := (Int32.ne_of_lt hpos).symm
    rcases List.mem_cons.mp hr with rfl | hr
    · simp [RemoteFs.fdEntry, hne]
    · have hsr : s.fd ≠ r.fd := fun heq ↦ hs r hr (heq ▸ hpos) heq
      simpa [RemoteFs.fdEntry, List.find?_cons, hne, hsr] using ih hl hr

theorem KeysDistinct.next {l : List Resource} (h : KeysDistinct l) {a : Action}
    (hopen : ∀ kind lock c p n, a = .open_ kind lock c p (some n) → pathEntry l p = none → 0 < n →
      ∀ r ∈ l, r.fd ≠ n) : KeysDistinct (a.next l) := by
  cases a with
  | quiet => exact h
  | unmount c => exact h
  | close kind c n ok => exact h.sublist List.eraseP_sublist
  | remove c p ok => exact h.sublist List.eraseP_sublist
  | open_ kind lock c p num =>
    rw [Action.next]
    split
    · exact h
    · rename_i hp
      refine List.pairwise_cons.mpr ⟨fun r hr hpos ↦ ?_, h⟩
      cases num with
      | none => exact absurd hpos (show ¬ (0 : Int32) < -1 by decide)
      | some n => exact (hopen kind lock c p n rfl (by simpa using hp) hpos r hr).symm

section
variable {K : Kernel κ} {es : List Event} {w w' : World κ} {e : Event}

/-- The number an open pushes is in no entry. -/
theorem Keyed.fresh {l : List Resource} (h : Keyed es l) {n : Int32} (hpos : 0 < n)
    (hdir : ∀ r ∈ l, DirEntry es r → r.fd ≠ n) (hfile : ∀ x ∈ openFiles es, x.num ≠ n) :
    ∀ r ∈ l, r.fd ≠ n := by
  rintro r hr rfl
  rcases h.source r hr hpos with hr' | ⟨x, hx, -, hnum⟩
  · exact hdir r hr hr' rfl
  · exact hfile x hx hnum

/-- Neither source hands out a number that an entry has. -/
theorem Keyed.fresh_of_open (h : Keyed es w.srv.resourceList) (hg : FreshNumbers K es w e)
    {kind : Kind} {lock c n : Int32} {p : CString}
    (ha : action K w e.req = .open_ kind lock c p (some n))
    (hpush : kind = .file ∨ pathEntry w.srv.resourceList p = none) (hpos : 0 < n) :
    (∀ r ∈ w.srv.resourceList, r.fd ≠ n) ∧ ∀ x ∈ openFiles es, x.num ≠ n := by
  obtain ⟨hfresh, happart⟩ := hg
  simp only [NumbersApart, ha] at happart
  cases kind with
  | file =>
    have hfile := (hfresh.of_action ha).2
    exact ⟨h.fresh hpos happart hfile, hfile⟩
  | dir =>
    have hp := hpush.resolve_left nofun
    obtain ⟨hdir, hfile⟩ := happart hp hpos
    exact ⟨h.fresh hpos hdir hfile, hfile⟩

/-- A descriptor that is new after a step was issued by it. -/
theorem opens_of_issued (hstep : serverStep K w e w') {x : Handle} (hkind : x.kind = .file)
    (hl : e.label = .issued x) :
    ∃ lock, action K w e.req = .open_ .file lock x.client x.path (some x.num) := by
  rw [(serverStep_action hstep).label, Action.label_eq_issued] at hl
  rwa [hkind] at hl

theorem Keyed.pos_step (h : Keyed es w.srv.resourceList) (hg : FreshNumbers K es w e)
    (hstep : serverStep K w e w') {x : Handle} (hx : x ∈ openFiles (e :: es)) : 0 < x.num := by
  rcases mem_heldFiles_cons.mp hx with ⟨hkind, hl⟩ | ⟨hx, -⟩
  · obtain ⟨lock, ha⟩ := opens_of_issued hstep hkind hl
    exact (hg.1.of_action ha).1
  · exact h.pos x hx

/-- As long as the entry of a descriptor is there, the descriptor is open: closing it would have taken
the entry along. -/
theorem Keyed.stays_open (h : Keyed es w.srv.resourceList) (hstep : serverStep K w e w')
    {r : Resource} (hold : r ∈ w.srv.resourceList)
    (hr : r ∈ (action K w e.req).next w.srv.resourceList) (hpos : 0 < r.fd) {x : Handle}
    (hx : x ∈ openFiles es) (hnum : x.num = r.fd) : x ∈ openFiles (e :: es) := by
  obtain ⟨-, hadm, hlabel⟩ := serverStep_action hstep
  refine mem_heldFiles_cons.mpr (.inr ⟨hx, Bool.eq_false_iff.mpr fun hends ↦ ?_⟩)
  obtain ⟨-, c, hl⟩ := closesFd_eq_true_iff.mp hends
  have ha := Action.label_eq_closed.mp (hlabel ▸ hl)
  rw [ha, hnum] at hr hadm
  exact h.distinct.next_of_close hr hpos (hadm r (h.distinct.fdEntry hold hpos)) rfl

theorem Keyed.source_step (h : Keyed es w.srv.resourceList) (hstep : serverStep K w e w')
    {r : Resource} (hr : r ∈ (action K w e.req).next w.srv.resourceList) (hpos : 0 < r.fd) :
    DirEntry (e :: es) r ∨ ∃ x ∈ openFiles (e :: es), x.client = r.id ∧ x.num = r.fd := by
  rcases mem_of_mem_next hr with hold | ⟨kind, lock, c, p, num, ha, -, rfl⟩
  · rcases h.source r hold hpos with hdir | ⟨x, hx, hid, hnum⟩
    · exact .inl hdir.cons
    · exact .inr ⟨x, h.stays_open hstep hold hr hpos hx hnum, hid, hnum⟩
  · cases num with
    | none => exact absurd hpos (show ¬ (0 : Int32) < -1 by decide)
    | some n =>
      have hl : e.label = .issued ⟨kind, c, p, n⟩ := by
        rw [(serverStep_action hstep).label, ha]
        rfl
      cases kind with
      | dir => exact .inl (mem_held_cons.mpr (.inl hl))
      | file => exact .inr ⟨_, mem_heldFiles_cons.mpr (.inl ⟨rfl, hl⟩), rfl, rfl⟩

theorem Keyed.owner_step (h : Keyed es w.srv.resourceList) (hg : FreshNumbers K es w e)
    (hstep : serverStep K w e w') {r : Resource}
    (hr : r ∈ (action K w e.req).next w.srv.resourceList) {x : Handle}
    (hx : x ∈ openFiles (e :: es)) (hnum : x.num = r.fd) : r.id = x.client := by
  rcases mem_heldFiles_cons.mp hx with ⟨hkind, hl⟩ | ⟨hx, -⟩
  · -- a new descriptor: no entry had its number, so the entry is the one made for it
    obtain ⟨lock, ha⟩ := opens_of_issued hstep hkind hl
    have hfresh := (h.fresh_of_open hg ha (.inl rfl) (hg.1.of_action ha).1).1
    rcases mem_of_mem_next hr with hold | ⟨kind, lock', c, p, num, ha', -, rfl⟩
    · exact absurd hnum.symm (hfresh r hold)
    · rw [ha] at ha'
      cases ha'
      rfl
  · -- an old descriptor: a new entry does not have its number
    rcases mem_of_mem_next hr with hold | ⟨kind, lock, c, p, num, ha, hp, rfl⟩
    · exact h.owner r hold x hx hnum
    · have hpos := h.pos x hx
      cases num with
      | none =>
        rw [hnum] at hpos
        exact absurd hpos (show ¬ (0 : Int32) < -1 by decide)
      | some n =>
        obtain rfl : x.num = n := hnum
        exact absurd rfl ((h.fresh_of_open hg ha (.inr hp) hpos).2 x hx)

/-- **One step keeps the numbers apart.** -/
theorem Keyed.step (h : Keyed es w.srv.resourceList) (hg : FreshNumbers K es w e)
    (hstep : serverStep K w e w') : Keyed (e :: es) w'.srv.resourceList := by
  rw [(serverStep_action hstep).next]
  constructor
  · exact fun x hx ↦ h.pos_step hg hstep hx
  · refine h.distinct.next fun kind lock c p n ha hp hpos ↦ ?_
    exact (h.fresh_of_open hg ha (.inr hp) hpos).1
  · exact fun r hr hpos ↦ h.source_step hstep hr hpos
  · exact fun r hr x hx hnum ↦ h.owner_step hg hstep hr hx hnum

end

theorem keyed_of_run {K : Kernel κ} {dir : CString} {k : κ} {es : List Event} {w : World κ}
    (h : ServerRun K (FreshNumbers K) dir k es w) : Keyed es w.srv.resourceList := by
  refine Run.invariant (I := fun es w ↦ Keyed es w.srv.resourceList) ?_ ?_ h
  · constructor
    · intro x hx
      simp [openFiles, heldFiles, held] at hx
    · exact List.Pairwise.nil
    · intro r hr
      cases hr
    · intro r hr
      cases hr
  · intro es w e w' _ hI hg hstep
    exact hI.step hg hstep

/-- **Distinct keys**, in every run in which the two sources of numbers stay apart: no two entries
have the same positive number, and a request of a client on a descriptor it has open is not
refused. -/
theorem keys_distinct (K : Kernel κ) {dir : CString} {k : κ} {es : List Event} {w : World κ}
    (run : ServerRun K (FreshNumbers K) dir k es w) :
    KeysDistinct w.srv.resourceList ∧
    ∀ h ∈ openFiles es, ∀ (req : Request) (op : Op), req.op = .ok op → op.fd? = some h.num →
      req.clientId? = some h.client → serve K req w ≠ .ok (refusal, w) := by
  have hkeyed := keyed_of_run run
  refine ⟨hkeyed.distinct, fun h hh req op hop hfd hc ↦ ?_⟩
  refine not_refused_of_fdEntry hop hc hfd fun r hr ↦ ?_
  obtain ⟨hmem, -, hnum⟩ := fdEntry_some hr
  exact hkeyed.owner r hmem h hh hnum.symm

/-! ## Runs -/

/-- A file system with two directories. -/
def twoDirs : FileSystem := { names := [(.lit "/srv/d", .dir []), (.lit "/srv/e", .dir [])] }

/-- A directory and a file with an entry each. -/
theorem keys_distinct_of_two :
    ∃ es w, ServerRun (FileSystem.kernel .lowest) (FreshNumbers (FileSystem.kernel .lowest))
      (.lit "/srv") twoDirs es w ∧ w.srv.resourceList.map Resource.fd = [2, 3] ∧
      KeysDistinct w.srv.resourceList := by
  obtain ⟨es, w, hrun, hw⟩ := exists_run (FileSystem.kernel .lowest)
    (FreshNumbers (FileSystem.kernel .lowest)) (.lit "/srv") twoDirs
    [.open_ 2 (.lit "/srv/a") (by decide) 1, .openDir 1 (.lit "/srv/d") (by decide)]
    (fun _ w ↦ decide (w.srv.resourceList.map Resource.fd = [2, 3])) (by decide)
  exact ⟨es, w, hrun, of_decide_eq_true hw, (keys_distinct _ hrun).1⟩

/-- Client 2 has a file open as descriptor 3, client 1 opens two directories, and the second one is
numbered 3: client 2 can no longer close its file. -/
theorem keys_collide :
    ∃ es w, ServerRun (FileSystem.kernel .lowest) (FreshOpen (FileSystem.kernel .lowest))
      (.lit "/srv") twoDirs es w ∧ ¬ KeysDistinct w.srv.resourceList ∧
      (⟨.file, 2, .lit "/srv/a", 3⟩ : Handle) ∈ openFiles es ∧
      serve (FileSystem.kernel .lowest) (.close 2 3) w = .ok (refusal, w) := by
  obtain ⟨es, w, hrun, hw⟩ := exists_run (FileSystem.kernel .lowest)
    (FreshOpen (FileSystem.kernel .lowest)) (.lit "/srv") twoDirs
    [.open_ 2 (.lit "/srv/a") (by decide) 1, .openDir 1 (.lit "/srv/d") (by decide),
      .openDir 1 (.lit "/srv/e") (by decide)]
    (fun es w ↦ !decide (KeysDistinct w.srv.resourceList) &&
      (decide (⟨.file, 2, .lit "/srv/a", 3⟩ ∈ openFiles es) &&
      (Op.close 2 3).blocked w.srv.resourceList 0)) (by decide)
  obtain ⟨hcollide, hopen, hblocked⟩ : ¬ _ ∧ _ ∈ _ ∧ _ := by simpa using hw
  refine ⟨es, w, hrun, hcollide, hopen, ?_⟩
  rw [serve_of_op Request.op_close]
  exact perform_of_blocked _ hblocked

end RemoteFs
