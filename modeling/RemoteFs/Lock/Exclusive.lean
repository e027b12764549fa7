import RemoteFs.Lock.Isolation
import RemoteFs.Server.Inodes

/-!
# What the lock is for

The table is there so that one client at a time uses a file.  Here a client opens a path that nobody
holds, whose file nobody else has open and that has no other name (`Idle`), and keeps the descriptor while
any other clients make requests.  The file system is a concrete one, with any policy of choosing
descriptors.

* `write_session`: the file contains what was there before, overwritten from the start by what this
  client wrote, one piece after the other, and by nothing else.
* `read_session`: the file stays as it was, and the pieces that reads of the descriptor return are
  consecutive.  It does not matter who reads: `fsRead` does not ask, but each byte is handed out once.
* `handover`: what one client has written is what the next one reads.

Both kinds of session end, with the client's own close, in a state in which a session may begin.

The invariant is `Holding`, which joins the entry in the table to the way that leads to the file.
What everybody has to refrain from is `KeepsOpen`.  The client itself does not take its entry away and does
not open the file again; and no directory, whoever opens it, is given the number of the descriptor, since
the two kinds of numbers are looked up in one table.  The others may ask for anything else.  But the limits
of the file system apply: that nobody writes the path in another way, and that nobody has the server close
one of its own descriptors, from `0` to `2`, cannot be seen here and is taken for granted.
-/

set_option autoImplicit false

namespace RemoteFs

open FileSystem (overwrite)

/-! ## Sessions -/

/-- Nobody holds the path, nobody has its file open, and the file has no other name. -/
structure Idle (w : World FileSystem) (p : CString) : Prop where
  free : pathEntry w.srv.resourceList p = none
  unshared : w.kern.Unshared p

/-- Client `c` keeps its descriptor `n` for `p`, and does nothing else to that path; and nobody opens a
directory that is numbered `n`. -/
def KeepsOpen (c : Int32) (p : CString) (n : Int32) (_ : List Event) (w : World FileSystem)
    (e : Event) : Prop :=
  match e.req.op with
  | .ok (.open_ d _ q) | .ok (.remove d q) => d = c → q ≠ p
  | .ok (.close d m) | .ok (.closeDir d m) => d = c → m ≠ n
  | .ok (.openDir _ _) => w.srv.openDirId + 1 ≠ n
  | _ => True

instance (c : Int32) (p : CString) (n : Int32) (es : List Event) (w : World FileSystem) (e : Event) :
    Decidable (KeepsOpen c p n es w e) := by
  unfold KeepsOpen
  rcases e.req.op with _ | (_ | _ | _ | _ | _ | _ | _ | _ | _ | _ | _) <;> exact inferInstance

/-- What a request of client `c` writes to `n`. -/
def Event.written (c n : Int32) (e : Event) : Bytes :=
  match e.req.op with
  | .ok (.write d m count buf) => if d = c ∧ m = n then buf.take (sizeT count) else []
  | _ => []

/-- What is handed out of `n`: the bytes of a reply to `fsRead` after the `int`. -/
def Event.handed (n : Int32) (e : Event) : Bytes :=
  match e.req.op with
  | .ok (.read m _) => if m = n then (e.reply.returnVal.getD []).drop 4 else []
  | _ => []

/-- A read of `n` finds nothing more. -/
def Event.AtEnd (n : Int32) (e : Event) : Prop :=
  ∃ count, e.req.op = .ok (.read n count) ∧ 0 < count ∧ e.handed n = []

/-- Everything client `c` writes to `n` in a history, oldest first. -/
def written (c n : Int32) (es : List Event) : Bytes := (es.reverse.map (Event.written c n)).flatten

/-- Everything handed out of `n` in a history, oldest first. -/
def handed (n : Int32) (es : List Event) : Bytes := (es.reverse.map (Event.handed n)).flatten

theorem written_cons (c n : Int32) (e : Event) (es : List Event) :
    written c n (e :: es) = written c n es ++ e.written c n := by
  simp [written]

theorem handed_cons (n : Int32) (e : Event) (es : List Event) :
    handed n (e :: es) = handed n es ++ e.handed n := by
  simp [handed]

/-! ## Writing in pieces -/

/-- Writing where the last call stopped is writing more. -/
theorem overwrite_append (old : Bytes) (offset : ℕ) (a b : Bytes) :
    overwrite (overwrite old offset a) (offset + a.length) b = overwrite old offset (a ++ b) := by
  have hlen : (old.take offset ++ List.replicate (offset - old.length) 0 ++ a).length
      = offset + a.length := by
    simp only [List.length_append, List.length_take, List.length_replicate]
    omega
  have htake : (overwrite old offset a).take (offset + a.length)
      = old.take offset ++ List.replicate (offset - old.length) 0 ++ a := by
    rw [FileSystem.overwrite, ← hlen, List.take_left]
  have hdrop : (overwrite old offset a).drop (offset + a.length + b.length)
      = old.drop (offset + (a ++ b).length) := by
    rw [FileSystem.overwrite, ← List.drop_drop, ← hlen, List.drop_left, hlen, List.drop_drop,
      List.length_append, Nat.add_assoc]
  have hfill : offset + a.length - (overwrite old offset a).length = 0 := by
    rw [FileSystem.overwrite, List.length_append, hlen]
    omega
  rw [FileSystem.overwrite, htake, hdrop, hfill, List.replicate_zero, List.append_nil,
    List.append_assoc _ a b]
  rfl

/-- Writing nothing within a file changes nothing. -/
theorem overwrite_nil {old : Bytes} {offset : ℕ} (h : offset ≤ old.length) :
    overwrite old offset [] = old := by
  simp [FileSystem.overwrite, Nat.sub_eq_zero_of_le h]

theorem le_length_overwrite (old : Bytes) (offset : ℕ) (data : Bytes) :
    offset + data.length ≤ (overwrite old offset data).length := by
  simp only [FileSystem.overwrite, List.length_append, List.length_take, List.length_replicate]
  omega

/-! ## The invariant -/

/-- Client `c` holds `p` through descriptor `n`, the only way to a file that contains `data`, at
`offset`. -/
structure Holding (c : Int32) (p : CString) (n : Int32) (i : ℕ) (writable : Bool) (offset : ℕ)
    (data : Bytes) (w : World FileSystem) : Prop where
  pos : 0 < n
  nodup : PathsNodup w.srv.resourceList
  entry : ∃ lock, fdEntry w.srv.resourceList n = some ⟨lock, c, n, p⟩
  leads : w.kern.Leads p i data (some ⟨n, .file i, offset, writable⟩)
  within : offset ≤ data.length

section
variable {P : Policy} {c n : Int32} {p : CString} {i offset : ℕ} {writable : Bool} {data : Bytes}
  {w w' : World FileSystem} {e : Event} {es : List Event}

/-- The entry of the path is the client's. -/
theorem Holding.own (h : Holding c p n i writable offset data w) :
    ∃ r, pathEntry w.srv.resourceList p = some r ∧ r.id = c := by
  obtain ⟨lock, hentry⟩ := h.entry
  exact ⟨_, h.nodup.pathEntry (fdEntry_some hentry).1, rfl⟩

/-- Only the client itself passes the lock check of the path. -/
theorem Holding.eq_of_path (h : Holding c p n i writable offset data w) {d : Int32}
    (hb : refuses (findResource w.srv.resourceList d 0 (some p)) d = false) : d = c := by
  obtain ⟨r, hr, hid⟩ := h.own
  rw [findResource_eq_pathEntry] at hb
  exact (refuses_eq_false_iff.mp hb r hr).symm.trans hid

/-- Only the client itself passes the lock check of the descriptor, and it does. -/
theorem Holding.refuses_fd_iff (h : Holding c p n i writable offset data w) {d : Int32} :
    refuses (findResource w.srv.resourceList d n none) d = false ↔ d = c := by
  obtain ⟨lock, hentry⟩ := h.entry
  rw [findResource_eq_fdEntry, hentry, refuses_eq_false_iff]
  constructor
  · exact fun hid ↦ (hid _ rfl).symm
  · rintro rfl _ ⟨⟩
    rfl

/-- **What gets past the lock**: what is done elsewhere, what the client itself writes, and reads. -/
theorem Holding.admitted (h : Holding c p n i writable offset data w) {op : Op} {g : Int32}
    (hop : e.req.op = .ok op) (hkeeps : KeepsOpen c p n es w e)
    (hb : op.blocked w.srv.resourceList g = false) :
    op.Elsewhere p (some n) ∨ (∃ count buf, op = .write c n count buf) ∨
      ∃ count, op = .read n count := by
  simp only [KeepsOpen, hop] at hkeeps
  cases op with
  | open_ d mode q =>
    left
    rintro rfl
    exact hkeeps (h.eq_of_path hb) rfl
  | remove d q =>
    left
    rintro rfl
    exact hkeeps (h.eq_of_path hb) rfl
  | close d m =>
    left
    rintro ⟨⟩
    exact hkeeps (h.refuses_fd_iff.mp hb) rfl
  | write d m count buf =>
    by_cases hm : m = n
    · subst hm
      obtain rfl := h.refuses_fd_iff.mp hb
      exact .inr (.inl ⟨count, buf, rfl⟩)
    · exact .inl fun heq ↦ hm (Option.some.inj heq).symm
  | read m count =>
    by_cases hm : m = n
    · subst hm
      exact .inr (.inr ⟨count, rfl⟩)
    · exact .inl fun heq ↦ hm (Option.some.inj heq).symm
  | ignored | mount | unmount | openDir | readDir | closeDir => exact .inl trivial

/-! ### One step -/

/-- The entry of the descriptor is dropped by nobody, and no other gets its number. -/
theorem Holding.entry_step (h : Holding c p n i writable offset data w)
    (hkeeps : KeepsOpen c p n es w e) (hstep : serverStep (FileSystem.kernel P) w e w') :
    ∃ lock, fdEntry w'.srv.resourceList n = some ⟨lock, c, n, p⟩ := by
  obtain ⟨lock, hentry⟩ := h.entry
  refine ⟨lock, ?_⟩
  rw [(serverStep_action hstep).next]
  obtain ⟨op, hop, ⟨hb, rfl⟩ | ⟨hb, -⟩⟩ := performed_of_serverStep hstep
  · rw [action_of_op hop, if_pos hb]
    exact hentry
  rw [action_of_op hop, if_neg (by simpa using hb)]
  simp only [KeepsOpen, hop] at hkeeps
  rcases fdEntry_next (a := op.action (FileSystem.kernel P) w) hentry with
    hdrop | hkept | ⟨kind, lock', d, q, num, ha, -, hnum⟩
  · -- it is dropped only by the client's own close or removal
    exfalso
    cases op with
    | close d m =>
      have hfound := List.find?_some hdrop
      simp only [decide_eq_true_eq] at hfound
      exact hkeeps hfound.2.2.symm hfound.2.1.symm
    | closeDir d m =>
      rw [Op.action] at hdrop
      split at hdrop
      · have hfound := List.find?_some hdrop
        simp only [decide_eq_true_eq] at hfound
        exact hkeeps hfound.2.2.symm hfound.2.1.symm
      · cases hdrop
    | remove d q =>
      have hfound := List.find?_some hdrop
      simp only [decide_eq_true_eq] at hfound
      exact hkeeps hfound.2.symm hfound.1.symm
    | openDir d q =>
      rw [Op.action] at hdrop
      split at hdrop <;> cases hdrop
    | unmount d => cases d <;> cases hdrop
    | ignored | mount | open_ | readDir | read | write => cases hdrop
  · exact hkept
  · -- a new entry has another number
    exfalso
    cases op with
    | open_ d mode q =>
      obtain ⟨-, -, -, -, hopened⟩ := Action.open_.inj ha
      cases hres : (w.kern.open_ P q (openFlags mode)).1 with
      | error x =>
        rw [show ((FileSystem.kernel P).open_ w.kern q (openFlags mode)).1 = .error x from hres]
          at hopened
        rw [← hopened] at hnum
        obtain rfl : (-1 : Int32) = n := hnum
        exact absurd h.pos (by decide)
      | ok fd =>
        rw [show ((FileSystem.kernel P).open_ w.kern q (openFlags mode)).1 = .ok fd from hres]
          at hopened
        obtain rfl : fd.1 = n := by rw [← hnum, ← hopened]; rfl
        obtain ⟨hfile, -⟩ := h.leads.opened _ rfl
        exact (FileSystem.open_pos hres).2 (FileSystem.mem_used (FileSystem.mem_of_file? hfile).1)
    | openDir d q =>
      rw [Op.action] at ha
      split at ha
      · obtain ⟨-, -, -, -, hopened⟩ := Action.open_.inj ha
        rw [← hopened] at hnum
        exact hkeeps hnum
      · cases ha
    | closeDir d m =>
      rw [Op.action] at ha
      split at ha <;> cases ha
    | unmount d => cases d <;> cases ha
    | ignored | mount | close | remove | readDir | read | write => cases ha

/-- The table is as it should be after a step; what is left is the file. -/
theorem Holding.next (h : Holding c p n i writable offset data w)
    (hkeeps : KeepsOpen c p n es w e) (hstep : serverStep (FileSystem.kernel P) w e w')
    {offset' : ℕ} {data' : Bytes}
    (hleads : w'.kern.Leads p i data' (some ⟨n, .file i, offset', writable⟩))
    (hwithin : offset' ≤ data'.length) : Holding c p n i writable offset' data' w' where
  pos := h.pos
  nodup := by
    rw [(serverStep_action hstep).next]
    exact h.nodup.next _
  entry := h.entry_step hkeeps hstep
  leads := hleads
  within := hwithin

/-- What is neither written to the descriptor nor read from it. -/
theorem Event.written_eq_nil {op : Op} (hop : e.req.op = .ok op)
    (h : ∀ count buf, op ≠ .write c n count buf) : e.written c n = [] := by
  rw [Event.written, hop]
  cases op with
  | write d m count buf =>
    refine if_neg ?_
    rintro ⟨rfl, rfl⟩
    exact h count buf rfl
  | _ => rfl

theorem Event.handed_eq_nil {op : Op} (hop : e.req.op = .ok op)
    (h : ∀ count, op ≠ .read n count) : e.handed n = [] := by
  rw [Event.handed, hop]
  cases op with
  | read m count =>
    refine if_neg ?_
    rintro rfl
    exact h count rfl
  | _ => rfl

theorem Op.Elsewhere.ne_write {op : Op} (h : op.Elsewhere p (some n)) (count : Int32) (buf : Bytes) :
    op ≠ .write c n count buf := by
  rintro rfl
  exact h rfl

theorem Op.Elsewhere.ne_read {op : Op} (h : op.Elsewhere p (some n)) (count : Int32) :
    op ≠ .read n count := by
  rintro rfl
  exact h rfl

/-- **A step of a writing session**: what the client writes comes after what it has written. -/
theorem Holding.step_write (h : Holding c p n i true offset data w)
    (hkeeps : KeepsOpen c p n es w e) (hstep : serverStep (FileSystem.kernel P) w e w') :
    Holding c p n i true (offset + (e.written c n).length) (overwrite data offset (e.written c n))
      w' := by
  -- what writes nothing leaves the file as it is
  have hquiet (hnil : e.written c n = [])
      (hleads : w'.kern.Leads p i data (some ⟨n, .file i, offset, true⟩)) :
      Holding c p n i true (offset + (e.written c n).length)
        (overwrite data offset (e.written c n)) w' := by
    rw [hnil, overwrite_nil h.within]
    exact h.next hkeeps hstep hleads h.within
  obtain ⟨op, hop, ⟨hb, rfl⟩ | ⟨hb, hperformed⟩⟩ := performed_of_serverStep hstep
  · refine hquiet (Event.written_eq_nil hop ?_) h.leads
    rintro count buf rfl
    rw [Op.blocked, h.refuses_fd_iff.mpr rfl] at hb
    cases hb
  · have hkern := hperformed.kern
    rcases h.admitted hop hkeeps hb with helse | ⟨count, buf, rfl⟩ | ⟨count, rfl⟩
    · refine hquiet (Event.written_eq_nil hop helse.ne_write) ?_
      rw [hkern]
      exact h.leads.kern helse
    · obtain ⟨fs', hwrite, hleads⟩ := h.leads.write_self rfl (buf.take (sizeT count))
      have hwritten : e.written c n = buf.take (sizeT count) := by
        simp [Event.written, hop]
      have hfs : w'.kern = fs' := hkern.trans (congrArg Prod.snd hwrite)
      rw [hwritten]
      exact h.next hkeeps hstep (hfs ▸ hleads) (le_length_overwrite _ _ _)
    · refine hquiet (Event.written_eq_nil hop (by rintro _ _ ⟨⟩)) ?_
      have hfs : w'.kern = w.kern :=
        hkern.trans (congrArg Prod.snd (h.leads.read_of_writable rfl (sizeT count)))
      rw [hfs]
      exact h.leads

/-- The reply to a read: the `int` and the bytes. -/
theorem readFd_reply {κ : Type} {K : Kernel κ} {w w' : World κ} {count : Int32} {r : ReturnType}
    {bs : Bytes} {hbs : bs.length ≤ sizeT count} {k : κ}
    (hread : K.read w.kern n (sizeT count) = (.ok ⟨bs, hbs⟩, k))
    (h : readFd K n count w = .ok (r, w')) : (r.returnVal.getD []).drop 4 = bs := by
  simp only [readFd, hread] at h
  split at h
  · cases h
  · split at h
    · cases h
    · cases h
      exact List.drop_left' (length_intBytes _)

theorem sizeT_pos {count : Int32} (h : 0 < count) : 0 < sizeT count := by
  have hlt := Int32.toInt_lt count
  rw [Int32.lt_iff_toInt_lt, Int32.toInt_zero] at h
  rw [sizeT]
  omega

/-- **A step of a reading session**: what is handed out comes after what has been handed out, and
only at the end there is nothing. -/
theorem Holding.step_read (h : Holding c p n i false offset data w)
    (hkeeps : KeepsOpen c p n es w e) (hstep : serverStep (FileSystem.kernel P) w e w') :
    Holding c p n i false (offset + (e.handed n).length) data w' ∧
      e.handed n = (data.drop offset).take (e.handed n).length ∧
      (e.AtEnd n → data.length ≤ offset) := by
  have hquiet (hread : ∀ {op}, e.req.op = .ok op → ∀ count, op ≠ .read n count)
      (hleads : w'.kern.Leads p i data (some ⟨n, .file i, offset, false⟩)) :
      Holding c p n i false (offset + (e.handed n).length) data w' ∧
        e.handed n = (data.drop offset).take (e.handed n).length ∧
        (e.AtEnd n → data.length ≤ offset) := by
    obtain ⟨op, hop, -⟩ := op_of_serve hstep.1
    rw [Event.handed_eq_nil hop (hread hop)]
    refine ⟨h.next hkeeps hstep hleads h.within, List.take_zero.symm, ?_⟩
    rintro ⟨count, hop', -⟩
    exact absurd rfl (hread hop' count)
  obtain ⟨op, hop, ⟨hb, rfl⟩ | ⟨hb, hperformed⟩⟩ := performed_of_serverStep hstep
  · refine hquiet (fun hop' count ↦ ?_) h.leads
    cases hop.symm.trans hop'
    rintro rfl
    cases hb
  · have hkern := hperformed.kern
    rcases h.admitted hop hkeeps hb with helse | ⟨count, buf, rfl⟩ | ⟨count, rfl⟩
    · refine hquiet (fun hop' ↦ ?_) ?_
      · cases hop.symm.trans hop'
        exact helse.ne_read
      rw [hkern]
      exact h.leads.kern helse
    · refine hquiet (fun hop' ↦ ?_) ?_
      · cases hop.symm.trans hop'
        rintro _ ⟨⟩
      have hfs : w'.kern = w.kern :=
        hkern.trans (congrArg Prod.snd (h.leads.write_of_readable rfl (buf.take (sizeT count))))
      rw [hfs]
      exact h.leads
    · obtain ⟨fs', hread, hleads⟩ := h.leads.read_self rfl (sizeT count)
      have hhanded : e.handed n = (data.drop offset).take (sizeT count) := by
        generalize hr : e.reply = r at hperformed
        rcases hperformed with _ | _ | _ | _ | hserved
        rw [Event.handed, hop, hr]
        exact (if_pos rfl).trans (readFd_reply (K := FileSystem.kernel P) hread hserved)
      have hfs : w'.kern = fs' := hkern.trans (congrArg Prod.snd hread)
      rw [hhanded]
      refine ⟨h.next hkeeps hstep (hfs ▸ hleads) ?_, ?_, ?_⟩
      · have hwithin := h.within
        simp only [List.length_take, List.length_drop]
        omega
      · rw [List.length_take, ← List.take_take, List.take_length]
      · rintro ⟨count', hop', hcount, hnil⟩
        cases hop.symm.trans hop'
        rw [hhanded, List.take_eq_nil_iff] at hnil
        exact List.drop_eq_nil_iff.mp (hnil.resolve_left (Nat.ne_of_gt (sizeT_pos hcount)))

/-! ### Whole sessions -/

/-- In the world `w`, client `c` opens `p` and is given `n`. -/
def Acquires (P : Policy) (c mode : Int32) (p : CString) (n : Int32) (w w' : World FileSystem) : Prop :=
  ∃ e, serverStep (FileSystem.kernel P) w e w' ∧ e.req.op = .ok (.open_ c mode p) ∧
    e.success? = some n

theorem openFlags_ne_zero_iff (mode : Int32) : openFlags mode ≠ 0 ↔ mode ≠ 0 := by
  rw [openFlags]
  split
  · rename_i h
    simp [h, O_RDONLY]
  · rename_i h
    exact iff_of_true (by decide) h

/-- **A session begins.** -/
theorem Idle.opens (hidle : Idle w p) (hwf : w.kern.WellFormed)
    (hnodup : PathsNodup w.srv.resourceList) {mode : Int32}
    (hfile : mode ≠ 0 ∨ (w.kern.fileAt p).isSome = true) (hopen : Acquires P c mode p n w w') :
    ∃ i, Holding c p n i (decide (mode ≠ 0)) 0 ((w.kern.fileAt p).getD []) w' := by
  obtain ⟨e, hstep, hop, hn⟩ := hopen
  have hadm : refuses (pathEntry w.srv.resourceList p) c = false := by rw [hidle.free]; rfl
  have hserve := hstep.1
  rw [serve_of_op hop, perform, openPath_of_admitted _ w hadm, Except.ok.injEq,
    Prod.mk.injEq] at hserve
  obtain ⟨hreply, hworld⟩ := hserve
  rw [success?_outcome (fun fd : Fd ↦ fd.2) hreply.symm] at hn
  obtain ⟨fd, hfd, rfl⟩ := Option.map_eq_some_iff.mp hn
  have hres : (w.kern.open_ P p (openFlags mode)).1 = .ok fd := by
    cases hx : (w.kern.open_ P p (openFlags mode)).1 with
    | error x =>
      rw [show ((FileSystem.kernel P).open_ w.kern p (openFlags mode)).1 = .error x from hx] at hfd
      cases hfd
    | ok fd' =>
      rw [show ((FileSystem.kernel P).open_ w.kern p (openFlags mode)).1 = .ok fd' from hx] at hfd
      cases hfd
      rfl
  obtain ⟨i, hleads⟩ := hidle.unshared.open_ hwf
    (hfile.imp_left (openFlags_ne_zero_iff mode).mpr) hres
  have hpos := (FileSystem.open_pos hres).1
  have hlist : w'.srv.resourceList = ⟨mode, c, fd.1, p⟩ :: w.srv.resourceList := by
    rw [← hworld, World.setResources_resourceList, Op.action, Action.next, hidle.free, hn]
    rfl
  refine ⟨i, hpos, ?_, ⟨mode, ?_⟩, ?_, Nat.zero_le _⟩
  · rw [(serverStep_action hstep).next]
    exact hnodup.next _
  · rw [hlist]
    exact fdEntry_cons_self (Int32.ne_of_lt hpos).symm
  · simp only [openFlags_ne_zero_iff] at hleads
    rw [← hworld]
    exact hleads

/-- A writing session, from the first step to the last. -/
theorem Holding.write_run {w₁ : World FileSystem} (h : Holding c p n i true 0 data w₁)
    (hrun : Run (serverStep (FileSystem.kernel P)) (KeepsOpen c p n) w₁ es w) :
    Holding c p n i true (written c n es).length (overwrite data 0 (written c n es)) w := by
  refine Run.invariant (I := fun es w ↦
    Holding c p n i true (written c n es).length (overwrite data 0 (written c n es)) w) ?_ ?_ hrun
  · rw [show written c n [] = [] from rfl, overwrite_nil (Nat.zero_le _)]
    exact h
  · intro es w e w' _ hI hkeeps hstep
    have hnext := hI.step_write hkeeps hstep
    have happ := overwrite_append data 0 (written c n es) (e.written c n)
    rw [Nat.zero_add] at happ
    rw [written_cons, List.length_append, ← happ]
    exact hnext

/-- Part of the data has been handed out, and all of it once a read has found nothing more. -/
structure ReadSoFar (n : Int32) (data : Bytes) (es : List Event) : Prop where
  prefixed : handed n es <+: data
  complete : (∃ e ∈ es, e.AtEnd n) → handed n es = data

theorem ReadSoFar.next (h : ReadSoFar n data es)
    (hslice : e.handed n
      = (data.drop (handed n es).length).take (e.handed n).length)
    (hend : e.AtEnd n → data.length ≤ (handed n es).length) : ReadSoFar n data (e :: es) := by
  have htake : handed n (e :: es) = data.take (handed n (e :: es)).length := by
    rw [handed_cons, List.length_append, List.take_add, ← hslice,
      ← List.prefix_iff_eq_take.mp h.prefixed]
  refine ⟨List.prefix_iff_eq_take.mpr htake, ?_⟩
  rintro ⟨e', he', hatEnd⟩
  -- no more than everything can be handed out
  have hfull : data.length ≤ (handed n es).length := by
    rcases List.mem_cons.mp he' with rfl | he'
    · exact hend hatEnd
    · exact Nat.le_of_eq (congrArg List.length (h.complete ⟨e', he', hatEnd⟩).symm)
  rw [htake, List.take_of_length_le]
  rw [handed_cons, List.length_append]
  exact Nat.le_trans hfull (Nat.le_add_right _ _)

/-- A reading session, from the first step to the last. -/
theorem Holding.read_run {w₁ : World FileSystem} (h : Holding c p n i false 0 data w₁)
    (hrun : Run (serverStep (FileSystem.kernel P)) (KeepsOpen c p n) w₁ es w) :
    Holding c p n i false (handed n es).length data w ∧ ReadSoFar n data es := by
  refine Run.invariant (I := fun es w ↦ Holding c p n i false (handed n es).length data w ∧
    ReadSoFar n data es) ?_ ?_ hrun
  · exact ⟨h, List.nil_prefix, by simp⟩
  · rintro es w e w' - ⟨hI, hread⟩ hkeeps hstep
    obtain ⟨hnext, hslice, hend⟩ := hI.step_read hkeeps hstep
    refine ⟨?_, hread.next hslice hend⟩
    rw [handed_cons, List.length_append]
    exact hnext

/-- **A session ends**: the client closes its descriptor, and nobody holds the path. -/
theorem Holding.closes (h : Holding c p n i writable offset data w)
    (hstep : serverStep (FileSystem.kernel P) w e w') (hop : e.req.op = .ok (.close c n)) :
    e.success? = some 0 ∧ pathEntry w'.srv.resourceList p = none ∧ w'.kern.Leads p i data none := by
  have hadm : refuses (fdEntry w.srv.resourceList n) c = false := by
    rw [← findResource_eq_fdEntry w.srv.resourceList c]
    exact h.refuses_fd_iff.mpr rfl
  obtain ⟨fs', hclose, hleads⟩ := h.leads.close_self
  have hserve := hstep.1
  rw [serve_of_op hop, perform, closeFd_of_admitted _ w hadm, Except.ok.injEq,
    Prod.mk.injEq] at hserve
  obtain ⟨hreply, hworld⟩ := hserve
  have hres : (FileSystem.kernel P).close w.kern n = (.ok (), fs') := hclose
  refine ⟨?_, ?_, ?_⟩
  · rw [success?_outcome (fun _ : Unit ↦ by decide) hreply.symm, hres]
    rfl
  · obtain ⟨lock, hentry⟩ := h.entry
    rw [← hworld, World.setResources_resourceList, Op.action, Action.next]
    obtain ⟨pre, post, hlist, herase⟩ :=
      FirstMatch.eraseP_of_find? hentry (c := fun r ↦ decide (r.id = c)) (by simp)
    have hpred : (fun r : Resource ↦ decide (n ≠ 0 ∧ r.fd = n ∧ r.id = c))
        = fun r ↦ decide (n ≠ 0 ∧ r.fd = n) && decide (r.id = c) := by
      funext r
      simp only [← Bool.decide_and, and_assoc]
    rw [hpred, herase, pathEntry_eq_none_iff]
    have hnodup := h.nodup
    rw [hlist, PathsNodup, List.map_append, List.map_cons, List.nodup_middle,
      List.nodup_cons, ← List.map_append] at hnodup
    rintro r hr rfl
    exact hnodup.1 (List.mem_map.mpr ⟨r, hr, rfl⟩)
  · rw [← hworld]
    show ((FileSystem.kernel P).close w.kern n).2.Leads p i data none
    rw [hres]
    exact hleads

/-! ### Between sessions -/

/-- In the world `w`, client `c` closes `n`. -/
def Releases (P : Policy) (c n : Int32) (w w' : World FileSystem) : Prop :=
  ∃ e, serverStep (FileSystem.kernel P) w e w' ∧ e.req.op = .ok (.close c n)

theorem Holding.closed (h : Holding c p n i writable offset data w) (hclose : Releases P c n w w') :
    Idle w' p ∧ w'.kern.fileAt p = some data := by
  obtain ⟨e, hstep, hop⟩ := hclose
  obtain ⟨-, hfree, hleads⟩ := h.closes hstep hop
  exact ⟨⟨hfree, hleads.unshared⟩, hleads.fileAt⟩

end

section
variable (P : Policy) {dir p : CString} {k : FileSystem} {es later : List Event}
  {w₀ w₁ w : World FileSystem} {c n : Int32}

/-- **A writer is alone.**  Whatever other clients ask for, within `KeepsOpen`, while client `c` has an idle
path open to write, the file of the path contains what it contained before, overwritten from the start by
what `c` has written, in order; and after `c` has closed it the path is idle again. -/
theorem write_session (hk : k.WellFormed)
    (run : ServerRun (FileSystem.kernel P) Run.free dir k es w₀) (hidle : Idle w₀ p) {mode : Int32}
    (hmode : mode ≠ 0) (hopen : Acquires P c mode p n w₀ w₁)
    (hrun : Run (serverStep (FileSystem.kernel P)) (KeepsOpen c p n) w₁ later w) :
    w.kern.fileAt p = some (overwrite ((w₀.kern.fileAt p).getD []) 0 (written c n later)) ∧
      ∀ w', Releases P c n w w' → Idle w' p ∧ w'.kern.fileAt p = w.kern.fileAt p := by
  obtain ⟨i, h⟩ := hidle.opens (FileSystem.wellFormed_of_run hk run) (paths_nodup run)
    (.inl hmode) hopen
  rw [decide_eq_true hmode] at h
  have hend := h.write_run hrun
  refine ⟨hend.leads.fileAt, fun w' hclose ↦ ?_⟩
  rw [hend.leads.fileAt]
  exact hend.closed hclose

/-- **A reader sees one file.**  Whatever other clients ask for, within `KeepsOpen`, while client `c` has an
idle path open to read, the file of the path stays as it was, and what is handed out of the descriptor, put
together, is a prefix of it, and all of it once a read has found nothing more; and after `c` has closed
it the path is idle again. -/
theorem read_session (hk : k.WellFormed)
    (run : ServerRun (FileSystem.kernel P) Run.free dir k es w₀) (hidle : Idle w₀ p) {data : Bytes}
    (hdata : w₀.kern.fileAt p = some data) (hopen : Acquires P c 0 p n w₀ w₁)
    (hrun : Run (serverStep (FileSystem.kernel P)) (KeepsOpen c p n) w₁ later w) :
    w.kern.fileAt p = some data ∧ ReadSoFar n data later ∧
      ∀ w', Releases P c n w w' → Idle w' p ∧ w'.kern.fileAt p = some data := by
  obtain ⟨i, h⟩ := hidle.opens (FileSystem.wellFormed_of_run hk run) (paths_nodup run)
    (.inr (by rw [hdata]; rfl)) hopen
  rw [hdata] at h
  obtain ⟨hend, hread⟩ := h.read_run hrun
  exact ⟨hend.leads.fileAt, hread, fun w' hclose ↦ hend.closed hclose⟩

end

/-! ## A run

Client 1 writes a file and client 2 reads it. -/

/-- The world after some requests have been served. -/
def servedWorld (k : FileSystem) (reqs : List Request) : World FileSystem :=
  reqs.foldl (fun w req ↦
      ((serve (FileSystem.kernel .lowest) req w).toOption.map Prod.snd).getD w)
    (.start (.lit "/srv") k)

theorem servedWorld_step {k : FileSystem} (reqs : List Request) (req : Request) (r : ReturnType)
    (h : (serve (FileSystem.kernel .lowest) req (servedWorld k reqs)).toOption.map Prod.fst
      = some r) :
    ∃ calls, serverStep (FileSystem.kernel .lowest) (servedWorld k reqs) ⟨req, calls, r⟩
      (servedWorld k (reqs ++ [req])) := by
  rcases hserve : serve (FileSystem.kernel .lowest) req (servedWorld k reqs) with f | ⟨r', w'⟩
  · rw [hserve] at h
    cases h
  · rw [hserve] at h
    cases h
    have hw : servedWorld k (reqs ++ [req]) = w' := by
      rw [servedWorld, List.foldl_append]
      show ((serve (FileSystem.kernel .lowest) req (servedWorld k reqs)).toOption.map
        Prod.snd).getD _ = w'
      rw [hserve]
      rfl
    rw [hw]
    exact exists_serverStep hserve

theorem acquires_servedWorld {k : FileSystem} {reqs : List Request} {c mode n : Int32}
    {p : CString} (hp : p.strlen + 1 < 2 ^ 31) (hn : 0 ≤ n)
    (h : (serve (FileSystem.kernel .lowest) (.open_ c p hp mode) (servedWorld k reqs)).toOption.map
      Prod.fst = some (.int n)) :
    Acquires .lowest c mode p n (servedWorld k reqs)
      (servedWorld k (reqs ++ [.open_ c p hp mode])) := by
  obtain ⟨calls, hstep⟩ := servedWorld_step reqs _ _ h
  exact ⟨_, hstep, Request.op_open, (success?_int rfl).trans (if_pos hn)⟩

theorem idle_start (dir p : CString) : Idle (World.start dir {}) p := ⟨rfl, nofun, nofun⟩

/-- Client 2 is turned away while client 1 writes. -/
theorem write_session_of_two :
    ∃ later w, Run (serverStep (FileSystem.kernel .lowest)) (KeepsOpen 1 (.lit "/srv/a") 3)
        (servedWorld {} [.open_ 1 (.lit "/srv/a") (by decide) 1]) later w ∧ later.length = 3 ∧
      w.kern.fileAt (.lit "/srv/a") = some [5, 0, 0, 0, 6, 0, 0, 0] := by
  have hopen : Acquires .lowest 1 1 (.lit "/srv/a") 3 (servedWorld {} []) (servedWorld {} _) :=
    acquires_servedWorld (by decide) (by decide) (by decide)
  obtain ⟨later, w, hrun, hlater⟩ := exists_run_from (FileSystem.kernel .lowest)
    (KeepsOpen 1 (.lit "/srv/a") 3) (servedWorld {} [.open_ 1 (.lit "/srv/a") (by decide) 1])
    [.write 1 3 4 (.int 5), .open_ 2 (.lit "/srv/a") (by decide) 1, .write 1 3 4 (.int 6)]
    (fun es _ ↦ decide (es.length = 3 ∧ written 1 3 es = [5, 0, 0, 0, 6, 0, 0, 0])) (by decide)
  obtain ⟨hlength, hwritten⟩ := of_decide_eq_true hlater
  refine ⟨later, w, hrun, hlength, ?_⟩
  have hsession := (write_session .lowest FileSystem.WellFormed.empty .start (idle_start _ _)
    (by decide) hopen hrun).1
  rw [hwritten] at hsession
  exact hsession

/-- A file system with a file of three bytes. -/
def stocked : FileSystem where
  names := [(.lit "/srv/a", .file 0)]
  content := fun _ ↦ [7, 8, 9]
  nextInode := 1

theorem stocked_wellFormed : stocked.WellFormed where
  names := by
    rintro _ (_ | ⟨_, ⟨⟩⟩) i ⟨⟩
    exact Nat.zero_lt_one
  files := nofun
  nodup := List.nodup_nil

theorem idle_stocked : Idle (World.start (.lit "/srv") stocked) (.lit "/srv/a") where
  free := rfl
  unshared := ⟨by rintro _ - _ (_ | ⟨_, ⟨⟩⟩) -; rfl, fun _ _ ↦ nofun⟩

/-- Client 2 gets the last byte, and then there is nothing more for client 1. -/
theorem read_session_of_two :
    ∃ later w, Run (serverStep (FileSystem.kernel .lowest)) (KeepsOpen 1 (.lit "/srv/a") 3)
        (servedWorld stocked [.open_ 1 (.lit "/srv/a") (by decide) 0]) later w ∧
      later.length = 3 ∧ ReadSoFar 3 [7, 8, 9] later := by
  have hopen : Acquires .lowest 1 0 (.lit "/srv/a") 3 (servedWorld stocked [])
      (servedWorld stocked _) := acquires_servedWorld (by decide) (by decide) (by decide)
  obtain ⟨later, w, hrun, hlater⟩ := exists_run_from (FileSystem.kernel .lowest)
    (KeepsOpen 1 (.lit "/srv/a") 3)
    (servedWorld stocked [.open_ 1 (.lit "/srv/a") (by decide) 0])
    [.read 1 3 2 (.int 0), .read 2 3 9 (.int 0), .read 1 3 1 (.int 0)]
    (fun es _ ↦ decide (es.length = 3)) (by decide)
  exact ⟨later, w, hrun, of_decide_eq_true hlater,
    (read_session .lowest stocked_wellFormed .start idle_stocked rfl hopen hrun).2.1⟩

end RemoteFs
