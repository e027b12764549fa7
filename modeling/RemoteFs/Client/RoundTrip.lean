import RemoteFs.Client.Api
import RemoteFs.Server.FileSystem

/-!
# Writing a file and reading it back

The whole stack at once: the client library translates a name, calls the server through the two
stubs, the server checks its table and calls the file system, and the reply goes back.
`write_read_round_trip` follows `fsOpen`, `fsWrite`, `fsClose`, `fsOpen`, `fsRead`, `fsClose` of one
client through it.

What carries it from call to call is the head of two lists.  The entry the server pushes for a path
without one is the first match for its descriptor, whatever else is in the table; and the file the
kernel opened last is the one behind it.  The lemmas of the first section say what each operation
does to a server in such a state, on any kernel.
-/

set_option autoImplicit false

namespace RemoteFs

variable {κ : Type}

/-! ## Operations that succeed -/

section
variable {K : Kernel κ} {w : World κ} {g c : Int32} {k' : κ}

/-- An `fsOpen` of a path without entry pushes one. -/
theorem perform_open {mode : Int32} {p : CString} {fd : Fd}
    (hfree : pathEntry w.srv.resourceList p = none)
    (h : K.open_ w.kern p (openFlags mode) = (.ok fd, k')) :
    ∃ w', perform K g (.open_ c mode p) w = .ok (.int fd.1, w') ∧ w'.kern = k' ∧
      w'.srv.resourceList = ⟨mode, c, fd.1, p⟩ :: w.srv.resourceList := by
  have hadm : refuses (pathEntry w.srv.resourceList p) c = false := by rw [hfree]; rfl
  rw [perform, openPath_of_admitted K w hadm]
  refine ⟨_, by rw [h]; rfl, by simp, ?_⟩
  simp [Op.action, Action.next, h, hfree, Except.toOption]

/-- An `fsClose` of the descriptor of the first entry drops that entry. -/
theorem perform_close {r : Resource} {rest : List Resource}
    (htable : w.srv.resourceList = r :: rest) (hfd : r.fd ≠ 0)
    (h : K.close w.kern r.fd = (.ok (), k')) :
    ∃ w', perform K g (.close r.id r.fd) w = .ok (.int 0, w') ∧ w'.kern = k' ∧
      w'.srv.resourceList = rest := by
  have hadm : refuses (fdEntry w.srv.resourceList r.fd) r.id = false := by
    simp [htable, fdEntry, hfd, refuses]
  rw [perform, closeFd_of_admitted K w hadm]
  refine ⟨_, by rw [h]; rfl, by simp, ?_⟩
  simp [Op.action, Action.next, htable, hfd]

theorem sizeT_ofNat {n : ℕ} (h : n < 2 ^ 31) : sizeT (Int32.ofNat n) = n := by
  rw [sizeT, toInt_ofNat_of_lt h]
  omega

/-- An `fsWrite` to the descriptor of the first entry. -/
theorem perform_write {r : Resource} {rest : List Resource} {count : Int32} {buf : Bytes}
    (htable : w.srv.resourceList = r :: rest) (hfd : r.fd ≠ 0) (hbuf : sizeT count ≤ buf.length)
    {n : { n : ℕ // n ≤ (buf.take (sizeT count)).length }} (hn : n.1 < 2 ^ 31)
    (h : K.write w.kern r.fd (buf.take (sizeT count)) = (.ok n, k')) :
    ∃ w', perform K g (.write r.id r.fd count buf) w = .ok (.int (Int32.ofNat n.1), w') ∧
      w'.kern = k' ∧ w'.srv.resourceList = w.srv.resourceList := by
  have hadm : refuses (findResource w.srv.resourceList r.id r.fd none) r.id = false := by
    rw [findResource_eq_fdEntry]
    simp [htable, fdEntry, hfd, refuses]
  rw [perform, if_neg (by simp [hadm]), writeFd, if_neg (Nat.not_lt.mpr hbuf)]
  simp only [h, intResult, orErrno, if_neg (ofNat_ne_neg_one hn)]
  exact ⟨_, rfl, rfl, World.after_resourceList _ _ _⟩

/-- An `fsRead`. -/
theorem perform_read {fd count : Int32} (hcount : ¬ count < 0)
    {bs : { bs : Bytes // bs.length ≤ sizeT count }} (hlen : bs.1.length + 4 < 2 ^ 31)
    (h : K.read w.kern fd (sizeT count) = (.ok bs, k')) :
    ∃ w', perform K g (.read fd count) w
        = .ok (⟨some (intBytes (Int32.ofNat bs.1.length) ++ bs.1),
            Int32.ofNat (bs.1.length + 4), 0⟩, w') ∧ w'.kern = k' ∧
      w'.srv.resourceList = w.srv.resourceList := by
  have hsize : sizeofInt + Int32.ofNat bs.1.length = Int32.ofNat (bs.1.length + 4) := by
    rw [Int32.ofNat_add, Int32.add_comm]
    rfl
  have hroom : ¬ (Int32.ofNat (bs.1.length + 4)).toInt < 4 + bs.1.length := by
    rw [toInt_ofNat_of_lt hlen]
    omega
  rw [perform, readFd]
  simp only [h, intResult, hsize, hcount, hroom, false_and, if_false]
  exact ⟨_, rfl, rfl, World.after_resourceList _ _ _⟩

end

/-! ## Calls that succeed -/

section
variable {K : Kernel κ} {cl : Client} {a : Attempt} {w w' : World κ}

theorem fsOpen_eq (ha : a.others = []) {fname path : CString} {mode fd : Int32}
    (htranslate : cl.translate fname = .ok path) (hpath : path.strlen + 1 < 2 ^ 31)
    (h : perform K a.garbage (.open_ cl.id mode path) w = .ok (.int fd, w')) (hfd : 0 < fd) :
    cl.fsOpen K fname mode [a] w = .ok ⟨fd, .int fd, cl, w'⟩ := by
  have hparams : List.Forall₂ Param.Passes [.int cl.id, .int mode, .str path]
      [.int cl.id, .int mode, .str path hpath] :=
    .cons (Param.passes_int _) (.cons (Param.passes_int _) (.cons (Param.passes_str _ _) .nil))
  have hop : Request.op ⟨.fsOpen, [.int cl.id, .int mode, .str path hpath], a.garbage⟩
      = .ok (.open_ cl.id mode path) := Request.op_open
  have hremote := remote_of_op K w ha hparams rfl hop
  have hneg := not_neg_of_pos hfd
  have hretry : retry _ [a] w = _ :=
    retry_done (hremote.trans h) (ReturnType.int?_int fd) (ne_neg_EAGAIN hneg)
  simp only [Client.fsOpen, htranslate, hretry, bind, Except.bind, if_neg hneg]
  rfl

theorem fsClose_eq (ha : a.others = []) {fd : Int32}
    (h : perform K a.garbage (.close cl.id fd) w = .ok (.int 0, w')) :
    cl.fsClose K fd [a] w = .ok ⟨0, .int 0, cl, w'⟩ := by
  have hparams : List.Forall₂ Param.Passes [.int cl.id, .int fd] [.int cl.id, .int fd] :=
    .cons (Param.passes_int _) (.cons (Param.passes_int _) .nil)
  have hop : Request.op ⟨.fsClose, [.int cl.id, .int fd], a.garbage⟩ = .ok (.close cl.id fd) :=
    Request.op_close
  have hremote := remote_of_op K w ha hparams rfl hop
  have hretry : retry _ [a] w = _ :=
    retry_done (hremote.trans h) (ReturnType.int?_int 0) (by decide)
  simp only [Client.fsClose, hretry, bind, Except.bind]
  rfl

theorem fsWrite_eq (ha : a.others = []) {fd r : Int32} {data : Bytes} (hpos : 0 < data.length)
    (hlt : data.length < 2 ^ 31)
    (h : perform K a.garbage (.write cl.id fd (Int32.ofNat data.length) data) w
      = .ok (.int r, w')) (hr : 0 < r) :
    cl.fsWrite K fd data (UInt32.ofNat data.length) [a] w = .ok ⟨r, .int r, cl, w'⟩ := by
  have hcount : (UInt32.ofNat data.length).toInt32 = Int32.ofNat data.length := rfl
  have hdata : Param.Passes ⟨Int32.ofNat data.length, data⟩ (.ofBytes data hpos hlt) :=
    ⟨rfl, List.prefix_rfl⟩
  have hparams : List.Forall₂ Param.Passes
      [.int cl.id, .int fd, .int (Int32.ofNat data.length), ⟨Int32.ofNat data.length, data⟩]
      [.int cl.id, .int fd, .int (Int32.ofNat data.length), .ofBytes data hpos hlt] :=
    .cons (Param.passes_int _) (.cons (Param.passes_int _) (.cons (Param.passes_int _)
      (.cons hdata .nil)))
  have hop : Request.op ⟨.fsWrite, [.int cl.id, .int fd, .int (Int32.ofNat data.length),
      .ofBytes data hpos hlt], a.garbage⟩
      = .ok (.write cl.id fd (Int32.ofNat data.length) data) := Request.op_write
  have hremote := remote_of_op K w ha hparams rfl hop
  have hneg := not_neg_of_pos hr
  have hretry : retry _ [a] w = _ :=
    retry_done (hremote.trans h) (ReturnType.int?_int r) (ne_neg_EAGAIN hneg)
  have hone : r ≠ -1 := by
    rintro rfl
    exact absurd hr (by decide)
  simp only [Client.fsWrite, hcount, hretry, bind, Except.bind, if_neg hone]
  rfl

/-- What `fsRead` passes for its buffer: the bytes up to the first NUL and that NUL, or as many of
them as the conversion of their number to `int` leaves. -/
theorem exists_passes_buf {buf : Bytes} {s : CString} (hs : CString.at? buf = some s)
    (hlen : 0 < Int32.ofNat (s.strlen + 1)) :
    ∃ arg : ArgType, Param.Passes ⟨Int32.ofNat (s.strlen + 1), buf⟩ arg := by
  have hpos : 0 < (Int32.ofNat (s.strlen + 1)).toInt := Int32.lt_iff_toInt_lt.mp hlen
  have hle := toInt_ofNat_le (s.strlen + 1)
  have hlt := CString.strlen_lt_of_at? hs
  have htake : (buf.take (Int32.ofNat (s.strlen + 1)).toInt.toNat).length
      = (Int32.ofNat (s.strlen + 1)).toInt.toNat := List.length_take_of_le (by omega)
  exact ⟨⟨_, _, hpos, by rw [htake, Int.toNat_of_nonneg (Int.le_of_lt hpos)]⟩, rfl,
    List.take_prefix _ _⟩

/-- What `fsRead` makes of a read that succeeds, whatever the others ask for before. -/
theorem fsRead_eq {w₁ : World κ} (hothers : serveAll K a.others w = .ok w₁) {fd : Int32}
    {count : UInt32} {buf bs : Bytes} {s : CString} (hs : CString.at? buf = some s)
    (hlen : 0 < Int32.ofNat (s.strlen + 1)) (hlt : bs.length < 2 ^ 31)
    (h : perform K a.garbage (.read fd count.toInt32) w₁
      = .ok (⟨some (intBytes (Int32.ofNat bs.length) ++ bs), Int32.ofNat (bs.length + 4), 0⟩, w')) :
    cl.fsRead K fd buf count a w = if buf.length < bs.length then .error .overflow
      else .ok (⟨Int32.ofNat bs.length, ⟨some (intBytes (Int32.ofNat bs.length) ++ bs),
        Int32.ofNat (bs.length + 4), 0⟩, cl, w'⟩, bs ++ buf.drop bs.length) := by
  obtain ⟨arg, harg⟩ := exists_passes_buf hs hlen
  have hparams : List.Forall₂ Param.Passes
      [.int cl.id, .int fd, ⟨Int32.ofNat (s.strlen + 1), buf⟩, .int count.toInt32]
      [.int cl.id, .int fd, arg, .int count.toInt32] :=
    .cons (Param.passes_int _) (.cons (Param.passes_int _) (.cons harg
      (.cons (Param.passes_int _) .nil)))
  have hop : Request.op ⟨.fsRead, [.int cl.id, .int fd, arg, .int count.toInt32], a.garbage⟩
      = .ok (.read fd count.toInt32) := Request.op_read
  have hremote : remote K .fsRead _ a w = _ := remote_eq K hothers hparams rfl
  rw [serve_of_op hop, h] at hremote
  have hone := ofNat_ne_neg_one hlt
  simp only [Client.fsRead, hs, hremote, bind, Except.bind, ReturnType.int?,
    intAt_intBytes_append, Option.getD_some, List.drop_left' (length_intBytes _), if_neg hone]
  rfl

/-- A buffer whose length is no positive `int` makes the server exit. -/
theorem fsRead_exit {w₁ : World κ} (hothers : serveAll K a.others w = .ok w₁) {fd : Int32}
    {count : UInt32} {buf : Bytes} {s : CString} (hs : CString.at? buf = some s)
    (hlen : ¬ 0 < Int32.ofNat (s.strlen + 1)) :
    cl.fsRead K fd buf count a w = .error .exit := by
  have hids : List.Forall₂ Param.Passes [.int cl.id, .int fd] [.int cl.id, .int fd] :=
    .cons (Param.passes_int _) (.cons (Param.passes_int _) .nil)
  have hcount : List.Forall₂ Param.Passes [.int count.toInt32] [.int count.toInt32] :=
    .cons (Param.passes_int _) .nil
  have hcall : makeRemoteCall a.cuts (registerAll (procedures K a.garbage)) Proc.fsRead.name
      Proc.fsRead.nparams ([.int cl.id, .int fd] ++ ⟨Int32.ofNat (s.strlen + 1), buf⟩ ::
        [.int count.toInt32]) w₁ = .error .exit :=
    makeRemoteCall_exit a.cuts (Proc.strlen_name _) hids
      (fun hpos ↦ hlen (Int32.lt_iff_toInt_lt.mpr hpos)) (exchanges_sendParams hcount) rfl
  rw [List.cons_append, List.cons_append, List.nil_append] at hcall
  simp only [Client.fsRead, hs, remote, hothers, hcall, bind, Except.bind]

/-- Nobody else asks for anything. -/
theorem serveAll_of_others (ha : a.others = []) : serveAll K a.others w = .ok w := by
  rw [ha]
  rfl

end

/-! ## Writing a file, and reading it -/

/-- What `fsOpen`, a transfer and `fsClose` return. -/
structure Transfer where
  fd : Int32
  count : Int32
  closed : Int32
  deriving DecidableEq

section
variable (K : Kernel κ) (cl : Client)

/-- `fd = fsOpen(f, 1); fsWrite(fd, b, n); fsClose(fd);` -/
def Client.writeFile (f : CString) (b : Bytes) (att : Fin 6 → Attempt) (w : World κ) :
    Except Fault (Transfer × Client × World κ) := do
  let opened ← cl.fsOpen K f 1 [att 0] w
  let wrote ← opened.client.fsWrite K opened.value b (.ofNat b.length) [att 1] opened.world
  let closed ← wrote.client.fsClose K opened.value [att 2] wrote.world
  return (⟨opened.value, wrote.value, closed.value⟩, closed.client, closed.world)

/-- `fd2 = fsOpen(f, 0); fsRead(fd2, buf, n); fsClose(fd2);` -/
def Client.readFile (f : CString) (n : ℕ) (buf : Bytes) (att : Fin 6 → Attempt) (w : World κ) :
    Except Fault (Transfer × Bytes × World κ) := do
  let opened ← cl.fsOpen K f 0 [att 3] w
  let (got, buf) ← opened.client.fsRead K opened.value buf (.ofNat n) (att 4) opened.world
  let closed ← got.client.fsClose K opened.value [att 5] got.world
  return (⟨opened.value, got.value, closed.value⟩, buf, closed.world)

/-- One after the other.  Every call has a single attempt, so a refusal ends the whole with
`Fault.hang`. -/
def Client.writeThenRead (f : CString) (b buf : Bytes) (att : Fin 6 → Attempt) (w : World κ) :
    Except Fault (Transfer × Transfer × Bytes × World κ) := do
  let (wrote, cl, w) ← cl.writeFile K f b att w
  let (got, buf, w) ← cl.readFile K f b.length buf att w
  return (wrote, got, buf, w)

end

section
variable {P : Policy} {cl : Client} {f path : CString} {n m : Int32} {b : Bytes}
  {att : Fin 6 → Attempt} {w : World FileSystem}

theorem fsOpen_to_write {a : Attempt} (ha : a.others = []) (hpath : cl.translate f = .ok path)
    (hfree : pathEntry w.srv.resourceList path = none) (h : w.kern.Serves P path n m) :
    ∃ i w', cl.fsOpen (FileSystem.kernel P) f 1 [a] w = .ok ⟨n, .int n, cl, w'⟩ ∧
      w'.srv.resourceList = ⟨1, cl.id, n, path⟩ :: w.srv.resourceList ∧
      w'.kern.names.lookup path = some (.file i) ∧ w'.kern.opens = w.kern.opens + 1 ∧
      w'.kern.dirFds = w.kern.dirFds ∧ w'.kern.files = ⟨n, .file i, 0, true⟩ :: w.kern.files := by
  have hshort : path.strlen + 1 < 2 ^ 31 := by
    have hmax := h.short
    rw [PATH_MAX] at hmax
    omega
  obtain ⟨i, fs', hopen, hname, hopens, hdirs, hfiles⟩ :=
    FileSystem.open_to_write h (show openFlags 1 ≠ 0 by decide)
  have hopen' : (FileSystem.kernel P).open_ w.kern path (openFlags 1) = _ := hopen
  obtain ⟨w', hrun, rfl, htable⟩ := perform_open hfree hopen'
  exact ⟨i, w', fsOpen_eq ha hpath hshort hrun (P.pos h.first), htable, hname, hopens, hdirs, hfiles⟩

theorem fsOpen_to_read {a : Attempt} (ha : a.others = []) (hpath : cl.translate f = .ok path)
    (hfree : pathEntry w.srv.resourceList path = none) (hshort : path.strlen < PATH_MAX) {i : ℕ}
    (hfile : w.kern.names.lookup path = some (.file i))
    (hpick : P.pick w.kern.opens w.kern.used = some m) :
    ∃ w', cl.fsOpen (FileSystem.kernel P) f 0 [a] w = .ok ⟨m, .int m, cl, w'⟩ ∧
      w'.srv.resourceList = ⟨0, cl.id, m, path⟩ :: w.srv.resourceList ∧
      w'.kern.content = w.kern.content ∧
      w'.kern.files = ⟨m, .file i, 0, false⟩ :: w.kern.files := by
  have hshort' : path.strlen + 1 < 2 ^ 31 := by
    rw [PATH_MAX] at hshort
    omega
  obtain ⟨fs', hopen, hcontent, hfiles⟩ := FileSystem.open_to_read hshort hfile hpick
  have hopen' : (FileSystem.kernel P).open_ w.kern path (openFlags 0) = _ := hopen
  obtain ⟨w', hrun, hkern, htable⟩ := perform_open hfree hopen'
  exact ⟨w', fsOpen_eq ha hpath hshort' hrun (P.pos hpick), htable, by rw [hkern, hcontent],
    by rw [hkern, hfiles]⟩

/-- Writing to the file that was opened last. -/
theorem fsWrite_first (P : Policy) {a : Attempt} (ha : a.others = []) {lock : Int32}
    {rest : List Resource}
    (htable : w.srv.resourceList = ⟨lock, cl.id, n, path⟩ :: rest) (hn : n ≠ 0) {i : ℕ}
    {files : List OpenFile} (hfiles : w.kern.files = ⟨n, .file i, 0, true⟩ :: files)
    (hnew : n ∉ files.map OpenFile.fd) (hpos : 0 < b.length) (hlt : b.length < 2 ^ 31) :
    ∃ w', cl.fsWrite (FileSystem.kernel P) n b (.ofNat b.length) [a] w
        = .ok ⟨.ofNat b.length, .int (.ofNat b.length), cl, w'⟩ ∧
      w'.srv.resourceList = w.srv.resourceList ∧ w'.kern.names = w.kern.names ∧
      w'.kern.opens = w.kern.opens ∧ w'.kern.dirFds = w.kern.dirFds ∧
      (w'.kern.content i).take b.length = b ∧
      ∃ offset, w'.kern.files = ⟨n, .file i, offset, true⟩ :: files := by
  have hsize := sizeT_ofNat hlt
  have htake : b.take (sizeT (Int32.ofNat b.length)) = b := by rw [hsize, List.take_length]
  obtain ⟨fs', hwrite, hnames, hcontent, hopens, hdirs, hfiles'⟩ :=
    FileSystem.write_head hfiles hnew rfl rfl (b.take (sizeT (Int32.ofNat b.length)))
  have hwrite' : (FileSystem.kernel P).write w.kern n _ = _ := hwrite
  obtain ⟨w', hrun, rfl, htable'⟩ :=
    perform_write htable hn (Nat.le_of_eq hsize) (by rw [htake]; exact hlt) hwrite'
  simp only [htake] at hrun hcontent
  have hcount : 0 < Int32.ofNat b.length := by
    rw [Int32.lt_iff_toInt_lt, toInt_ofNat_of_lt hlt, Int32.toInt_zero]
    omega
  refine ⟨w', fsWrite_eq ha hpos hlt hrun hcount, htable', hnames, hopens, hdirs, ?_, _, hfiles'⟩
  rw [hcontent]
  exact FileSystem.take_overwrite _ b

/-- Closing the file that was opened last. -/
theorem fsClose_first (P : Policy) {a : Attempt} (ha : a.others = []) {lock : Int32}
    {rest : List Resource}
    (htable : w.srv.resourceList = ⟨lock, cl.id, n, path⟩ :: rest) (hn : n ≠ 0) {object : Object}
    {offset : ℕ} {writable : Bool} {files : List OpenFile}
    (hfiles : w.kern.files = ⟨n, object, offset, writable⟩ :: files) :
    ∃ w', cl.fsClose (FileSystem.kernel P) n [a] w = .ok ⟨0, .int 0, cl, w'⟩ ∧
      w'.srv.resourceList = rest ∧ w'.kern = { w.kern with files := files } := by
  have hclose : (FileSystem.kernel P).close w.kern n = (.ok (), { w.kern with files := files }) :=
    FileSystem.close_head hfiles
  obtain ⟨w', hrun, hkern, htable'⟩ := perform_close htable hn hclose
  exact ⟨w', fsClose_eq ha hrun, htable', hkern⟩

theorem writeFile_eq (hatt : ∀ i, (att i).others = []) (hpath : cl.translate f = .ok path)
    (hfree : pathEntry w.srv.resourceList path = none) (h : w.kern.Serves P path n m)
    (hpos : 0 < b.length) (hlt : b.length < 2 ^ 31) :
    ∃ w', cl.writeFile (FileSystem.kernel P) f b att w
        = .ok (⟨n, Int32.ofNat b.length, 0⟩, cl, w') ∧
      w'.srv.resourceList = w.srv.resourceList ∧ w'.kern.opens = w.kern.opens + 1 ∧
      w'.kern.used = w.kern.used ∧
      ∃ i, w'.kern.names.lookup path = some (.file i) ∧
        (w'.kern.content i).take b.length = b := by
  have hn : n ≠ 0 := by
    rintro rfl
    exact absurd (P.pos h.first) (by decide)
  obtain ⟨i, w₁, hcall₁, htable₁, hname₁, hopens₁, hdirs₁, hfiles₁⟩ :=
    fsOpen_to_write (hatt 0) hpath hfree h
  obtain ⟨w₂, hcall₂, htable₂, hnames₂, hopens₂, hdirs₂, hcontent₂, offset, hfiles₂⟩ :=
    fsWrite_first P (hatt 1) htable₁ hn hfiles₁ (FileSystem.fresh_fds (P.fresh h.first)) hpos hlt
  obtain ⟨w₃, hcall₃, htable₃, hkern₃⟩ :=
    fsClose_first P (hatt 2) (htable₂.trans htable₁) hn hfiles₂
  refine ⟨w₃, ?_, htable₃, ?_, ?_, i, ?_, ?_⟩
  · simp only [Client.writeFile, hcall₁, hcall₂, hcall₃, bind, Except.bind]
    rfl
  · rw [hkern₃]
    exact hopens₂.trans hopens₁
  · rw [hkern₃, FileSystem.used, hdirs₂, hdirs₁]
    rfl
  · rw [hkern₃]
    exact (congrArg (List.lookup path) hnames₂).trans hname₁
  · rw [hkern₃]
    exact hcontent₂

theorem readFile_eq (hatt : ∀ i, (att i).others = []) (hpath : cl.translate f = .ok path)
    (hfree : pathEntry w.srv.resourceList path = none) (hshort : path.strlen < PATH_MAX) {i : ℕ}
    (hfile : w.kern.names.lookup path = some (.file i))
    (hcontent : (w.kern.content i).take b.length = b)
    (hpick : P.pick w.kern.opens w.kern.used = some m) (hmax : b.length + 4 < 2 ^ 31) {buf : Bytes}
    {s : CString} (hs : CString.at? buf = some s) (hlen : 0 < Int32.ofNat (s.strlen + 1))
    (hroom : b.length ≤ buf.length) :
    ∃ w', cl.readFile (FileSystem.kernel P) f b.length buf att w
        = .ok (⟨m, Int32.ofNat b.length, 0⟩, b ++ buf.drop b.length, w') ∧
      w'.srv.resourceList = w.srv.resourceList := by
  have hlt : b.length < 2 ^ 31 := by omega
  have hm0 : m ≠ 0 := by
    rintro rfl
    exact absurd (P.pos hpick) (by decide)
  obtain ⟨w₁, hcall₁, htable₁, hcontent₁, hfiles₁⟩ :=
    fsOpen_to_read (hatt 3) hpath hfree hshort hfile hpick
  -- `fsRead`
  have hsize := sizeT_ofNat hlt
  obtain ⟨offset, fs₂, hread, hfiles₂⟩ :=
    FileSystem.read_head hfiles₁ (FileSystem.fresh_fds (P.fresh hpick)) rfl rfl (sizeT (Int32.ofNat b.length))
  have hbs : (w₁.kern.content i).take (sizeT (Int32.ofNat b.length)) = b := by
    rw [hcontent₁, hsize, hcontent]
  have hnonneg : ¬ Int32.ofNat b.length < 0 := Int32.not_lt.mpr (ofNat_nonneg hlt)
  simp only [List.drop_zero, hbs] at hread
  have hread' : (FileSystem.kernel P).read w₁.kern m (sizeT (Int32.ofNat b.length)) = _ := hread
  obtain ⟨w₂, hrun₂, hkern₂, htable₂⟩ := perform_read hnonneg hmax hread'
  have hcall₂ : cl.fsRead (FileSystem.kernel P) m buf (.ofNat b.length) (att 4) w₁ = _ :=
    (fsRead_eq (serveAll_of_others (hatt 4)) hs hlen hlt hrun₂).trans (if_neg (Nat.not_lt.mpr hroom))
  -- `fsClose`
  rw [← hkern₂] at hfiles₂
  obtain ⟨w₃, hcall₃, htable₃, -⟩ := fsClose_first P (hatt 5) (htable₂.trans htable₁) hm0 hfiles₂
  refine ⟨w₃, ?_, htable₃⟩
  simp only [Client.readFile, hcall₁, hcall₂, hcall₃, bind, Except.bind]
  rfl

/-- **A file that has been written is read back.**  On a file system on which the path of `f` can be
opened to write and then to read, in any state of the server in which that path has no entry, and
for every list `b` of bytes that `write` takes at once: none of the six calls is refused, `fsWrite`
and `fsRead` return the length of `b`, the buffer begins with `b`, and the table is as it was.

The buffer has a NUL, and the length that `fsRead` announces for it, which is an `int`, is positive;
`buffer_too_long` shows what happens otherwise. -/
theorem write_read_round_trip (P : Policy) {cl : Client} {folder : CString}
    (hmount : cl.mountedDir = some folder) (hfolder : folder.chars ≠ []) (f : CString) :
    ∃ path, cl.translate f = .ok path ∧
      ∀ {w : World FileSystem} {n m : Int32} {b buf : Bytes} {s : CString} {att : Fin 6 → Attempt},
        pathEntry w.srv.resourceList path = none → w.kern.Serves P path n m →
        1 ≤ b.length → b.length ≤ 0x7ffff000 → b.length ≤ buf.length →
        CString.at? buf = some s → 0 < Int32.ofNat (s.strlen + 1) → (∀ i, (att i).others = []) →
        ∃ w', cl.writeThenRead (FileSystem.kernel P) f b buf att w
            = .ok (⟨n, Int32.ofNat b.length, 0⟩, ⟨m, Int32.ofNat b.length, 0⟩,
              b ++ buf.drop b.length, w') ∧
          w'.srv.resourceList = w.srv.resourceList := by
  obtain ⟨path, hpath⟩ := translate_isOk hmount hfolder f
  refine ⟨path, hpath, ?_⟩
  intro w n m b buf s att hfree hserves hpos hmax hroom hs hlen hatt
  obtain ⟨w₁, hwrite, htable₁, hopens₁, hused₁, i, hfile, hcontent⟩ :=
    writeFile_eq hatt hpath hfree hserves hpos (by omega)
  have hpick : P.pick w₁.kern.opens w₁.kern.used = some m := by
    rw [hopens₁, hused₁]
    exact hserves.second
  obtain ⟨w₂, hread, htable₂⟩ := readFile_eq hatt hpath (htable₁.symm ▸ hfree) hserves.short hfile
    hcontent hpick (by omega) hs hlen hroom
  refine ⟨w₂, ?_, htable₂.trans htable₁⟩
  simp only [Client.writeThenRead, hwrite, hread, bind, Except.bind]
  rfl

/-- With a buffer whose length is no positive `int`, the server exits in `fsRead`. -/
theorem writeThenRead_exit (hatt : ∀ i, (att i).others = []) (hpath : cl.translate f = .ok path)
    (hfree : pathEntry w.srv.resourceList path = none) (h : w.kern.Serves P path n m)
    (hpos : 0 < b.length) (hlt : b.length < 2 ^ 31) {buf : Bytes} {s : CString}
    (hs : CString.at? buf = some s) (hlen : ¬ 0 < Int32.ofNat (s.strlen + 1)) :
    cl.writeThenRead (FileSystem.kernel P) f b buf att w = .error .exit := by
  obtain ⟨w₁, hwrite, htable₁, hopens₁, hused₁, i, hfile, -⟩ :=
    writeFile_eq hatt hpath hfree h hpos hlt
  have hpick : P.pick w₁.kern.opens w₁.kern.used = some m := by
    rw [hopens₁, hused₁]
    exact h.second
  obtain ⟨w₂, hopen, -⟩ :=
    fsOpen_to_read (hatt 3) hpath (htable₁.symm ▸ hfree) h.short hfile hpick
  have hread : cl.fsRead (FileSystem.kernel P) m buf (.ofNat b.length) (att 4) w₂ = .error .exit :=
    fsRead_exit (serveAll_of_others (hatt 4)) hs hlen
  simp only [Client.writeThenRead, hwrite, Client.readFile, hopen, hread, bind, Except.bind]

end

/-! ### A new file -/

/-- Nothing happens around the calls. -/
def undisturbed : Fin 6 → Attempt := fun _ ↦ .quiet

theorem serves_new : ({} : FileSystem).Serves .lowest (.lit "/srv/a") 3 3 where
  short := by decide
  notDir := fun es h ↦ by cases h
  first := by decide
  second := by decide

/-- Three bytes, one of them zero, while the table has an entry of another client with the number
of the new descriptor. -/
theorem write_read_round_trip_of_new_file :
    ∃ w', mountedClient.writeThenRead (FileSystem.kernel .lowest) (.lit "mnt/a") [7, 0, 8]
        [1, 2, 3, 0, 5] undisturbed
        ⟨{ mountedDir := .lit "/srv", resourceList := [⟨0, 2, 3, .lit "/srv/b"⟩] }, {}, []⟩
        = .ok (⟨3, 3, 0⟩, ⟨3, 3, 0⟩, [7, 0, 8, 0, 5], w') ∧
      w'.srv.resourceList = [⟨0, 2, 3, .lit "/srv/b"⟩] := by
  obtain ⟨path, hpath, htrip⟩ :=
    write_read_round_trip .lowest (rfl : mountedClient.mountedDir = some (.lit "mnt")) (by decide)
      (.lit "mnt/a")
  obtain rfl : CString.lit "/srv/a" = path :=
    Except.ok.inj (translate_mountedClient.symm.trans hpath)
  have hfree : pathEntry [⟨0, 2, 3, .lit "/srv/b"⟩] (.lit "/srv/a") = none := by decide
  have hbuf : CString.at? [1, 2, 3, 0, 5] = some ⟨[1, 2, 3], by decide⟩ := rfl
  exact htrip hfree serves_new (by decide) (by decide) (by decide) hbuf (by decide) fun _ ↦ rfl

/-- A byte is written to a new file, on a server that has just been started.  With a buffer that has
`2 ^ 31 - 1` bytes before its NUL, the file is not read back. -/
theorem buffer_too_long :
    ∃ buf s, CString.at? buf = some s ∧ s.strlen = 2 ^ 31 - 1 ∧
      mountedClient.writeThenRead (FileSystem.kernel .lowest) (.lit "mnt/a") [7] buf undisturbed
        ⟨{ mountedDir := .lit "/srv" }, {}, []⟩ = .error .exit := by
  obtain ⟨s, hs⟩ := CString.exists_strlen (2 ^ 31 - 1)
  refine ⟨s.mem, s, CString.at?_mem s, hs, ?_⟩
  exact writeThenRead_exit (fun _ ↦ rfl) translate_mountedClient rfl serves_new (by decide)
    (by decide) (CString.at?_mem s) (by rw [hs]; decide)

end RemoteFs
