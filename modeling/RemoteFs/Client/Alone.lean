import RemoteFs.Client.Mounting
import RemoteFs.Client.MountPoint
import RemoteFs.Client.OpenDir
import RemoteFs.Client.Program
import RemoteFs.Client.RoundTrip
import RemoteFs.Dir.EndOfStream
import RemoteFs.Server.Inodes

/-!
# The calls of the client program, alone on a server

No other client is served while the program runs (`Around.Alone`).  Then every call is made once, or is
refused again and again (`run_cases`).

`Stage` is what has to be known of the server between two calls, and there is one lemma for each of the
calls that the program makes: `Stage.mount`, `Stage.openDir`, `listLoop_eq`, `Stage.closeDir`,
`Stage.openWrite`, `Stage.write`, `Stage.openRead`, `Stage.read` and `Stage.close`.  All but the first two
rest on `Stage.next`: only the file, the table and the open files have to be looked at.
-/

set_option autoImplicit false

namespace RemoteFs
namespace FsClient

variable {κ : Type}

/-! ## Calls that nobody disturbs -/

/-- There is an attempt, and nobody else is served before any. -/
def Quiet (as : List Attempt) : Prop := as ≠ [] ∧ ∀ a ∈ as, a.others = []

theorem Quiet.exists_cons {as : List Attempt} (h : Quiet as) :
    ∃ a rest, as = a :: rest ∧ a.others = [] := by
  obtain ⟨hne, hquiet⟩ := h
  cases as with
  | nil => exact absurd rfl hne
  | cons a rest => exact ⟨a, rest, rfl, hquiet a List.mem_cons_self⟩

section
variable {K : Kernel κ} {cl : Client} {as : List Attempt} {w w' : World κ} {r : Int32}

/-- A call that is answered at once is over. -/
theorem run_of_perform (call : RetryCall) {params : List Param} {args : List ArgType} {op : Op}
    (hquiet : Quiet as) (hparams : call.params cl = .ok params)
    (hpass : List.Forall₂ Param.Passes params args)
    (hop : ∀ g, Request.op ⟨call.proc, args, g⟩ = .ok op)
    (h : ∀ g, perform K g op w = .ok (.int r, w')) (hr : r ≠ -EAGAIN) :
    call.run K cl as w = .ok (call.finish cl r (.int r) w') := by
  obtain ⟨a, rest, rfl, ha⟩ := hquiet.exists_cons
  have hmeets : a.Meets K call.proc params w op w :=
    ⟨serveAll_of_others ha, args, hpass, hop a.garbage⟩
  have hremote := remote_of_meets (RetryCall.length_params hparams) hmeets
  rw [RetryCall.run_eq K hparams,
    retry_done (hremote.trans (h a.garbage)) (ReturnType.int?_int r) hr]
  rfl

theorem fsOpen_of_perform (hquiet : Quiet as) {fname path : CString} {mode : Int32}
    (hpath : cl.translate fname = .ok path) (hshort : path.strlen + 1 < 2 ^ 31)
    (h : ∀ g, perform K g (.open_ cl.id mode path) w = .ok (.int r, w')) (hr : r ≠ -EAGAIN) :
    cl.fsOpen K fname mode as w
      = .ok (if r < 0 then .failed cl r (.int r) w' else ⟨r, .int r, cl, w'⟩) := by
  have hparams : (RetryCall.fsOpen fname mode).params cl = .ok [.int cl.id, .int mode, .str path] := by
    rw [RetryCall.params, hpath]
    rfl
  exact run_of_perform (.fsOpen fname mode) hquiet hparams
    (.cons (Param.passes_int _) (.cons (Param.passes_int _) (.cons (Param.passes_str _ hshort) .nil)))
    (fun _ ↦ Request.op_open) h hr

theorem fsRemove_of_perform (hquiet : Quiet as) {fname path : CString}
    (hpath : cl.translate fname = .ok path) (hshort : path.strlen + 1 < 2 ^ 31)
    (h : ∀ g, perform K g (.remove cl.id path) w = .ok (.int 0, w')) :
    cl.fsRemove K fname as w = .ok ⟨0, .int 0, cl, w'⟩ := by
  have hparams : (RetryCall.fsRemove fname).params cl = .ok [.int cl.id, .str path] := by
    rw [RetryCall.params, hpath]
    rfl
  exact run_of_perform (.fsRemove fname) hquiet hparams
    (.cons (Param.passes_int _) (.cons (Param.passes_str _ hshort) .nil))
    (fun _ ↦ Request.op_remove) h (by decide)

theorem fsClose_of_perform (hquiet : Quiet as) {fd : Int32}
    (h : ∀ g, perform K g (.close cl.id fd) w = .ok (.int r, w')) (hr : r ≠ -EAGAIN) :
    cl.fsClose K fd as w
      = .ok (if r < 0 then .failed cl r (.int r) w' else ⟨0, .int r, cl, w'⟩) :=
  run_of_perform (.fsClose fd) hquiet rfl
    (.cons (Param.passes_int _) (.cons (Param.passes_int _) .nil)) (fun _ ↦ Request.op_close) h hr

theorem fsCloseDir_of_perform (hquiet : Quiet as) {n : Int32}
    (h : ∀ g, perform K g (.closeDir cl.id n) w = .ok (.int 0, w')) :
    cl.fsCloseDir K n as w = .ok ⟨0, .int 0, cl, w'⟩ :=
  run_of_perform (.fsCloseDir n) hquiet rfl
    (.cons (Param.passes_int _) (.cons (Param.passes_int _) .nil)) (fun _ ↦ Request.op_closeDir) h
    (by decide)

theorem fsWrite_of_perform (hquiet : Quiet as) {fd : Int32} (buf : Buffer)
    (h : ∀ g, perform K g (.write cl.id fd 256 buf.1) w = .ok (.int 256, w')) :
    cl.fsWrite K fd buf.1 256 as w = .ok ⟨256, .int 256, cl, w'⟩ := by
  have hpos : 0 < buf.1.length := by rw [buf.2]; decide
  have hlt : buf.1.length < 2 ^ 31 := by rw [buf.2]; decide
  have hsize : Int32.ofNat buf.1.length = 256 := by rw [buf.2]; rfl
  have hpass : Param.Passes ⟨256, buf.1⟩ (.ofBytes buf.1 hpos hlt) := ⟨hsize.symm, List.prefix_rfl⟩
  exact run_of_perform (.fsWrite fd buf.1 256) hquiet rfl
    (.cons (Param.passes_int _) (.cons (Param.passes_int _) (.cons (Param.passes_int _)
      (.cons hpass .nil))))
    (fun _ ↦ Request.op_write) h (by decide)

end

/-! ## What names denote -/

/-- The names are the same, and so are the descriptors of the streams. -/
structure SameNames (fs fs' : FileSystem) : Prop where
  names : fs'.names = fs.names
  dirFds : fs'.dirFds = fs.dirFds

section
variable {P : Policy} {fs : FileSystem} {p q : CString}

theorem sameNames_install (object : Object) (writable : Bool) :
    SameNames fs (fs.install P object writable).2 := by
  obtain heq | ⟨n, hn, -, heq⟩ := FileSystem.install_cases P fs object writable <;> rw [heq] <;>
    exact ⟨rfl, rfl⟩

theorem sameNames_close (n : Int32) : SameNames fs (fs.close n).2 := by
  rw [FileSystem.close]
  split <;> exact ⟨rfl, rfl⟩

theorem sameNames_read (n : Int32) (count : ℕ) : SameNames fs (fs.read n count).2 := by
  rw [FileSystem.read]
  repeat' split
  all_goals exact ⟨rfl, rfl⟩

theorem sameNames_write (n : Int32) (data : Bytes) : SameNames fs (fs.write n data).2 := by
  rw [FileSystem.write]
  repeat' split
  all_goals exact ⟨rfl, rfl⟩

theorem sameNames_readdir (d : Dir) : SameNames fs (fs.readdir d).2 := by
  rw [FileSystem.readdir]
  split <;> exact ⟨rfl, rfl⟩

/-! ### What changes one -/

/-- `open` gives the path a new file, or no name changes. -/
theorem names_open (flags : Int32) : (fs.open_ P p flags).2.names = fs.names ∨
    ∃ i, (fs.open_ P p flags).2.names = (p, .file i) :: fs.names := by
  rw [FileSystem.open_]
  split
  · exact .inl rfl
  · split
    · exact .inl (sameNames_install _ _).names
    · split
      · exact .inl (sameNames_install _ _).names
      · exact .inl rfl
    · split
      · exact .inl rfl
      · split
        · exact .inl rfl
        · exact .inr ⟨_, (sameNames_install _ _).names⟩

theorem dirFds_open (flags : Int32) : (fs.open_ P p flags).2.dirFds = fs.dirFds := by
  rw [FileSystem.open_]
  repeat' split
  all_goals first | rfl | exact (sameNames_install _ _).dirFds

theorem names_remove : (fs.remove p).2.names = fs.names ∨
    (fs.remove p).2.names = fs.names.filter fun x ↦ x.1 ≠ p := by
  rw [FileSystem.remove]
  split
  · exact .inl rfl
  · exact .inl rfl
  · exact .inr rfl

theorem dirFds_remove : (fs.remove p).2.dirFds = fs.dirFds := by
  rw [FileSystem.remove]
  split <;> rfl

/-- **What an operation does to the names**: it may make a file of the path it opens, or take away the
path it removes. -/
theorem names_kern {w : World FileSystem} (op : Op) :
    (op.kern (FileSystem.kernel P) w).names = w.kern.names ∨
    (∃ c mode p i, op = .open_ c mode p ∧
      (op.kern (FileSystem.kernel P) w).names = (p, .file i) :: w.kern.names) ∨
    ∃ c p, op = .remove c p ∧
      (op.kern (FileSystem.kernel P) w).names = w.kern.names.filter fun x ↦ x.1 ≠ p := by
  cases op with
  | ignored | mount | unmount => exact .inl rfl
  | openDir c p => exact .inl (FileSystem.sameFiles_opendir _ _ _).names
  | readDir n =>
    rw [Op.kern]
    cases findNode w.srv.openDirQueue n with
    | none => exact .inl rfl
    | some d => exact .inl (FileSystem.sameFiles_readdir _ _).names
  | closeDir c n =>
    rw [Op.kern]
    cases findNode w.srv.openDirQueue n with
    | none => exact .inl rfl
    | some d => exact .inl (FileSystem.sameFiles_closedir _ _).names
  | remove c p => exact names_remove.imp_right fun h ↦ .inr ⟨c, p, rfl, h⟩
  | open_ c mode p =>
    refine (names_open _).imp_right ?_
    rintro ⟨i, h⟩
    exact .inl ⟨c, mode, p, i, rfl, h⟩
  | close c n => exact .inl (sameNames_close n).names
  | read n count => exact .inl (sameNames_read n _).names
  | write c n count buf => exact .inl (sameNames_write n _).names

/-! ### Looking a name up -/

theorem lookup_filter_names (l : List (CString × Object)) :
    (l.filter fun x ↦ x.1 ≠ p).lookup q = if q = p then none else l.lookup q := by
  induction l with
  | nil => simp
  | cons x l ih =>
    by_cases hx : x.1 = p
    · rw [List.filter_cons_of_neg (by simpa using hx), ih, List.lookup_cons, hx]
      by_cases hq : q = p
      · rw [if_pos hq, if_pos hq]
      · rw [if_neg hq, if_neg hq, beq_false_of_ne hq]
    · rw [List.filter_cons_of_pos (by simpa using hx)]
      by_cases hq : q = x.1
      · rw [hq, if_neg hx, List.lookup_cons_self, List.lookup_cons_self]
      · rw [List.lookup_cons, List.lookup_cons, beq_false_of_ne hq]
        exact ih

/-- What is done to other paths does not change what a name denotes. -/
theorem lookup_kern {w : World FileSystem} {op : Op} (h : op.Elsewhere q none) :
    (op.kern (FileSystem.kernel P) w).names.lookup q = w.kern.names.lookup q := by
  obtain heq | ⟨c, mode, p, i, rfl, heq⟩ | ⟨c, p, rfl, heq⟩ := names_kern op <;> rw [heq]
  · have hne : (q == p) = false := beq_false_of_ne (Ne.symm h)
    rw [List.lookup_cons, hne]
  · rw [lookup_filter_names, if_neg (Ne.symm h)]

end

/-! ## The server between two calls -/

/-- A client that has mounted `dir`. -/
def mounted (dirname dir : CString) (c e : Int32) : Client := ⟨c, dir, some dirname, e⟩

/-- This path is sent for `fname`, and it is not too long for the server. -/
structure Sends (dirname dir fname path : CString) : Prop where
  eq : ∀ c e, (mounted dirname dir c e).translate fname = .ok path
  short : path.strlen < PATH_MAX

theorem Sends.lt {dirname dir fname path : CString} (h : Sends dirname dir fname path) :
    path.strlen + 1 < 2 ^ 31 := by
  have hshort := h.short
  rw [PATH_MAX] at hshort
  omega

/-- The server serves `dir`, which has these entries; `path` is a file with this inode, or nothing; and the
number of the last directory that was opened, the last client that has mounted it, the table, the open
files and the descriptors of the streams are as given. -/
structure Stage (dir path : CString) (ents : List Dirent) (num last : Int32) (inode : Option ℕ)
    (table : List Resource) (files : List OpenFile) (dirs : List (Dir × Int32)) (w : World FileSystem) :
    Prop where
  mountedDir : w.srv.mountedDir = dir
  num : w.srv.openDirId = num
  client : w.srv.clientId = last
  table : w.srv.resourceList = table
  files : w.kern.files = files
  dirFds : w.kern.dirFds = dirs
  listed : w.kern.names.lookup dir = some (.dir ents)
  named : w.kern.names.lookup path = inode.map .file

section
variable {P : Policy} {dir path : CString} {ents : List Dirent} {num last c g : Int32}
  {inode inode' : Option ℕ} {table table' : List Resource} {files files' : List OpenFile}
  {dirs : List (Dir × Int32)}
  {w w' : World FileSystem} {dirname fname : CString} {e n : Int32} {as : List Attempt}

theorem Stage.ne (h : Stage dir path ents num last inode table files dirs w) : path ≠ dir := by
  rintro rfl
  have hsame := h.listed.symm.trans h.named
  cases inode <;> cases hsame

theorem Stage.used (h : Stage dir path ents num last inode table files [] w) :
    w.kern.used = files.map OpenFile.fd := by
  rw [FileSystem.used, h.files, h.dirFds, List.map_nil, List.append_nil]

theorem mountedDir_of_perform {κ : Type} {K : Kernel κ} {w w' : World κ} {op : Op} {r : ReturnType}
    (hmount : op ≠ .mount) (h : perform K g op w = .ok (r, w')) :
    w'.srv.mountedDir = w.srv.mountedDir := by
  have hsame := perform_serving w w.srv.mountedDir K g hmount
  have hw : w.serving w.srv.mountedDir = w := rfl
  rw [hw, h] at hsame
  have hw' : w' = w'.serving w.srv.mountedDir := congrArg Prod.snd (Except.ok.inj hsame)
  rw [hw']
  rfl

/-- No mount, no directory opened or closed, and nothing that is done to this path. -/
def Beside (dir : CString) : Op → Prop
  | .mount | .openDir _ _ | .closeDir _ _ => False
  | .open_ _ _ q | .remove _ q => q ≠ dir
  | _ => True

theorem Beside.elsewhere {op : Op} (h : Beside dir op) : op.Elsewhere dir none := by
  cases op with
  | open_ | remove => exact h
  | close | read | write => exact (Option.some_ne_none _).symm
  | _ => trivial

theorem Beside.dirFds {op : Op} (h : Beside dir op) :
    (op.kern (FileSystem.kernel P) w).dirFds = w.kern.dirFds := by
  cases op with
  | mount | openDir | closeDir => exact h.elim
  | ignored | unmount => rfl
  | readDir n =>
    rw [Op.kern]
    cases findNode w.srv.openDirQueue n with
    | none => rfl
    | some d => exact (sameNames_readdir _).dirFds
  | remove => exact dirFds_remove
  | open_ => exact dirFds_open _
  | close c n => exact (sameNames_close n).dirFds
  | read n count => exact (sameNames_read n _).dirFds
  | write c n count buf => exact (sameNames_write n _).dirFds

/-- **One call later.**  Only the file, the table and the open files have to be looked at. -/
theorem Stage.next (h : Stage dir path ents num last inode table files dirs w) {op : Op}
    {r : ReturnType} (hperf : perform (FileSystem.kernel P) g op w = .ok (r, w'))
    (hop : Beside dir op) (hadm : op.blocked table g = false)
    (htable : w'.srv.resourceList = table') (hfiles : w'.kern.files = files')
    (hnamed : w'.kern.names.lookup path = inode'.map .file) :
    Stage dir path ents num last inode' table' files' dirs w' := by
  have hmount : op ≠ .mount := by
    rintro rfl
    exact hop
  rw [← h.table] at hadm
  have hperformed := performed_of_perform hadm hperf
  have hkern := hperformed.kern
  have hnum : w'.srv.openDirId = w.srv.openDirId := by
    cases hperformed with
    | ignored | unmount => rfl
    | mount => exact absurd rfl hmount
    | readDir h =>
      obtain ⟨d, -, rfl⟩ := readDirNum_world h
      exact World.after_openDirId ..
    | read h =>
      rw [readFd_world h]
      exact World.after_openDirId ..
    | write h =>
      rw [writeFd_world h]
      exact World.after_openDirId ..
    | openDir | noDir | closeDir => exact hop.elim
    | open_ | close | remove => exact World.after_openDirId ..
  refine ⟨(mountedDir_of_perform hmount hperf).trans h.mountedDir, hnum.trans h.num,
    (clientId_of_perform hmount hperf).trans h.client, htable, hfiles, ?_, ?_, hnamed⟩
  · rw [hkern, hop.dirFds]
    exact h.dirFds
  · rw [hkern, lookup_kern hop.elsewhere]
    exact h.listed

/-! ### Mounting and listing -/

variable (P) in
theorem Stage.mount (h : Stage dir path ents num last inode table files dirs w) (hdir : dir.strlen < 256)
    {dirname : CString} (hname : dirname.strlen + 1 < 2 ^ 31) {a : Attempt} (ha : a.others = []) :
    ∃ w', start.fsMount (FileSystem.kernel P) dirname a w
        = .ok ⟨0, mountReply (last + 1) dir, mounted dirname dir (last + 1) 0, w'⟩ ∧
      Stage dir path ents num (last + 1) inode table files dirs w' := by
  have hmeets : a.Meets (FileSystem.kernel P) .fsMount [.str dirname] w .mount w :=
    ⟨serveAll_of_others ha, [.str dirname hname], .cons (Param.passes_str _ _) .nil, rfl⟩
  have hanswer := mountClient_of_lt (w := w) (h.mountedDir ▸ hdir)
  rw [h.mountedDir, h.client] at hanswer
  exact ⟨_, fsMount_of_remote hdir ((remote_of_meets rfl hmeets).trans hanswer),
    h.mountedDir, h.num, rfl, h.table, h.files, h.dirFds, h.listed, h.named⟩

/-- The name of the folder itself is sent as the directory of the server. -/
theorem translateDir_folder {cl : Client} {folder : CString} (hmount : cl.mountedDir = some folder)
    (hne : folder.chars ≠ []) : cl.translateDir folder = .ok cl.alias_ := by
  obtain ⟨out, hout⟩ : ∃ out, strReplace folder (some folder) (some cl.alias_) = .ok out :=
    strReplace_isOk_iff.mpr hne
  obtain ⟨new, hchars, hnew⟩ :=
    (replaced_of_strReplace hout).exists_of_append (List.append_nil _).symm
  have hnil : new = [] := hnew.eq_self_iff.mpr (.inl fun hin ↦ hne (List.eq_nil_of_infix_nil hin))
  rw [hnil, List.append_nil] at hchars
  rw [Client.translateDir, hmount, hout, CString.ext_chars hchars]

/-- The handle denotes this stream, with so many entries left. -/
structure Listing (n : Int32) (d : Dir) (left : List Dirent) (w : World FileSystem) : Prop where
  dirOf : w.dirOf n = some d
  rest : w.kern.rest d = some left

/-- An attempt to open the directory is what reaches the server. -/
theorem meets_openDir {κ : Type} {K : Kernel κ} {w : World κ} {a : Attempt} (ha : a.others = [])
    (hdir : dir.strlen < 256) :
    a.Meets K .fsOpenDir (openDirParams (mounted dirname dir c e) dir) w (.openDir c dir) w := by
  have hshort : dir.strlen + 1 < 2 ^ 31 := by omega
  exact ⟨serveAll_of_others ha, [.int c, .str dir hshort],
    .cons (Param.passes_int _) (.cons (Param.passes_str _ _) .nil), Request.op_openDir⟩

theorem Stage.admits_dir (h : Stage dir path ents num last inode [] files dirs w) (c : Int32) :
    refuses (pathEntry w.srv.resourceList dir) c = false := by
  rw [h.table]
  rfl

variable (c e) in
/-- The directory is opened, and its stream takes a descriptor. -/
theorem Stage.openDir (h : Stage dir path ents num last inode [] files [] w)
    (hpick : P.pick w.kern.opens w.kern.used = some n) (hne : dirname.chars ≠ [])
    (hdir : dir.strlen < 256) {as : List Attempt} (hquiet : Quiet as) {val : Int32}
    (hval : val ≠ -EAGAIN) :
    ∃ w' d, (mounted dirname dir c e).fsOpenDir (FileSystem.kernel P) dirname val as w
        = .ok ⟨some (num + 1), mounted dirname dir c e, w'⟩ ∧
      Stage dir path ents (num + 1) last inode [⟨1, c, num + 1, dir⟩] files [(d, n)] w' ∧
      Listing (num + 1) d ents w' := by
  obtain ⟨a, rest, rfl, ha⟩ := hquiet.exists_cons
  have hpath : (mounted dirname dir c e).translateDir dirname = .ok dir :=
    translateDir_folder rfl hne
  have hcall : (FileSystem.kernel P).opendir w.kern dir = (.ok w.kern.nextDir,
      { w.kern with
        streams := (w.kern.nextDir, ents) :: w.kern.streams
        dirFds := (w.kern.nextDir, n) :: w.kern.dirFds
        nextDir := w.kern.nextDir + 1
        opens := w.kern.opens + 1 }) := by
    show w.kern.opendir P dir = _
    simp only [FileSystem.opendir, h.listed, hpick]
  obtain ⟨w', hopen, hopened⟩ :=
    openDirPath_of_ok (FileSystem.kernel P) w (h.admits_dir c) (congrArg Prod.fst hcall)
  have hperf : perform (FileSystem.kernel P) a.garbage (.openDir c dir) w
      = .ok (.int (num + 1), w') := by
    rw [perform, hopen, h.num]
  have hkern := hopened.kern
  rw [hcall] at hkern
  have hlist := hopened.list
  simp only [Op.action, hcall, Action.next, h.table, h.num] at hlist
  have hmount' : Op.openDir c dir ≠ .mount := by simp
  refine ⟨w', w.kern.nextDir, fsOpenDir_of_int hpath
    (openDirLoop_of_ne rfl ((remote_of_meets rfl (meets_openDir ha hdir)).trans hperf) hval rest), ?_, ?_⟩
  · refine ⟨(mountedDir_of_perform hmount' hperf).trans h.mountedDir, ?_,
      (clientId_of_perform hmount' hperf).trans h.client, hlist, ?_, ?_, ?_, ?_⟩
    · rw [hopened.id, h.num]
    · rw [hkern]
      exact h.files
    · rw [hkern]
      exact congrArg (_ :: ·) h.dirFds
    · rw [hkern]
      exact h.listed
    · rw [hkern]
      exact h.named
  · refine ⟨dirOf_cons_self (h.num ▸ hopened.queue), ?_⟩
    rw [hkern, FileSystem.rest, if_pos (Nat.lt_succ_self _), List.lookup_cons_self]

variable (P dirname e) in
/-- The directory is closed, and the descriptor is free again.  The lock is looked up by what the block for
the reply happens to hold; but the only entry is the client's own. -/
theorem Stage.closeDir {d : Dir} {m : Int32} (hn : n ≠ 0)
    (h : Stage dir path ents num last inode [⟨1, c, n, dir⟩] files [(d, m)] w) {left : List Dirent}
    (hlist : Listing n d left w) {as : List Attempt} (hquiet : Quiet as) :
    ∃ w', (mounted dirname dir c e).fsCloseDir (FileSystem.kernel P) n as w
        = .ok ⟨0, .int 0, mounted dirname dir c e, w'⟩ ∧
      Stage dir path ents num last inode [] files [] w' := by
  obtain ⟨node, hnode, rfl⟩ := Option.map_eq_some_iff.mp hlist.dirOf
  have hclose : (FileSystem.kernel P).closedir w.kern node.dir
      = (.ok (), { w.kern with
        streams := w.kern.streams.filter fun x ↦ x.1 ≠ node.dir
        dirFds := w.kern.dirFds.filter fun x ↦ x.1 ≠ node.dir }) := by
    show w.kern.closedir node.dir = _
    rw [FileSystem.closedir, (FileSystem.rest_eq_some hlist.rest).2]
  have hadm (g : Int32) : refuses (fdEntry w.srv.resourceList g) c = false := by
    rw [h.table, refuses_eq_false_iff]
    intro r hr
    obtain rfl := List.mem_singleton.mp (fdEntry_some hr).1
    rfl
  have hperf (g : Int32) : perform (FileSystem.kernel P) g (.closeDir c n) w = .ok (_, _) :=
    closeDirNum_of_admitted _ w (hadm g) hnode
  rw [hclose] at hperf
  have hmount : Op.closeDir c n ≠ .mount := by simp
  have htable : ((Op.closeDir c n).action (FileSystem.kernel P) w).next w.srv.resourceList = [] := by
    simp [Op.action, hnode, Action.next, h.table, hn]
  refine ⟨_, fsCloseDir_of_perform hquiet hperf, (mountedDir_of_perform hmount (hperf 0)).trans h.mountedDir, h.num,
    (clientId_of_perform hmount (hperf 0)).trans h.client, htable, h.files, ?_, h.listed, h.named⟩
  show w.kern.dirFds.filter (fun x ↦ x.1 ≠ node.dir) = []
  simp [h.dirFds]

/-! ### Writing and reading -/

variable {buf : Buffer}

/-- The file with this inode begins with these bytes. -/
def Begins (i : ℕ) (buf : Buffer) (w : World FileSystem) : Prop := (w.kern.content i).take 256 = buf.1

variable (c e) in
theorem Stage.openWrite (h : Stage dir path ents num last inode [] files [] w)
    (hsends : Sends dirname dir fname path) {m : Int32} (hserves : w.kern.Serves P path n m)
    (hquiet : Quiet as) :
    ∃ i w', (mounted dirname dir c e).fsOpen (FileSystem.kernel P) fname 1 as w
        = .ok ⟨n, .int n, mounted dirname dir c e, w'⟩ ∧
      Stage dir path ents num last (some i) [⟨1, c, n, path⟩] (⟨n, .file i, 0, true⟩ :: files) [] w' := by
  obtain ⟨i, fs', hopen, hname, -, -, hfiles⟩ :=
    FileSystem.open_to_write hserves (show openFlags 1 ≠ 0 by decide)
  have hopen' : (FileSystem.kernel P).open_ w.kern path (openFlags 1) = _ := hopen
  obtain ⟨w', hrun, rfl, htable⟩ := perform_open (by rw [h.table]; rfl) hopen'
  have hneg := not_neg_of_pos (P.pos hserves.first)
  refine ⟨i, w', ?_, h.next (g := 0) hrun h.ne rfl ?_ ?_ hname⟩
  · rw [fsOpen_of_perform hquiet (hsends.eq c e) hsends.lt (fun _ ↦ hrun) (ne_neg_EAGAIN hneg),
      if_neg hneg]
  · rw [htable, h.table]
    rfl
  · rw [hfiles, h.files]

variable (P dirname e) in
theorem Stage.write {i : ℕ}
    (h : Stage dir path ents num last (some i) [⟨1, c, n, path⟩] (⟨n, .file i, 0, true⟩ :: files) [] w)
    (hn : n ≠ 0) (hnew : n ∉ files.map OpenFile.fd) (hquiet : Quiet as) :
    ∃ w', (mounted dirname dir c e).fsWrite (FileSystem.kernel P) n buf.1 256 as w
        = .ok ⟨256, .int 256, mounted dirname dir c e, w'⟩ ∧
      Stage dir path ents num last (some i) [⟨1, c, n, path⟩] (⟨n, .file i, 256, true⟩ :: files) [] w' ∧
      Begins i buf w' := by
  have hsize : sizeT 256 = 256 := by decide
  have hbuf : buf.1.take (sizeT 256) = buf.1 := List.take_of_length_le (by rw [hsize, buf.2])
  obtain ⟨fs', hwrite, hnames, hcontent, -, -, hfiles⟩ :=
    FileSystem.write_head h.files hnew rfl rfl (buf.1.take (sizeT 256))
  have hwrite' : (FileSystem.kernel P).write w.kern n _ = _ := hwrite
  obtain ⟨w', hrun, rfl, htable⟩ := perform_write h.table hn (by rw [hsize, buf.2])
    (by rw [hbuf, buf.2]; decide) hwrite'
  simp only [hbuf, buf.2] at hrun hcontent hfiles
  have hadm : (Op.write c n 256 buf.1).blocked [⟨1, c, n, path⟩] 0 = false := by
    simp [Op.blocked, findResource, hn, refuses]
  refine ⟨w', fsWrite_of_perform hquiet buf fun _ ↦ hrun, h.next (g := 0) hrun trivial hadm
    (htable.trans h.table) hfiles (by rw [hnames, h.named]), ?_⟩
  have htake := FileSystem.take_overwrite (w.kern.content i) buf.1
  rw [buf.2] at htake
  rw [Begins, hcontent, htake]

variable (P dirname e) in
/-- Closing the file that was opened last. -/
theorem Stage.close {lock : Int32} {object : Object} {offset : ℕ} {writable : Bool}
    (h : Stage dir path ents num last inode [⟨lock, c, n, path⟩] (⟨n, object, offset, writable⟩ :: files)
      [] w) (hn : n ≠ 0) (hquiet : Quiet as) :
    ∃ w', (mounted dirname dir c e).fsClose (FileSystem.kernel P) n as w
        = .ok ⟨0, .int 0, mounted dirname dir c e, w'⟩ ∧
      Stage dir path ents num last inode [] files [] w' ∧ w'.kern = { w.kern with files := files } := by
  have hclose : (FileSystem.kernel P).close w.kern n = (.ok (), { w.kern with files := files }) :=
    FileSystem.close_head h.files
  obtain ⟨w', hrun, hkern, htable⟩ := perform_close h.table hn hclose
  have hadm : (Op.close c n).blocked [⟨lock, c, n, path⟩] 0 = false := by
    simp [Op.blocked, findResource, hn, refuses]
  refine ⟨w', ?_, h.next (g := 0) hrun trivial hadm htable ?_ ?_, hkern⟩
  · rw [fsClose_of_perform hquiet (fun _ ↦ hrun) (by decide), if_neg (by decide)]
  · rw [hkern]
  · rw [hkern]
    exact h.named

theorem open_file {fs : FileSystem} {i : ℕ} (hshort : path.strlen < PATH_MAX)
    (hfile : fs.names.lookup path = some (.file i)) :
    fs.open_ P path 0 = fs.install P (.file i) false := by
  simp only [FileSystem.open_, if_neg (Nat.not_le.mpr hshort), hfile]
  rfl

variable (c e) in
theorem Stage.openRead {i : ℕ} (h : Stage dir path ents num last (some i) [] files [] w)
    (hsends : Sends dirname dir fname path)
    (hpick : P.pick w.kern.opens w.kern.used = some n) (hquiet : Quiet as) :
    ∃ w', (mounted dirname dir c e).fsOpen (FileSystem.kernel P) fname 0 as w
        = .ok ⟨n, .int n, mounted dirname dir c e, w'⟩ ∧
      Stage dir path ents num last (some i) [⟨0, c, n, path⟩] (⟨n, .file i, 0, false⟩ :: files) [] w' ∧
      w'.kern.content = w.kern.content := by
  have hopen : (FileSystem.kernel P).open_ w.kern path (openFlags 0) = _ :=
    (open_file hsends.short h.named).trans (FileSystem.install_eq hpick _ _)
  obtain ⟨w', hrun, hkern, htable⟩ := perform_open (by rw [h.table]; rfl) hopen
  have hneg := not_neg_of_pos (P.pos hpick)
  refine ⟨w', ?_, h.next (g := 0) hrun h.ne rfl ?_ ?_ ?_, by rw [hkern]⟩
  · rw [fsOpen_of_perform hquiet (hsends.eq c e) hsends.lt (fun _ ↦ hrun) (ne_neg_EAGAIN hneg),
      if_neg hneg]
  · rw [htable, h.table]
    rfl
  · rw [hkern, ← h.files]
  · rw [hkern]
    exact h.named

variable (P dirname e) in
/-- What was written is read. -/
theorem Stage.read {i : ℕ}
    (h : Stage dir path ents num last (some i) [⟨0, c, n, path⟩] (⟨n, .file i, 0, false⟩ :: files) [] w)
    (hnew : n ∉ files.map OpenFile.fd) (hbegins : Begins i buf w) {readbuf : Buffer} {s : CString}
    (hs : CString.at? readbuf.1 = some s) {a : Attempt} (ha : a.others = []) :
    ∃ w' ret offset, (mounted dirname dir c e).fsRead (FileSystem.kernel P) n readbuf.1 256 a w
        = .ok (⟨256, ret, mounted dirname dir c e, w'⟩, buf.1) ∧
      Stage dir path ents num last (some i) [⟨0, c, n, path⟩] (⟨n, .file i, offset, false⟩ :: files)
        [] w' := by
  have hsize : sizeT 256 = 256 := by decide
  obtain ⟨offset, fs', hread, hfiles⟩ := FileSystem.read_head h.files hnew rfl rfl (sizeT 256)
  have hnames : fs'.names = w.kern.names := by
    have hsame : (w.kern.read n (sizeT 256)).2.names = w.kern.names :=
      (sameNames_read n (sizeT 256)).names
    rwa [show w.kern.read n (sizeT 256) = _ from hread] at hsame
  have hbs : ((w.kern.content i).drop 0).take (sizeT 256) = buf.1 := by
    rw [List.drop_zero, hsize]
    exact hbegins
  simp only [hbs] at hread
  have hread' : (FileSystem.kernel P).read w.kern n (sizeT 256) = _ := hread
  obtain ⟨w', hrun, hkern, htable⟩ := perform_read (by decide) (by rw [buf.2]; decide) hread'
  have hlen : 0 < Int32.ofNat (s.strlen + 1) := by
    have hlt := CString.strlen_lt_of_at? hs
    rw [readbuf.2] at hlt
    rw [Int32.lt_iff_toInt_lt, toInt_ofNat_of_lt (by omega), Int32.toInt_zero]
    omega
  have hcall : (mounted dirname dir c e).fsRead (FileSystem.kernel P) n readbuf.1 256 a w = _ :=
    fsRead_eq (serveAll_of_others ha) hs hlen (by rw [buf.2]; decide) hrun
  rw [if_neg (by rw [buf.2, readbuf.2]; decide), buf.2,
    List.drop_eq_nil_of_le (Nat.le_of_eq readbuf.2), List.append_nil] at hcall
  refine ⟨w', _, offset, hcall, h.next hrun trivial rfl (htable.trans h.table) ?_ ?_⟩
  · rw [hkern, hfiles]
  · rw [hkern, hnames]
    exact h.named

end

end FsClient
end RemoteFs
