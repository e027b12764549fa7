import Mathlib.Logic.Function.Basic
import RemoteFs.Server.State

/-!
# A file system

The kernels of the later files are arbitrary.  This one is concrete: names, contents, open files
with their offsets, and directory streams, with the error numbers the manual pages give.  Runs that
show something going wrong take place on it, and so does the round trip of a file's contents.

Which descriptor `open` and `opendir` choose is left to a `Policy`, about which only the manual's promise
is known: the descriptor is not open already (and positive, the server's own standard streams being
open).  The choice may differ from one time to the next.  `Policy.lowest` is what Linux does.

`Serves` says when opening a path to write and then to read succeeds, and the lemmas after it follow
a file through `open`, `write`, `close`, `open`, `read` and `close`: what was written is read.

Two names may denote the same object, so hard links are covered.  Permissions, and the directories a path
leads through, are not modelled.  Some limits matter where something is proved about this file system for
whatever clients may ask for:

* a name is looked up as it is spelled, so a path that does not exist yet is another file in another
  spelling (`/srv//a` for `/srv/a`);
* `close`, `read` and `write` reach the descriptors that `open` has returned, and no others: not `0`, `1` and
  `2`, which stay open, nor those of the directory streams;
* the entries of a directory are what they are, whatever files are made or removed.
-/

set_option autoImplicit false

namespace RemoteFs

/-- How a descriptor is chosen; `none` when the table of the process is full. -/
structure Policy where
  /-- The choice, given how many there were before and the descriptors that are open. -/
  pick : ℕ → List Int32 → Option Int32
  /-- A descriptor is positive. -/
  pos : ∀ {t used n}, pick t used = some n → 0 < n
  /-- It is not open already. -/
  fresh : ∀ {t used n}, pick t used = some n → n ∉ used

/-- What a name denotes. -/
inductive Object where
  | file (inode : ℕ)
  | dir (entries : List Dirent)

/-- An open file description. -/
structure OpenFile where
  fd : Int32
  object : Object
  offset : ℕ := 0
  writable : Bool

/-- The state of the file system. -/
structure FileSystem where
  names : List (CString × Object) := []
  content : ℕ → Bytes := fun _ ↦ []
  nextInode : ℕ := 0
  files : List OpenFile := []
  /-- How many descriptors there have been. -/
  opens : ℕ := 0
  streams : List (Dir × List Dirent) := []
  /-- The descriptors of the streams. -/
  dirFds : List (Dir × Int32) := []
  nextDir : Dir := 0

def ENOENT : Errno := ⟨2, by decide⟩
def EBADF : Errno := ⟨9, by decide⟩
def ENOTDIR : Errno := ⟨20, by decide⟩
def EISDIR : Errno := ⟨21, by decide⟩
def EMFILE : Errno := ⟨24, by decide⟩
def ENAMETOOLONG : Errno := ⟨36, by decide⟩
def ENOTEMPTY : Errno := ⟨39, by decide⟩

/-- The size of the longest path, terminator included. -/
def PATH_MAX : ℕ := 4096

namespace FileSystem

/-- The descriptors in use. -/
def used (fs : FileSystem) : List Int32 := fs.files.map OpenFile.fd ++ fs.dirFds.map Prod.snd

/-- The open file behind a descriptor. -/
def file? (fs : FileSystem) (fd : Int32) : Option OpenFile := fs.files.find? fun f ↦ f.fd = fd

/-- `fs` with a new open file for `object`. -/
def install (P : Policy) (fs : FileSystem) (object : Object) (writable : Bool) :
    Except Errno Fd × FileSystem :=
  match h : P.pick fs.opens fs.used with
  | none => (.error EMFILE, fs)
  | some n =>
    (.ok ⟨n, Int32.le_of_lt (P.pos h)⟩,
      { fs with files := ⟨n, object, 0, writable⟩ :: fs.files, opens := fs.opens + 1 })

/-- `fs` with a new empty file under a name. -/
def create (fs : FileSystem) (path : CString) : FileSystem :=
  { fs with
    names := (path, .file fs.nextInode) :: fs.names
    content := Function.update fs.content fs.nextInode []
    nextInode := fs.nextInode + 1 }

/-- `open`.  Only the flags the server uses are known: `O_RDONLY`, and anything else stands for
`O_WRONLY | O_CREAT`. -/
def open_ (P : Policy) (fs : FileSystem) (path : CString) (flags : Int32) :
    Except Errno Fd × FileSystem :=
  if PATH_MAX ≤ path.strlen then (.error ENAMETOOLONG, fs)
  else
    match fs.names.lookup path with
    | some (.file i) => fs.install P (.file i) (flags ≠ 0)
    | some (.dir es) => if flags = 0 then fs.install P (.dir es) false else (.error EISDIR, fs)
    | none =>
      if flags = 0 then (.error ENOENT, fs)
      -- no file is made when there is no descriptor for it
      else if (P.pick fs.opens fs.used).isNone then (.error EMFILE, fs)
      else (fs.create path).install P (.file fs.nextInode) true

def close (fs : FileSystem) (fd : Int32) : Except Errno Unit × FileSystem :=
  match fs.file? fd with
  | none => (.error EBADF, fs)
  | some _ => (.ok (), { fs with files := fs.files.eraseP fun f ↦ f.fd = fd })

/-- The open file of `fd` moved to another offset. -/
def seek (fs : FileSystem) (fd : Int32) (offset : ℕ) : FileSystem :=
  { fs with files := fs.files.map fun f ↦ if f.fd = fd then { f with offset := offset } else f }

def read (fs : FileSystem) (fd : Int32) (count : ℕ) :
    Except Errno { bs : Bytes // bs.length ≤ count } × FileSystem :=
  match fs.file? fd with
  | none => (.error EBADF, fs)
  | some f =>
    if f.writable then (.error EBADF, fs)
    else
      match f.object with
      | .dir _ => (.error EISDIR, fs)
      | .file i =>
        let bs := ((fs.content i).drop f.offset).take count
        (.ok ⟨bs, List.length_take_le _ _⟩, fs.seek fd (f.offset + bs.length))

/-- `data` written over `old` from `offset` on; a gap is filled with zeros. -/
def overwrite (old : Bytes) (offset : ℕ) (data : Bytes) : Bytes :=
  old.take offset ++ List.replicate (offset - old.length) 0 ++ data ++
    old.drop (offset + data.length)

def write (fs : FileSystem) (fd : Int32) (data : Bytes) :
    Except Errno { n : ℕ // n ≤ data.length } × FileSystem :=
  match fs.file? fd with
  | none => (.error EBADF, fs)
  | some f =>
    if f.writable then
      match f.object with
      | .dir _ => (.error EISDIR, fs)
      | .file i =>
        (.ok ⟨data.length, le_refl _⟩,
          { fs.seek fd (f.offset + data.length) with
            content := Function.update fs.content i (overwrite (fs.content i) f.offset data) })
    else (.error EBADF, fs)

def remove (fs : FileSystem) (path : CString) : Except Errno Unit × FileSystem :=
  match fs.names.lookup path with
  | none => (.error ENOENT, fs)
  | some (.dir (_ :: _)) => (.error ENOTEMPTY, fs)
  | some _ => (.ok (), { fs with names := fs.names.filter fun x ↦ x.1 ≠ path })

def opendir (P : Policy) (fs : FileSystem) (path : CString) : Except Errno Dir × FileSystem :=
  match fs.names.lookup path with
  | none => (.error ENOENT, fs)
  | some (.file _) => (.error ENOTDIR, fs)
  | some (.dir es) =>
    match P.pick fs.opens fs.used with
    | none => (.error EMFILE, fs)
    | some n =>
      (.ok fs.nextDir,
        { fs with
          streams := (fs.nextDir, es) :: fs.streams
          dirFds := (fs.nextDir, n) :: fs.dirFds
          nextDir := fs.nextDir + 1
          opens := fs.opens + 1 })

def readdir (fs : FileSystem) (d : Dir) : Except Errno (Option Dirent) × FileSystem :=
  match fs.streams.lookup d with
  | none => (.error EBADF, fs)
  | some [] => (.ok none, fs)
  | some (e :: es) =>
    (.ok (some e),
      { fs with streams := fs.streams.map fun x ↦ if x.1 = d then (d, es) else x })

def closedir (fs : FileSystem) (d : Dir) : Except Errno Unit × FileSystem :=
  match fs.streams.lookup d with
  | none => (.error EBADF, fs)
  | some _ =>
    (.ok (), { fs with
      streams := fs.streams.filter fun x ↦ x.1 ≠ d
      dirFds := fs.dirFds.filter fun x ↦ x.1 ≠ d })

/-- The file system as the kernel under the server. -/
def kernel (P : Policy) : Kernel FileSystem where
  open_ := open_ P
  close := close
  read := read
  write := write
  remove := remove
  opendir := opendir P
  readdir := readdir
  closedir := closedir

theorem fresh_fds {fs : FileSystem} {n : Int32} (h : n ∉ fs.used) : n ∉ fs.files.map OpenFile.fd :=
  fun hn ↦ h (List.mem_append_left _ hn)

/-! ## The file opened last

The descriptor `open` returns is new, so looking it up finds the file that was just opened, and
using it leaves the others alone. -/

section
variable {fs : FileSystem} {f : OpenFile} {rest : List OpenFile}

theorem file?_head (h : fs.files = f :: rest) : fs.file? f.fd = some f := by
  simp [file?, h]

theorem files_seek_head (h : fs.files = f :: rest) (hnew : f.fd ∉ rest.map OpenFile.fd)
    (offset : ℕ) : (fs.seek f.fd offset).files = { f with offset := offset } :: rest := by
  have hrest :
      (rest.map fun g ↦ if g.fd = f.fd then { g with offset := offset } else g) = rest := by
    refine (List.map_congr_left fun g hg ↦ if_neg ?_).trans (List.map_id' rest)
    exact fun heq ↦ hnew (List.mem_map.mpr ⟨g, hg, heq⟩)
  rw [seek, h, List.map_cons, if_pos rfl, hrest]

theorem write_head (h : fs.files = f :: rest) (hnew : f.fd ∉ rest.map OpenFile.fd)
    (hw : f.writable = true) {i : ℕ} (hi : f.object = .file i) (data : Bytes) :
    ∃ fs', fs.write f.fd data = (.ok ⟨data.length, le_refl _⟩, fs') ∧ fs'.names = fs.names ∧
      fs'.content i = overwrite (fs.content i) f.offset data ∧ fs'.opens = fs.opens ∧
      fs'.dirFds = fs.dirFds ∧ fs'.files = { f with offset := f.offset + data.length } :: rest := by
  have hwrite : fs.write f.fd data = (.ok ⟨data.length, le_refl _⟩,
      { fs.seek f.fd (f.offset + data.length) with
        content := Function.update fs.content i (overwrite (fs.content i) f.offset data) }) := by
    simp only [write, file?_head h, hw, hi, if_true]
  exact ⟨_, hwrite, rfl, Function.update_self .., rfl, rfl, files_seek_head h hnew _⟩

theorem read_head (h : fs.files = f :: rest) (hnew : f.fd ∉ rest.map OpenFile.fd)
    (hw : f.writable = false) {i : ℕ} (hi : f.object = .file i) (count : ℕ) :
    ∃ offset fs', fs.read f.fd count
        = (.ok ⟨((fs.content i).drop f.offset).take count, List.length_take_le _ _⟩, fs') ∧
      fs'.files = { f with offset := offset } :: rest := by
  have hread : fs.read f.fd count
      = (.ok ⟨((fs.content i).drop f.offset).take count, List.length_take_le _ _⟩,
        fs.seek f.fd (f.offset + (((fs.content i).drop f.offset).take count).length)) := by
    simp only [read, file?_head h, hw, hi, Bool.false_eq_true, if_false]
  exact ⟨_, _, hread, files_seek_head h hnew _⟩

theorem close_head (h : fs.files = f :: rest) :
    fs.close f.fd = (.ok (), { fs with files := rest }) := by
  simp [close, file?_head h, h]

end

/-! ## Writing a file and reading it back -/

/-- Opening `path` to write succeeds and returns `n`, and opening it again to read, after the first
descriptor has been closed, succeeds and returns `m`. -/
structure Serves (P : Policy) (fs : FileSystem) (path : CString) (n m : Int32) : Prop where
  /-- The path is not too long. -/
  short : path.strlen < PATH_MAX
  /-- It is not a directory. -/
  notDir : ∀ es, fs.names.lookup path ≠ some (.dir es)
  first : P.pick fs.opens fs.used = some n
  second : P.pick (fs.opens + 1) fs.used = some m

section
variable {P : Policy} {fs : FileSystem} {path : CString} {n m : Int32}

theorem install_eq (h : P.pick fs.opens fs.used = some n) (object : Object) (writable : Bool) :
    fs.install P object writable = (.ok ⟨n, Int32.le_of_lt (P.pos h)⟩,
      { fs with files := ⟨n, object, 0, writable⟩ :: fs.files, opens := fs.opens + 1 }) := by
  rw [install]
  split
  · rename_i hnone
    rw [h] at hnone
    cases hnone
  · rename_i n' hsome
    rw [h] at hsome
    cases hsome
    rfl

/-- The path is opened to write: it is a file now, if it was none before. -/
theorem open_to_write (h : fs.Serves P path n m) {flags : Int32} (hflags : flags ≠ 0) :
    ∃ i fs', fs.open_ P path flags = (.ok ⟨n, Int32.le_of_lt (P.pos h.first)⟩, fs') ∧
      fs'.names.lookup path = some (.file i) ∧ fs'.opens = fs.opens + 1 ∧
      fs'.dirFds = fs.dirFds ∧ fs'.files = ⟨n, .file i, 0, true⟩ :: fs.files := by
  cases hlookup : fs.names.lookup path with
  | none =>
    have hopen : fs.open_ P path flags = (fs.create path).install P (.file fs.nextInode) true := by
      simp only [open_, if_neg (Nat.not_le.mpr h.short), hlookup, if_neg hflags, h.first,
        Option.isNone_some, Bool.false_eq_true, if_false]
    have hpick : P.pick (fs.create path).opens (fs.create path).used = some n := h.first
    rw [hopen, install_eq hpick]
    exact ⟨_, _, rfl, List.lookup_cons_self, rfl, rfl, rfl⟩
  | some object =>
    cases object with
    | dir es => exact absurd hlookup (h.notDir es)
    | file i =>
      have hopen : fs.open_ P path flags = fs.install P (.file i) true := by
        simp only [open_, if_neg (Nat.not_le.mpr h.short), hlookup, decide_eq_true hflags]
      rw [hopen, install_eq h.first]
      exact ⟨i, _, rfl, hlookup, rfl, rfl, rfl⟩

/-- A file is opened to read. -/
theorem open_to_read (hshort : path.strlen < PATH_MAX) {i : ℕ}
    (hfile : fs.names.lookup path = some (.file i)) (hpick : P.pick fs.opens fs.used = some m) :
    ∃ fs', fs.open_ P path 0 = (.ok ⟨m, Int32.le_of_lt (P.pos hpick)⟩, fs') ∧
      fs'.content = fs.content ∧ fs'.files = ⟨m, .file i, 0, false⟩ :: fs.files := by
  have hopen : fs.open_ P path 0 = fs.install P (.file i) false := by
    simp only [open_, if_neg (Nat.not_le.mpr hshort), hfile]
    rfl
  rw [hopen, install_eq hpick]
  exact ⟨_, rfl, rfl, rfl⟩

theorem take_overwrite (old data : Bytes) : (overwrite old 0 data).take data.length = data := by
  simp [overwrite]

end

end FileSystem

/-- The lowest descriptor from `3` on that is not open, of a process that may have 1024. -/
def Policy.lowest : Policy where
  pick _ used := (List.range' 3 1021).findSome? fun n ↦
    if Int32.ofNat n ∈ used then none else some (Int32.ofNat n)
  pos := by
    intro _ used n h
    obtain ⟨m, hm, hn⟩ := List.exists_of_findSome?_eq_some h
    split at hn
    · cases hn
    · cases hn
      rw [List.mem_range'_1] at hm
      rw [Int32.lt_iff_toInt_lt, toInt_ofNat_of_lt (by omega)]
      simp only [Int32.toInt_zero]
      omega
  fresh := by
    intro _ used n h
    obtain ⟨m, hm, hn⟩ := List.exists_of_findSome?_eq_some h
    split at hn
    · cases hn
    · cases hn
      assumption

/-- A file system with an empty directory. -/
def emptyDir : FileSystem := { names := [(.lit "/srv", .dir [])] }

end RemoteFs
