import RemoteFs.CData

/-!
# The state of the file server

`server.c` keeps two linked lists in globals, newest entry first: `resource_list`, the lock table,
and `open_dir_queue`, the directory streams it has handed out.  They are lists here, the head being
the node the global points to.

The operating system is a parameter.  A `Kernel κ` answers the eight calls the server makes, as a
function of a state `κ` about which nothing is assumed, so a statement about every kernel is a
statement about every sequence of outcomes.  What the calls promise by their documentation is in
their types: a descriptor is not negative, an error number is positive, `read` does not return more
than was asked for and `write` does not write more than it was given.

`World` puts the server and its kernel side by side and remembers, in `calls`, which system calls
were made: "makes no call" and "is answered before any call" are statements about that list.
-/

set_option autoImplicit false

namespace RemoteFs

/-! ## The operating system -/

/-- A descriptor, as a successful `open` returns it. -/
abbrev Fd : Type := { n : Int32 // 0 ≤ n }

/-- An error number, as a failing call leaves it in `errno`. -/
abbrev Errno : Type := { e : Int32 // 0 < e }

/-- A `DIR *`. -/
abbrev Dir : Type := ℕ

/-- `struct dirent`, as it lies in memory. -/
structure Dirent where
  /-- The bytes of the structure. -/
  bytes : Bytes
  /-- `sizeof(struct dirent)`. -/
  size_eq : bytes.length = 280

/-- The calls the server makes. -/
structure Kernel (κ : Type) where
  open_ : κ → CString → Int32 → Except Errno Fd × κ
  close : κ → Int32 → Except Errno Unit × κ
  read : κ → Int32 → (count : ℕ) → Except Errno { bs : Bytes // bs.length ≤ count } × κ
  write : κ → Int32 → (data : Bytes) → Except Errno { n : ℕ // n ≤ data.length } × κ
  remove : κ → CString → Except Errno Unit × κ
  opendir : κ → CString → Except Errno Dir × κ
  readdir : κ → Dir → Except Errno (Option Dirent) × κ
  closedir : κ → Dir → Except Errno Unit × κ

/-- A system call with its arguments, as it is remembered. -/
inductive Syscall where
  | open_ (path : CString) (flags : Int32)
  | close (fd : Int32)
  | read (fd : Int32) (count : ℕ)
  | write (fd : Int32) (data : Bytes)
  | remove (path : CString)
  | opendir (path : CString)
  | readdir (dir : Dir)
  | closedir (dir : Dir)
  deriving DecidableEq

/-- The path a call is made on. -/
def Syscall.path? : Syscall → Option CString
  | .open_ p _ | .remove p | .opendir p => some p
  | _ => none

/-- `EAGAIN`, the refusal of a request whose path or descriptor somebody else holds. -/
def EAGAIN : Int32 := 11

/-! ## The globals -/

/-- `struct _resource`, without the link. -/
structure Resource where
  lockType : Int32
  id : Int32
  fd : Int32
  path : CString
  deriving DecidableEq

/-- `struct _node`, without the link. -/
structure Node where
  id : Int32
  dir : Dir
  deriving DecidableEq

/-- The globals of `server.c`.  `ret` is left out: every handler writes both of the fields it
returns before it returns them. -/
structure Server where
  mountedDir : CString
  openDirId : Int32 := 1
  openDirQueue : List Node := []
  resourceList : List Resource := []
  clientId : Int32 := 0
  errno : Int32 := 0

/-- The server, the kernel under it, and the calls made so far, newest first. -/
structure World (κ : Type) where
  srv : Server
  kern : κ
  calls : List Syscall := []

/-! ## The lock table -/

/-- `find_resource`: the first entry with the given path, or with the given descriptor.  The
client id is an argument of the C function too, and is not looked at there either. -/
def findResource : List Resource → Int32 → Int32 → Option CString → Option Resource
  | [], _, _, _ => none
  | res :: rest, id, fd, path =>
    if path = some res.path then some res
    else if fd ≠ 0 ∧ res.fd = fd then some res
    else findResource rest id fd path

/-- `remove_resource`: unlink the first entry of client `id` with the given path, or with the
given descriptor. -/
def removeResource : List Resource → Int32 → Int32 → Option CString → List Resource
  | [], _, _, _ => []
  | cur :: rest, id, fd, path =>
    if (path = some cur.path ∧ cur.id = id) ∨ (fd ≠ 0 ∧ cur.fd = fd ∧ cur.id = id) then rest
    else cur :: removeResource rest id fd path

/-- `add_resource`: push an entry. -/
def addResource (list : List Resource) (lock id fd : Int32) (path : CString) : List Resource :=
  ⟨lock, id, fd, path⟩ :: list

/-- `find` of `queue.c`: the first node with the given id. -/
def findNode : List Node → Int32 → Option Node
  | [], _ => none
  | n :: rest, id => if n.id = id then some n else findNode rest id

/-- The test every lock check ends in: `res != NULL && res->id != id`. -/
def refuses (res : Option Resource) (id : Int32) : Bool :=
  match res with
  | some r => r.id ≠ id
  | none => false

/-! ### The two searches as list functions -/

theorem findResource_eq_find? (l : List Resource) (id fd : Int32) (path : Option CString) :
    findResource l id fd path
      = l.find? fun r ↦ decide (path = some r.path) || decide (fd ≠ 0 ∧ r.fd = fd) := by
  induction l with
  | nil => rfl
  | cons r l ih =>
    rw [findResource, List.find?_cons]
    by_cases hp : path = some r.path
    · simp [hp]
    · by_cases hf : fd ≠ 0 ∧ r.fd = fd
      · simp [hp, hf]
      · simp only [hp, hf, if_false, decide_false, Bool.or_self, ih]

theorem removeResource_eq_eraseP (l : List Resource) (id fd : Int32) (path : Option CString) :
    removeResource l id fd path
      = l.eraseP fun r ↦ (decide (path = some r.path) || decide (fd ≠ 0 ∧ r.fd = fd)) &&
          decide (r.id = id) := by
  induction l with
  | nil => rfl
  | cons r l ih =>
    rw [removeResource, List.eraseP_cons, ih]
    by_cases hp : path = some r.path <;> by_cases hf : fd ≠ 0 ∧ r.fd = fd <;>
      by_cases hi : r.id = id <;> simp_all

/-- A search by path finds the first entry with that path. -/
theorem findResource_path (l : List Resource) (id : Int32) (p : CString) :
    findResource l id 0 (some p) = l.find? fun r ↦ decide (r.path = p) := by
  rw [findResource_eq_find?]
  congr 1
  funext r
  simp [eq_comm]

/-- A search by descriptor finds the first entry with that number, and none at all for `0`. -/
theorem findResource_fd (l : List Resource) (id fd : Int32) :
    findResource l id fd none = l.find? fun r ↦ decide (fd ≠ 0 ∧ r.fd = fd) := by
  rw [findResource_eq_find?]
  simp

theorem removeResource_path (l : List Resource) (id : Int32) (p : CString) :
    removeResource l id 0 (some p) = l.eraseP fun r ↦ decide (r.path = p ∧ r.id = id) := by
  rw [removeResource_eq_eraseP]
  congr 1
  funext r
  simp [eq_comm]

theorem removeResource_fd (l : List Resource) (id fd : Int32) :
    removeResource l id fd none
      = l.eraseP fun r ↦ decide (fd ≠ 0 ∧ r.fd = fd ∧ r.id = id) := by
  rw [removeResource_eq_eraseP]
  congr 1
  funext r
  simp [Bool.and_assoc]

end RemoteFs
