import RemoteFs.Client.Directories
import RemoteFs.Client.MountPoint

/-!
# The client program

`fs_client.c`: it mounts a folder, lists it, writes 256 random bytes to the file `testing` in it, reads
them back, opens the file three times more, closes it once, removes it and leaves.

The program has the library with its globals (`Client`), and what it prints is its result, with the exit
status.  Messages of the library, and what it says about `/dev/urandom`, are left out; `sprintf` writes to
a pointer that is not initialised, and how many bytes there is room for where it points is a parameter.
-/

set_option autoImplicit false

namespace RemoteFs
namespace FsClient

variable {κ : Type}

/-! ## The program -/

/-- An array of 256 bytes. -/
abbrev Buffer : Type := { bs : Bytes // bs.length = 256 }

/-- What the program finds in memory and elsewhere. -/
structure Input where
  /-- What it reads from `/dev/urandom`. -/
  buf : Buffer
  /-- What `readbuf` happens to hold. -/
  readbuf : Buffer
  /-- How many bytes can be written where `fname` happens to point. -/
  room : ℕ
  /-- What the local variable of `fsOpenDir` happens to hold. -/
  val : Int32

/-- What goes on around its calls, in the order in which it makes them. -/
structure Around where
  mount : Attempt
  openDir : List Attempt
  readDir : List Attempt
  closeDir : List Attempt
  openWrite : List Attempt
  write : List Attempt
  closeWrite : List Attempt
  openRead : List Attempt
  read : Attempt
  closeRead : List Attempt
  open₃ : List Attempt
  open₄ : List Attempt
  open₅ : List Attempt
  close₅ : List Attempt
  remove : List Attempt
  unmount : Attempt

/-- What is printed. -/
inductive Line where
  | fsMount (res : Int32)
  | openFailed
  | opened
  | entry (fdent : FsDirent)
  | fsCloseDir (res : Int32)
  /-- `printBuf` of 256 bytes. -/
  | dump (buf : Bytes)
  | fewerWritten
  | fewerRead
  | differs
  | identical (readcount : Int32)
  | fsRemove (res : Int32)
  deriving DecidableEq

/-- How the program ends. -/
structure Ending (κ : Type) where
  status : Int32
  printed : List Line
  client : Client
  world : World κ

/-- The globals of the library when the program starts. -/
def start : Client := ⟨0, .lit "", none, 0⟩

section
variable (K : Kernel κ)

/-- `for(fdent = fsReadDir(fd); fdent != NULL; fdent = fsReadDir(fd))` -/
def listLoop (cl : Client) (fd : Int32) : List Attempt → World κ →
    Except Fault (List FsDirent × Client × World κ)
  | [], _ => .error .hang
  | a :: as, w => do
    let read ← cl.fsReadDir K fd a w
    match read.value with
    | none => return ([], read.client, read.world)
    | some fdent =>
      let (rest, cl, w) ← listLoop read.client fd as read.world
      return (fdent :: rest, cl, w)

/-- `sprintf(fname, "%s/%s", dirname, "testing")` -/
def testing (dirname : CString) (room : ℕ) : Except Fault CString :=
  let fname := dirname.below (.lit "testing")
  if room < fname.strlen + 1 then .error .overflow else .ok fname

variable (dirname fname : CString) (inp : Input) (around : Around)

/-- From the third `fsOpen` on; the results of two of them are not looked at. -/
def leave (printed : List Line) (cl : Client) (w : World κ) : Except Fault (Ending κ) := do
  let o ← cl.fsOpen K fname 0 around.open₃ w
  let o ← o.client.fsOpen K fname 0 around.open₄ o.world
  let o ← o.client.fsOpen K fname 0 around.open₅ o.world
  let closed ← o.client.fsClose K o.value around.close₅ o.world
  let removed ← closed.client.fsRemove K fname around.remove closed.world
  let left ← removed.client.fsUnmount K dirname around.unmount removed.world
  let printed := printed ++ [.fsRemove removed.value]
  return ⟨if left.value < 0 then 1 else 0, printed, left.client, left.world⟩

/-- What the program says of what it has read. -/
def compared (buf readbuf : Bytes) (readcount : Int32) : List Line :=
  (if readcount < 256 then [.fewerRead] else []) ++ [.dump readbuf,
    if readbuf.take (sizeT readcount) = buf.take (sizeT readcount) then .identical readcount
    else .differs]

/-- From the second `fsOpen` on. -/
def readBack (printed : List Line) (cl : Client) (w : World κ) : Except Fault (Ending κ) := do
  let opened ← cl.fsOpen K fname 0 around.openRead w
  if opened.value < 0 then return ⟨1, printed, opened.client, opened.world⟩
  else
    let (got, readbuf) ← opened.client.fsRead K opened.value inp.readbuf.1 256 around.read opened.world
    -- `memcmp` takes the count for a `size_t`
    if 256 < sizeT got.value then throw .overread
    else
      let printed := printed ++ compared inp.buf.1 readbuf got.value
      let closed ← got.client.fsClose K opened.value around.closeRead got.world
      if closed.value < 0 then return ⟨1, printed, closed.client, closed.world⟩
      else leave K dirname fname around printed closed.client closed.world

/-- From the first `fsOpen` on. -/
def writeOut (printed : List Line) (cl : Client) (w : World κ) : Except Fault (Ending κ) := do
  let opened ← cl.fsOpen K fname 1 around.openWrite w
  if opened.value < 0 then return ⟨1, printed, opened.client, opened.world⟩
  else
    let wrote ← opened.client.fsWrite K opened.value inp.buf.1 256 around.write opened.world
    let printed := printed ++ if wrote.value < 256 then [.fewerWritten] else []
    let closed ← wrote.client.fsClose K opened.value around.closeWrite wrote.world
    if closed.value < 0 then return ⟨1, printed, closed.client, closed.world⟩
    else readBack K dirname fname inp around printed closed.client closed.world

/-- `main`, called with the name of a folder and the address of a server. -/
def main (w : World κ) : Except Fault (Ending κ) := do
  let mounted ← start.fsMount K dirname around.mount w
  let opened ← mounted.client.fsOpenDir K dirname inp.val around.openDir mounted.world
  match opened.value with
  | none => return ⟨1, [.fsMount mounted.value, .openFailed], opened.client, opened.world⟩
  | some fd =>
    let (ents, cl, w) ← listLoop K opened.client fd around.readDir opened.world
    let printed := .fsMount mounted.value :: .opened :: ents.map .entry
    if cl.errno ≠ 0 then return ⟨1, printed, cl, w⟩
    else
      let closed ← cl.fsCloseDir K fd around.closeDir w
      let fname ← testing dirname inp.room
      let printed := printed ++ [.fsCloseDir closed.value, .dump inp.buf.1]
      writeOut K dirname fname inp around printed closed.client closed.world

end

end FsClient
end RemoteFs
