import RemoteFs.Client.Api

/-!
# The client library: mounting and directories

The four calls of `fs_client_api.c` that `RemoteFs.Client.Api` leaves out.  None of them tries
again, though `fsOpenDir` has a loop: its test is on a local variable that is only ever set when
`ret.is_error` is `1`, and no stub writes that field.  What the variable happens to hold is the
argument `val`.

`fsOpenDir` and `fsReadDir` return pointers.  A `Pointed` is what such a call leaves: what the
pointer points to, or `none` for `NULL`.
-/

set_option autoImplicit false

namespace RemoteFs

variable {κ : Type}

/-- `struct fsDirent`, the name as the 256 bytes of its field. -/
structure FsDirent where
  entName : Bytes
  entType : UInt8
  deriving DecidableEq

def DT_DIR : UInt8 := 4

def DT_REG : UInt8 := 8

/-- The mapping of `d_type`; `255` is the `-1` of the source in an `unsigned char`. -/
def entTypeOf (dType : UInt8) : UInt8 :=
  if dType = DT_DIR then 1 else if dType = DT_REG then 0 else 255

/-- What a call that returns a pointer leaves. -/
structure Pointed (κ α : Type) where
  value : Option α
  client : Client
  world : World κ

/-- The fields of a `struct dirent` the client copies: `d_type` stands behind the inode, the offset
and the length of the record, and `d_name` behind that. -/
def direntAt (d : Bytes) : Except Fault FsDirent :=
  match d[18]? with
  | none => .error .overread
  | some dType =>
    if d.length < 19 + 256 then .error .overread
    else .ok ⟨(d.drop 19).take 256, entTypeOf dType⟩

namespace Client

/-- What `fsReadDir` makes of a reply. -/
def receiveDirent (cl : Client) (ret : ReturnType) : Except Fault (Option FsDirent × Client) :=
  match ret.returnVal with
  | none => .ok (none, cl)
  | some val =>
    if ret.returnSize = sizeofInt then do
      let e ← intAt val
      return (none, { cl with errno := e })
    else do
      let dent ← direntAt val
      return (some dent, cl)

end Client

section
variable (K : Kernel κ) (cl : Client)

namespace Client

/-- The test `ret.return_val < 0` is on a pointer, and fails. -/
def fsMount (localFolderName : CString) (a : Attempt) (w : World κ) :
    Except Fault (Outcome κ) := do
  let (ret, w) ← remote K .fsMount [.str localFolderName] a w
  let mount := ret.returnVal.getD []
  let id ← intAt mount
  if mount.length < 4 + 256 then .error .overread
  else
    match CString.at? ((mount.drop 4).take 256) with
    | none => .error .overread
    | some path =>
      return ⟨0, ret, { cl with id := id, alias_ := path, mountedDir := some localFolderName }, w⟩

/-- `errno` is set to `-1` when there is a result. -/
def fsUnmount (localFolderName : CString) (a : Attempt) (w : World κ) :
    Except Fault (Outcome κ) := do
  let (ret, w) ← remote K .fsUnmount [.int cl.id, .str localFolderName] a w
  if ret.returnVal ≠ none then return .failed cl 1 ret w else return ⟨0, ret, cl, w⟩

/-- A directory name as it is sent to the server. -/
def translateDir (cl : Client) (folderName : CString) : Except Fault CString :=
  strReplace folderName cl.mountedDir (some cl.alias_)

/-- `do { ret = …; if (ret.is_error == 1) val = *(int *)ret.return_val; } while (val == -EAGAIN)` -/
def openDirLoop (call : Attempt → World κ → Except Fault (ReturnType × World κ)) (val : Int32) :
    List Attempt → World κ → Except Fault (ReturnType × World κ)
  | [], _ => .error .hang
  | a :: as, w => do
    let (ret, w) ← call a w
    let val ← if ret.isError = 1 then ret.int? else .ok val
    if val = -EAGAIN then openDirLoop call val as w else return (ret, w)

/-- The handle is the `int` the result points to. -/
def fsOpenDir (folderName : CString) (val : Int32) (as : List Attempt) (w : World κ) :
    Except Fault (Pointed κ Int32) := do
  let path ← cl.translateDir folderName
  let (ret, w) ← openDirLoop (remote K .fsOpenDir [.int cl.id, .str path]) val as w
  match ret.returnVal with
  | none => return ⟨none, { cl with errno := -1 }, w⟩
  | some val => return ⟨some (← intAt val), cl, w⟩

/-- The entry is copied to the global `dent`, which the result points to. -/
def fsReadDir (folder : Int32) (a : Attempt) (w : World κ) :
    Except Fault (Pointed κ FsDirent) := do
  let (ret, w) ← remote K .fsReadDir [.int cl.id, .int folder] a w
  let (dent, cl) ← cl.receiveDirent ret
  return ⟨dent, cl, w⟩

end Client

end

/-! ## Entries -/

theorem Dirent.dType_lt (d : Dirent) : 18 < d.bytes.length := by
  rw [d.size_eq]
  decide

/-- The entry a client makes of a `struct dirent`. -/
def Dirent.entry (d : Dirent) : FsDirent :=
  ⟨(d.bytes.drop 19).take 256, entTypeOf (d.bytes.get ⟨18, d.dType_lt⟩)⟩

/-- **The three types of entries**: `0` is a file, `1` a directory, and `255` anything else. -/
theorem Dirent.entType_entry (d : Dirent) {dType : UInt8} (h : d.bytes.get ⟨18, d.dType_lt⟩ = dType) :
    (d.entry.entType = 0 ↔ dType = DT_REG) ∧ (d.entry.entType = 1 ↔ dType = DT_DIR) ∧
      (d.entry.entType = 255 ↔ dType ≠ DT_REG ∧ dType ≠ DT_DIR) := by
  have htype : d.entry.entType = entTypeOf dType := congrArg entTypeOf h
  rw [htype]
  by_cases hdir : dType = DT_DIR
  · subst hdir
    decide
  · by_cases hreg : dType = DT_REG
    · subst hreg
      decide
    · simp [entTypeOf, hdir, hreg]

theorem direntAt_bytes (d : Dirent) : direntAt d.bytes = .ok d.entry := by
  have hroom : ¬ d.bytes.length < 19 + 256 := by
    rw [d.size_eq]
    decide
  rw [direntAt, List.getElem?_eq_getElem d.dType_lt]
  simp only [if_neg hroom]
  rfl

/-- **The three replies to `fsReadDir` are told apart.** -/
theorem receiveDirent_entry (cl : Client) (d : Dirent) :
    cl.receiveDirent ⟨some d.bytes, 280, 0⟩ = .ok (some d.entry, cl) := by
  have hsize : (280 : Int32) ≠ sizeofInt := by decide
  simp only [Client.receiveDirent, if_neg hsize, direntAt_bytes]
  rfl

theorem receiveDirent_null (cl : Client) : cl.receiveDirent .null = .ok (none, cl) := rfl

theorem receiveDirent_int (cl : Client) (e : Int32) :
    cl.receiveDirent (.int e) = .ok (none, { cl with errno := e }) := by
  simp only [Client.receiveDirent, ReturnType.int, if_true, intAt_intBytes]
  rfl

end RemoteFs
