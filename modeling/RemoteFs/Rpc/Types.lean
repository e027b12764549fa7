import RemoteFs.CData

/-!
# The types of the RPC layer

`ece454rpc_types.h` without its links.  The argument list a procedure receives is a `List ArgType`:
`recvCall` never builds a node whose size is not positive or whose block is not of that size, and
the two facts are fields of `ArgType`.  What a handler returns is a `ReturnType`, about which
nothing is known: a handler may well announce more bytes than it wrote.

`argAt` is the chain `a->next->…`, a fault when the list ends before.
-/

set_option autoImplicit false

namespace RemoteFs

/-- `return_type`. -/
structure ReturnType where
  /-- The bytes `return_val` points to, if it is not `NULL`. -/
  returnVal : Option Bytes
  returnSize : Int32
  /-- Neither stub ever writes this field. -/
  isError : Int32 := 0
  deriving DecidableEq

namespace ReturnType

/-- `return_val = NULL; return_size = 0`. -/
def null : ReturnType := ⟨none, 0, 0⟩

/-- A reply that is one `int`. -/
def int (n : Int32) : ReturnType := ⟨some (intBytes n), sizeofInt, 0⟩

/-- `*(int *)ret.return_val`. -/
def int? (r : ReturnType) : Except Fault Int32 :=
  match r.returnVal with
  | some bs => intAt bs
  | none => .error .nullDeref

@[simp] theorem int?_null : null.int? = .error .nullDeref := rfl

@[simp] theorem int?_int (n : Int32) : (int n).int? = .ok n := intAt_intBytes n

end ReturnType

/-- `arg_type`: a block of memory and its size. -/
structure ArgType where
  /-- The block `arg_val` points to. -/
  argVal : Bytes
  argSize : Int32
  /-- A size that is not positive makes the receiver exit. -/
  size_pos : 0 < argSize.toInt
  /-- The block is as long as announced. -/
  size_eq : (argVal.length : ℤ) = argSize.toInt

namespace ArgType

/-- An argument made of the given bytes. -/
def ofBytes (bs : Bytes) (hpos : 0 < bs.length) (hlt : bs.length < 2 ^ 31) : ArgType where
  argVal := bs
  argSize := Int32.ofNat bs.length
  size_pos := by rw [toInt_ofNat_of_lt hlt]; omega
  size_eq := by rw [toInt_ofNat_of_lt hlt]

/-- An argument that is one `int`. -/
def int (n : Int32) : ArgType := ofBytes (intBytes n) (intBytes_pos n) (intBytes_lt n)

/-- An argument that is a string. -/
def str (s : CString) (h : s.strlen + 1 < 2 ^ 31) : ArgType :=
  ofBytes s.mem (by simp) (by simpa using h)

/-- The string `arg_val` points to; a block without a NUL is read past its end. -/
def cstr (a : ArgType) : Except Fault CString :=
  match CString.at? a.argVal with
  | some s => .ok s
  | none => .error .overread

@[simp] theorem int_argVal (n : Int32) : (int n).argVal = intBytes n := rfl

@[simp] theorem int_argSize (n : Int32) : (int n).argSize = sizeofInt := rfl

@[simp] theorem str_argVal (s : CString) (h : s.strlen + 1 < 2 ^ 31) :
    (str s h).argVal = s.mem := rfl

@[simp] theorem cstr_str (s : CString) (h : s.strlen + 1 < 2 ^ 31) : (str s h).cstr = .ok s := by
  simp [cstr]

theorem length_eq_four {a : ArgType} (h : a.argSize = sizeofInt) : a.argVal.length = 4 := by
  have hsize := a.size_eq
  rw [h] at hsize
  exact Int.ofNat.inj (by simpa [sizeofInt] using hsize)

/-- The read `*(int *)arg_val` is safe once the size has been checked. -/
theorem intAt_isOk {a : ArgType} (h : a.argSize = sizeofInt) : ∃ n, intAt a.argVal = .ok n :=
  RemoteFs.intAt_isOk (length_eq_four h).ge

end ArgType

/-- The `i`-th node of an argument list. -/
def argAt (a : List ArgType) (i : ℕ) : Except Fault ArgType :=
  match a[i]? with
  | some x => .ok x
  | none => .error .nullDeref

theorem argAt_isOk {a : List ArgType} {i : ℕ} (h : i < a.length) : ∃ x, argAt a i = .ok x :=
  ⟨a[i], by simp [argAt, h]⟩

end RemoteFs
