import Mathlib.Algebra.Group.Int.Defs
import Mathlib.Algebra.Group.Nat.Defs
import Mathlib.Data.List.Basic
import Mathlib.Data.List.TakeWhile

/-!
# C data: bytes, `int` and strings

The two programs talk in raw memory: an `int` is the four bytes `sendbytes` puts on the wire, a
string is whatever stands before the first NUL.  This file fixes both once.

* `Int32` is the C type `int`.  `intBytes` is its representation in memory (little endian, as on
  the machines the makefiles target) and `intAt` is the read `*(int *)p`.
* `CString` is a string without its terminator; the absence of a NUL is a field, so a value of the
  type *is* something `strlen` measures.  `CString.at?` is what a `char *` into a block of memory
  denotes: `none` when the block ends before a NUL is found.
* `Fault` is what can happen instead of a result.  Out-of-bounds reads and writes are faults of
  the model, not arbitrary values: a run that faults has no next state.
-/

set_option autoImplicit false

namespace RemoteFs

abbrev Bytes := List UInt8

/-- What ends a program before it has a result. -/
inductive Fault where
  /-- A `NULL` pointer is dereferenced. -/
  | nullDeref
  /-- Memory is read past the end of an object. -/
  | overread
  /-- Memory is written past the end of an object. -/
  | overflow
  /-- The program calls `exit`, or waits for bytes that never come. -/
  | exit
  /-- A loop goes on for ever, or for longer than is looked at. -/
  | hang
  deriving DecidableEq, Repr

/-- Peeling one bind off a computation that succeeded. -/
theorem bind_eq_ok {α β : Type} {x : Except Fault α} {f : α → Except Fault β} {b : β} :
    x >>= f = .ok b ↔ ∃ a, x = .ok a ∧ f a = .ok b := by
  cases x <;> simp [bind, Except.bind]

theorem ok_bind {α β : Type} (a : α) (f : α → Except Fault β) : (.ok a >>= f) = f a := rfl

/-! ## `int` -/

/-- `sizeof(int)`. -/
def sizeofInt : Int32 := 4

/-- The bytes of an `int` in memory. -/
def intBytes (n : Int32) : Bytes :=
  let u := n.toUInt32.toNat
  [UInt8.ofNat u, UInt8.ofNat (u / 2 ^ 8), UInt8.ofNat (u / 2 ^ 16), UInt8.ofNat (u / 2 ^ 24)]

/-- `*(int *)p` for a pointer to the bytes `bs`. -/
def intAt : Bytes → Except Fault Int32
  | b₀ :: b₁ :: b₂ :: b₃ :: _ =>
    .ok (UInt32.ofNat
      (b₀.toNat + 2 ^ 8 * b₁.toNat + 2 ^ 16 * b₂.toNat + 2 ^ 24 * b₃.toNat)).toInt32
  | _ => .error .overread

@[simp] theorem length_intBytes (n : Int32) : (intBytes n).length = 4 := rfl

theorem intBytes_pos (n : Int32) : 0 < (intBytes n).length := by
  rw [length_intBytes]
  decide

theorem intBytes_lt (n : Int32) : (intBytes n).length < 2 ^ 31 := by
  rw [length_intBytes]
  decide

/-- **An `int` survives the trip through memory.** -/
@[simp] theorem intAt_intBytes_append (n : Int32) (rest : Bytes) :
    intAt (intBytes n ++ rest) = .ok n := by
  have hlt : n.toUInt32.toNat < 2 ^ 32 := n.toUInt32.toNat_lt
  have hsum : (UInt8.ofNat n.toUInt32.toNat).toNat
      + 2 ^ 8 * (UInt8.ofNat (n.toUInt32.toNat / 2 ^ 8)).toNat
      + 2 ^ 16 * (UInt8.ofNat (n.toUInt32.toNat / 2 ^ 16)).toNat
      + 2 ^ 24 * (UInt8.ofNat (n.toUInt32.toNat / 2 ^ 24)).toNat = n.toUInt32.toNat := by
    simp only [UInt8.toNat_ofNat']
    omega
  simp only [intBytes, List.cons_append, intAt]
  rw [hsum]
  simp

@[simp] theorem intAt_intBytes (n : Int32) : intAt (intBytes n) = .ok n := by
  simpa using intAt_intBytes_append n []

/-- Four bytes are the bytes of one `int`. -/
theorem intBytes_eq_of_intAt {bs : Bytes} {n : Int32} (h : intAt bs = .ok n)
    (hlen : bs.length = 4) : intBytes n = bs := by
  match bs, hlen with
  | [b₀, b₁, b₂, b₃], _ =>
    obtain ⟨h₀, h₁, h₂, h₃⟩ :=
      And.intro b₀.toNat_lt (And.intro b₁.toNat_lt (And.intro b₂.toNat_lt b₃.toNat_lt))
    have hbyte {b : UInt8} {m : ℕ} (hm : m % 2 ^ 8 = b.toNat) : UInt8.ofNat m = b := by
      rw [← UInt8.toNat_inj, UInt8.toNat_ofNat', hm]
    rw [intAt, Except.ok.injEq] at h
    rw [← h, intBytes, UInt32.toUInt32_toInt32, UInt32.toNat_ofNat',
      Nat.mod_eq_of_lt (by omega), hbyte (b := b₀) (by omega), hbyte (b := b₁) (by omega),
      hbyte (b := b₂) (by omega), hbyte (b := b₃) (by omega)]

/-- Four bytes are always enough to read an `int`. -/
theorem intAt_isOk {bs : Bytes} (h : 4 ≤ bs.length) : ∃ n, intAt bs = .ok n := by
  match bs, h with
  | _ :: _ :: _ :: _ :: _, _ => exact ⟨_, rfl⟩

/-- The conversion of a length to `int` is exact below `2 ^ 31`. -/
theorem toInt_ofNat_of_lt {n : ℕ} (h : n < 2 ^ 31) : (Int32.ofNat n).toInt = n := by
  rw [Int32.toInt_ofNat']
  exact Int.bmod_eq_of_le (by simp only [Int32.size]; omega) (by simp only [Int32.size]; omega)

theorem ofNat_nonneg {n : ℕ} (h : n < 2 ^ 31) : 0 ≤ Int32.ofNat n := by
  rw [Int32.le_iff_toInt_le, toInt_ofNat_of_lt h, Int32.toInt_zero]
  omega

theorem ofNat_ne_neg_one {n : ℕ} (h : n < 2 ^ 31) : Int32.ofNat n ≠ -1 := by
  intro heq
  have hnonneg := ofNat_nonneg h
  rw [heq] at hnonneg
  exact absurd hnonneg (by decide)

/-- The conversion of a length to `int` may make it smaller, and not larger. -/
theorem toInt_ofNat_le (n : ℕ) : (Int32.ofNat n).toInt ≤ n := by
  have hsize : ((Int32.size : ℕ) : ℤ) = 4294967296 := rfl
  rw [Int32.toInt_ofNat', Int.bmod, hsize]
  split <;> omega

/-! ## Strings -/

/-- A C string, without its terminator. -/
structure CString where
  /-- The characters before the NUL. -/
  chars : Bytes
  /-- The terminator is not one of them. -/
  noNul : (0 : UInt8) ∉ chars
  deriving DecidableEq

namespace CString

/-- `strlen`. -/
def strlen (s : CString) : ℕ := s.chars.length

/-- The string as it lies in memory, terminator included. -/
def mem (s : CString) : Bytes := s.chars ++ [0]

/-- The bytes of a block up to its first NUL; all of them when a NUL follows the block. -/
def upTo (bs : Bytes) : CString :=
  ⟨bs.takeWhile (· ≠ 0), fun h ↦ by simpa using List.mem_takeWhile_imp h⟩

/-- The string a `char *` to the start of `bs` denotes, if a NUL is found inside `bs`. -/
def at? (bs : Bytes) : Option CString := if (0 : UInt8) ∈ bs then some (upTo bs) else none

/-- A string written in the source as a literal. -/
def lit (s : String) : CString :=
  ⟨(s.toList.map fun c ↦ UInt8.ofNat c.toNat).filter (· ≠ 0), by simp⟩

@[simp] theorem length_mem (s : CString) : s.mem.length = s.strlen + 1 := by
  simp [mem, strlen]

theorem upTo_mem_append (s : CString) (rest : Bytes) : upTo (s.mem ++ rest) = s := by
  have htake : (s.mem ++ rest).takeWhile (· ≠ 0) = s.chars := by
    rw [mem, List.append_assoc, List.takeWhile_append_of_pos]
    · simp
    · intro b hb
      simpa using fun h : b = 0 ↦ s.noNul (h ▸ hb)
  simp only [upTo, htake]

@[simp] theorem upTo_mem (s : CString) : upTo s.mem = s := by
  simpa using upTo_mem_append s []

/-- A block without a NUL is all of the string before the NUL that follows it. -/
@[simp] theorem upTo_chars (s : CString) : upTo s.chars = s := by
  have htake : s.chars.takeWhile (· ≠ 0) = s.chars := by
    refine List.takeWhile_eq_self_iff.mpr fun b hb ↦ ?_
    simpa using fun h : b = 0 ↦ s.noNul (h ▸ hb)
  simp only [upTo, htake]

theorem at?_mem_append (s : CString) (rest : Bytes) : at? (s.mem ++ rest) = some s := by
  rw [at?, if_pos (by simp [mem]), upTo_mem_append]

/-- There is a string where there is a NUL. -/
theorem at?_isSome_iff {bs : Bytes} : (∃ s, at? bs = some s) ↔ (0 : UInt8) ∈ bs := by
  rw [at?]
  split <;> simp_all

theorem upTo_of_at? {bs : Bytes} {s : CString} (hs : at? bs = some s) : upTo bs = s := by
  rw [at?] at hs
  split at hs
  · exact Option.some.inj hs
  · cases hs

/-- A NUL found in a block stands in it. -/
theorem strlen_lt_of_at? {bs : Bytes} {s : CString} (hs : at? bs = some s) :
    s.strlen < bs.length := by
  rw [at?] at hs
  split at hs
  · rename_i hnul
    cases hs
    show (bs.takeWhile (· ≠ 0)).length < bs.length
    have hprefix := List.takeWhile_prefix (l := bs) (· ≠ 0)
    refine Nat.lt_of_le_of_ne hprefix.length_le fun heq ↦ ?_
    -- a prefix as long as the block is the block, which has a NUL
    rw [← hprefix.eq_of_length heq] at hnul
    exact absurd (List.mem_takeWhile_imp hnul) (by simp)
  · cases hs

theorem exists_strlen (n : ℕ) : ∃ s : CString, s.strlen = n :=
  ⟨⟨List.replicate n 97, fun h ↦ absurd (List.eq_of_mem_replicate h) (by decide)⟩,
    List.length_replicate⟩

/-- **A string survives the trip through memory.** -/
@[simp] theorem at?_mem (s : CString) : at? s.mem = some s := by
  simpa using at?_mem_append s []

end CString

end RemoteFs
