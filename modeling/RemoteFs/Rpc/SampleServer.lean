import RemoteFs.Datagram.Codec
import RemoteFs.Lib.Sorter
import RemoteFs.Rpc.Transparency

/-!
# The sample server

`sample_server_app.c` registers five procedures.  Two of them have something to get wrong.

* `max` sorts an array of `int`s by `compar`, which subtracts, and a difference of two `int`s need not
  be one.  `max_eq` is what the procedure does, and `agrees_compar_iff` says when `compar` compares:
  when no two elements are `2 ^ 31` or more apart.
* `concatStr` adds the lengths of five strings up in an `int`, allocates that much and copies them there,
  counting in an `int` again.  `concatStr_eq_ok_iff` says when this goes well: when they fit in a block
  whose size is an `int`, and then the result is the five strings.

`qsort` is a parameter that promises what the standard says: it sorts if the comparisons are consistent.
`malloc` succeeds, and `calloc` fails only for a negative size, which it takes for a very large one.  The
global `r` is left out: each procedure writes the two fields it returns.
-/

set_option autoImplicit false

namespace RemoteFs
namespace Sample

open OnBlock Sorting
open Datagram (copyIn copyIn_exec_eq_ok)

/-! ## Arrays -/

/-- An array of `int`s in memory. -/
def arrayBytes (xs : List Int32) : Bytes := xs.flatMap intBytes

/-- The first `n` elements of the array at the beginning of a block. -/
def intsAt : ℕ → Bytes → Except Fault (List Int32)
  | 0, _ => .ok []
  | n + 1, bs => do
    let x ← intAt bs
    let xs ← intsAt n (bs.drop 4)
    return x :: xs

theorem length_arrayBytes (xs : List Int32) : (arrayBytes xs).length = 4 * xs.length := by
  induction xs with
  | nil => rfl
  | cons x xs ih =>
    rw [arrayBytes, List.flatMap_cons, List.length_append, length_intBytes, List.length_cons]
    rw [arrayBytes] at ih
    omega

/-- **An array survives the trip through memory.** -/
theorem intsAt_arrayBytes (xs : List Int32) (rest : Bytes) :
    intsAt xs.length (arrayBytes xs ++ rest) = .ok xs := by
  induction xs with
  | nil => rfl
  | cons x xs ih =>
    have hdrop : (intBytes x ++ (xs.flatMap intBytes ++ rest)).drop 4 = xs.flatMap intBytes ++ rest :=
      @List.drop_left _ (intBytes x) _
    rw [arrayBytes] at ih
    rw [arrayBytes, List.flatMap_cons, List.append_assoc, List.length_cons, intsAt,
      intAt_intBytes_append, ok_bind, hdrop, ih]
    rfl

/-! ## The procedures -/

/-- A procedure of the sample server, which has no state. -/
abbrev Procedure : Type := FpType Unit

/-- `nothing`. -/
def nothing : Procedure := fun _ _ u ↦ .ok (.null, u)

/-- `add`. -/
def add : Procedure := fun nparams a u ↦
  if nparams ≠ 2 then .ok (.null, u)
  else do
    let x ← argAt a 0
    if x.argSize ≠ sizeofInt then return (.null, u)
    let y ← argAt a 1
    if y.argSize ≠ sizeofInt then return (.null, u)
    let i ← intAt x.argVal
    let j ← intAt y.argVal
    return (.int (i + j), u)

/-- `pickFirst`. -/
def pickFirst : Procedure := fun nparams a u ↦
  if nparams ≤ 0 then .ok (.null, u)
  else do
    let x ← argAt a 0
    return (⟨some x.argVal, x.argSize, 0⟩, u)

/-- `compar`. -/
def compar (i j : Int32) : ℤ := (i - j).toInt

/-- `max`, which sorts. -/
def max (qsort : Sorter Fault Int32) : Procedure := fun _ a u ↦ do
  let x ← argAt a 0
  let n := x.argSize / sizeofInt
  if n < 0 then return (.null, u)
  let ia ← intsAt n.toInt.toNat x.argVal
  let ia ← qsort.sort compar ia
  return (⟨some (arrayBytes ia ++ x.argVal.drop (4 * n.toInt.toNat)), x.argSize, 0⟩, u)

/-- The first loop of `concatStr`: the strings, and `totallen`. -/
def measureLoop : ℕ → List ArgType → Int32 → Except Fault (List CString × Int32)
  | 0, _, totallen => .ok ([], totallen)
  | _ + 1, [], _ => .error .nullDeref
  | n + 1, x :: a, totallen => do
    let s ← x.cstr
    let (rest, totallen) ← measureLoop n a (totallen + Int32.ofNat s.strlen)
    return (s :: rest, totallen)

/-- `memcpy(val + off, src, strlen(src))`. -/
def copyTo (off : Int32) (src : Bytes) : OnBlock Fault UInt8 Unit :=
  if off < 0 then .lift (.error .overflow) else copyIn off.toInt.toNat src src.length

/-- The second loop of `concatStr`. -/
def copyLoop : List CString → Int32 → OnBlock Fault UInt8 Unit
  | [], _ => pure ()
  | s :: rest, totallen => do
    copyTo totallen s.chars
    copyLoop rest (totallen + Int32.ofNat s.strlen)

/-- The block that `concatStr` allocates and fills. -/
def fillBlock (s : List CString) (totallen : Int32) : Except Fault Bytes :=
  if totallen + 1 < 0 then .error .nullDeref
  else do
    let val ← (copyTo totallen [0]).exec (List.replicate (totallen + 1).toInt.toNat 0)
    (copyLoop s 0).exec val

/-- `concatStr`. -/
def concatStr : Procedure := fun nparams a u ↦
  if nparams ≠ 5 then .ok (.null, u)
  else do
    let (s, totallen) ← measureLoop 5 a 0
    let val ← fillBlock s totallen
    match CString.at? val with
    | none => throw .overread
    | some str => return (⟨some val, Int32.ofNat (str.strlen + 1), 0⟩, u)

/-- The calls of `register_procedure` in `main`. -/
def procedures (qsort : Sorter Fault Int32) : List (Registration Unit) :=
  [⟨some (.lit "nothing"), 0, nothing⟩,
    ⟨some (.lit "addtwo"), 2, add⟩,
    ⟨some (.lit "pickFirst"), 2, pickFirst⟩,
    ⟨some (.lit "max_of_integer_array"), 1, max qsort⟩,
    ⟨some (.lit "concatenate_five_strings"), 5, concatStr⟩]

/-! ## Comparing by subtraction -/

/-- No two elements are `2 ^ 31` or more apart. -/
def Near (xs : List Int32) : Prop := ∀ a ∈ xs, ∀ b ∈ xs, a.toInt - b.toInt < 2 ^ 31

instance (xs : List Int32) : Decidable (Near xs) :=
  inferInstanceAs (Decidable (∀ a ∈ xs, ∀ b ∈ xs, _))

theorem compar_of_near {a b : Int32} (hab : a.toInt - b.toInt < 2 ^ 31)
    (hba : b.toInt - a.toInt < 2 ^ 31) : compar a b = a.toInt - b.toInt := by
  rw [compar, Int32.toInt_sub]
  exact Int.bmod_eq_of_le (by omega) (by omega)

theorem eq_of_compar_eq_zero {a b : Int32} (h : compar a b = 0) : a = b := by
  have hdiff : a - b = 0 := Int32.toInt_inj.mp h
  have hadd : a - b + b = a := Int32.sub_add_cancel a b
  rw [hdiff, Int32.zero_add] at hadd
  exact hadd.symm

/-- **Subtraction compares exactly the elements that are near each other.** -/
theorem agrees_compar_iff {xs : List Int32} : Agrees Int32.toInt compar xs ↔ Near xs := by
  constructor
  · intro h a ha b hb
    by_contra hfar
    -- the difference wraps round to a negative number
    have hlt : b.toInt < a.toInt := by omega
    have hpos := (h.above a ha b hb).mpr hlt
    rw [compar, Int32.toInt_sub, Int.bmod] at hpos
    have := a.toInt_lt
    have := b.le_toInt
    split at hpos <;> omega
  · intro h
    refine ⟨fun a ha b hb ↦ ?_, fun a ha b hb ↦ ?_⟩ <;>
      rw [compar_of_near (h a ha b hb) (h b hb a ha)] <;> omega

/-! ## Sorting -/

/-- An argument that is an array. -/
def arrayArg (xs : List Int32) (hpos : xs ≠ []) (hlt : 4 * xs.length < 2 ^ 31) : ArgType :=
  .ofBytes (arrayBytes xs) (by rw [length_arrayBytes]; have := List.length_pos_iff.mpr hpos; omega)
    (by rwa [length_arrayBytes])

/-- A result that is an array. -/
def arrayResult (xs : List Int32) : ReturnType :=
  ⟨some (arrayBytes xs), Int32.ofNat (4 * xs.length), 0⟩

/-- The number of elements is the size divided. -/
theorem ofNat_div_four {n : ℕ} (h : 4 * n < 2 ^ 31) : Int32.ofNat (4 * n) / sizeofInt = Int32.ofNat n := by
  refine Int32.toInt_inj.mp ?_
  rw [Int32.toInt_div_of_ne_right _ _ (by decide), toInt_ofNat_of_lt h, toInt_ofNat_of_lt (by omega)]
  show ((4 * n : ℕ) : ℤ).tdiv 4 = n
  rw [Int.tdiv_eq_ediv_of_nonneg (by omega)]
  omega

/-- **`max` sorts its array**, and faults if `qsort` does. -/
theorem max_eq (qsort : Sorter Fault Int32) {xs : List Int32} (hpos : xs ≠ [])
    (hlt : 4 * xs.length < 2 ^ 31) :
    max qsort 1 [arrayArg xs hpos hlt] ()
      = (qsort.sort compar xs).map fun ys ↦
          (⟨some (arrayBytes ys), Int32.ofNat (4 * xs.length), 0⟩, ()) := by
  have hsize : (arrayArg xs hpos hlt).argSize = Int32.ofNat (4 * xs.length) :=
    congrArg Int32.ofNat (length_arrayBytes xs)
  have hnneg : ¬ Int32.ofNat xs.length < 0 := Int32.not_lt.mpr (ofNat_nonneg (by omega))
  have hints : intsAt xs.length (arrayArg xs hpos hlt).argVal = .ok xs := by
    have h := intsAt_arrayBytes xs []
    rwa [List.append_nil] at h
  have hrest : (arrayArg xs hpos hlt).argVal.drop (4 * xs.length) = [] :=
    List.drop_eq_nil_of_le (length_arrayBytes xs).le
  have harg : argAt [arrayArg xs hpos hlt] 0 = .ok (arrayArg xs hpos hlt) := rfl
  rw [max, harg, ok_bind]
  simp only [hsize, ofNat_div_four hlt, if_neg hnneg, toNat_of_length (show xs.length < 2 ^ 31 by omega),
    hints, ok_bind, hrest, List.append_nil]
  cases qsort.sort compar xs <;> rfl

/-! ## Strings behind each other -/

/-- The lengths of the strings together. -/
def total : List CString → ℕ
  | [] => 0
  | s :: ss => s.strlen + total ss

/-- The strings as one. -/
def concat (ss : List CString) : CString where
  chars := ss.flatMap CString.chars
  noNul h := by
    obtain ⟨s, -, hs⟩ := List.mem_flatMap.mp h
    exact s.noNul hs

theorem strlen_concat (ss : List CString) : (concat ss).strlen = total ss := by
  induction ss with
  | nil => rfl
  | cons s ss ih =>
    show (s.chars ++ (concat ss).chars).length = s.strlen + total ss
    rw [List.length_append, ← ih]
    rfl

/-- The first loop finds the strings of the arguments, and their length, as an `int`. -/
theorem measureLoop_eq_ok_iff {n : ℕ} {a : List ArgType} {m : ℕ} {ss : List CString} {t : Int32} :
    measureLoop n a (Int32.ofNat m) = .ok (ss, t) ↔
      ss.length = n ∧ List.Forall₂ (fun x s ↦ x.cstr = .ok s) (a.take n) ss ∧
        t = Int32.ofNat (m + total ss) := by
  induction n generalizing a m ss with
  | zero =>
    rw [measureLoop, Except.ok.injEq, Prod.mk.injEq, List.take_zero]
    constructor
    · rintro ⟨rfl, rfl⟩
      exact ⟨rfl, .nil, rfl⟩
    · rintro ⟨hlen, -, rfl⟩
      obtain rfl := List.eq_nil_of_length_eq_zero hlen
      exact ⟨rfl, rfl⟩
  | succ n ih =>
    rcases a with _ | ⟨x, a⟩
    · rw [measureLoop]
      refine iff_of_false nofun ?_
      rintro ⟨hlen, hstrings, -⟩
      rw [List.take_nil, List.forall₂_nil_left_iff] at hstrings
      rw [hstrings] at hlen
      cases hlen
    · rw [measureLoop, bind_eq_ok, List.take_succ_cons]
      constructor
      · rintro ⟨s, hs, h⟩
        obtain ⟨⟨rest, t'⟩, hrest, heq⟩ := bind_eq_ok.mp h
        cases heq
        rw [← Int32.ofNat_add] at hrest
        obtain ⟨hlen, hstrings, rfl⟩ := ih.mp hrest
        refine ⟨congrArg (· + 1) hlen, .cons hs hstrings, ?_⟩
        rw [Nat.add_assoc]
        rfl
      · rintro ⟨hlen, hstrings, rfl⟩
        rcases hstrings with _ | @⟨_, s, _, rest, hs, hrest⟩
        refine ⟨s, hs, bind_eq_ok.mpr ⟨(rest, _), ?_, rfl⟩⟩
        rw [← Int32.ofNat_add]
        exact ih.mpr ⟨Nat.succ.inj hlen, hrest, by rw [Nat.add_assoc]; rfl⟩

/-- What is written in two pieces, one behind the other, is written in one. -/
theorem splice_splice {b xs ys : Bytes} {off : ℕ} (h : off + xs.length ≤ b.length) :
    splice (splice b off xs) (off + xs.length) ys = splice b off (xs ++ ys) := by
  have hfront : (b.take off ++ xs).length = off + xs.length := by
    rw [List.length_append, List.length_take, Nat.min_eq_left (by omega)]
  have hsplit := splice_append (b.take off ++ xs) (b.drop (off + xs.length)) ys
  rw [hfront] at hsplit
  refine hsplit.trans ?_
  rw [splice, List.length_append, List.drop_drop]
  simp only [List.append_assoc, Nat.add_assoc]

theorem length_splice {b bs : Bytes} {off : ℕ} (h : off + bs.length ≤ b.length) :
    (splice b off bs).length = b.length := by
  rw [splice, List.length_append, List.length_append, List.length_take, List.length_drop,
    Nat.min_eq_left (by omega)]
  omega

/-- One copy, to a place that is an `int`. -/
theorem copyTo_exec_eq_ok {off : ℕ} (hoff : off < 2 ^ 31) {src b b' : Bytes} :
    (copyTo (Int32.ofNat off) src).exec b = .ok b' ↔
      off + src.length ≤ b.length ∧ splice b off src = b' := by
  rw [copyTo, if_neg (Int32.not_lt.mpr (ofNat_nonneg hoff)), toNat_of_length hoff, copyIn_exec_eq_ok,
    Int.toNat_natCast, List.take_length]
  constructor
  · rintro ⟨-, hle, hb⟩
    exact ⟨by omega, hb⟩
  · rintro ⟨hle, hb⟩
    exact ⟨by omega, by omega, hb⟩

/-- **The second loop** gets through a block whose length is an `int` exactly when the strings fit, and
then they stand there one behind the other. -/
theorem copyLoop_exec_eq_ok {ss : List CString} {off : ℕ} {b b' : Bytes} (hoff : off ≤ b.length)
    (hb : b.length < 2 ^ 31) :
    (copyLoop ss (Int32.ofNat off)).exec b = .ok b' ↔
      off + total ss ≤ b.length ∧ splice b off (concat ss).chars = b' := by
  induction ss generalizing off b with
  | nil =>
    have hnil : splice b off [] = b := by
      rw [splice, List.append_nil, List.length_nil, Nat.add_zero, List.take_append_drop]
    show Except.ok b = .ok b' ↔ off + 0 ≤ b.length ∧ splice b off [] = b'
    rw [hnil, Except.ok.injEq]
    exact ⟨fun h ↦ ⟨hoff, h⟩, And.right⟩
  | cons s ss ih =>
    have htotal : total (s :: ss) = s.chars.length + total ss := rfl
    have hchars : (concat (s :: ss)).chars = s.chars ++ (concat ss).chars := rfl
    rw [copyLoop, exec_bind, bind_eq_ok, htotal, hchars, ← Int32.ofNat_add]
    constructor
    · rintro ⟨b₁, hcopy, hrest⟩
      obtain ⟨hle, rfl⟩ := (copyTo_exec_eq_ok (by omega)).mp hcopy
      have hlen := length_splice hle
      obtain ⟨hfits, rfl⟩ := (ih (by rw [hlen]; exact hle) (by rw [hlen]; exact hb)).mp hrest
      rw [hlen] at hfits
      exact ⟨by rw [CString.strlen] at hfits; omega, (splice_splice hle).symm⟩
    · rintro ⟨hfits, rfl⟩
      have hle : off + s.chars.length ≤ b.length := by omega
      have hlen := length_splice hle
      refine ⟨_, (copyTo_exec_eq_ok (by omega)).mpr ⟨hle, rfl⟩, ?_⟩
      refine (ih (by rw [hlen]; exact hle) (by rw [hlen]; exact hb)).mpr ⟨?_, splice_splice hle⟩
      rw [hlen, CString.strlen]
      omega

/-- A block of zeros, its last byte set to zero, and a string written to its beginning. -/
theorem splice_terminated {m : ℕ} {bs : Bytes} (hlen : bs.length = m) :
    splice (splice (List.replicate (m + 1) 0) m [0]) 0 bs = bs ++ [0] := by
  subst hlen
  have hfront : splice (List.replicate (bs.length + 1) (0 : UInt8)) bs.length [0]
      = List.replicate bs.length 0 ++ [0] := by
    have hsplit := splice_append (List.replicate bs.length (0 : UInt8)) [0] [0]
    rw [List.length_replicate] at hsplit
    rw [List.replicate_succ', hsplit]
    rfl
  have hdrop : (List.replicate bs.length (0 : UInt8) ++ [0]).drop bs.length = [0] := by
    have h := @List.drop_left _ (List.replicate bs.length (0 : UInt8)) [0]
    rwa [List.length_replicate] at h
  rw [hfront, splice, Nat.zero_add, hdrop]
  rfl

/-- **The block is filled exactly when its size is an `int`.**  A sum that wraps round to a smaller one
is noticed by the copying, which runs into the end of the block. -/
theorem fillBlock_eq_ok_iff {ss : List CString} {val : Bytes} :
    fillBlock ss (Int32.ofNat (total ss)) = .ok val ↔
      total ss + 1 < 2 ^ 31 ∧ (concat ss).mem = val := by
  have hchars : (concat ss).chars.length = total ss := strlen_concat ss
  -- with a size that is not too large, the block is as it should be
  have hfill {m : ℕ} (hm : m + 1 < 2 ^ 31) : fillBlock ss (Int32.ofNat m) = .ok val ↔
      total ss ≤ m + 1 ∧ splice (splice (List.replicate (m + 1) 0) m [0]) 0 (concat ss).chars = val := by
    have hlen : (splice (List.replicate (m + 1) (0 : UInt8)) m [0]).length = m + 1 := by
      rw [length_splice (by rw [List.length_replicate]; rfl), List.length_replicate]
    have hterm : (copyTo (Int32.ofNat m) [0]).exec (List.replicate (m + 1) 0)
        = .ok (splice (List.replicate (m + 1) 0) m [0]) :=
      (copyTo_exec_eq_ok (by omega)).mpr ⟨by rw [List.length_replicate]; rfl, rfl⟩
    have hloop : (copyLoop ss (Int32.ofNat 0)).exec _ = .ok val ↔ _ :=
      copyLoop_exec_eq_ok (Nat.zero_le _) (hlen ▸ hm)
    rw [hlen, Nat.zero_add] at hloop
    have hsucc : Int32.ofNat m + 1 = Int32.ofNat (m + 1) := (Int32.ofNat_add _ _).symm
    rw [fillBlock, hsucc, if_neg (Int32.not_lt.mpr (ofNat_nonneg hm)), toNat_of_length hm, hterm, ok_bind]
    exact hloop
  constructor
  · intro h
    have hnneg : 0 ≤ (Int32.ofNat (total ss)).toInt := by
      by_contra hneg
      rw [fillBlock] at h
      split at h
      · cases h
      · rw [copyTo, if_pos (Int32.lt_iff_toInt_lt.mpr (by rw [Int32.toInt_zero]; omega))] at h
        cases h
    -- what the sum has wrapped round to
    obtain ⟨m, hm⟩ := Int.eq_ofNat_of_zero_le hnneg
    have hmlt : m < 2 ^ 31 := by
      have := (Int32.ofNat (total ss)).toInt_lt
      omega
    have hwrap : Int32.ofNat (total ss) = Int32.ofNat m :=
      Int32.toInt_inj.mp (hm.trans (toInt_ofNat_of_lt hmlt).symm)
    have hlt : m + 1 < 2 ^ 31 := by
      by_contra hge
      obtain rfl : m = 2147483647 := by omega
      rw [hwrap, fillBlock, if_pos (by decide)] at h
      cases h
    rw [hwrap, hfill hlt] at h
    obtain ⟨hle, rfl⟩ := h
    have hsize : ((Int32.size : ℕ) : ℤ) = 4294967296 := rfl
    rw [Int32.toInt_ofNat', Int.bmod, hsize] at hm
    obtain rfl : total ss = m := by
      split at hm <;> omega
    exact ⟨hlt, (splice_terminated hchars).symm⟩
  · rintro ⟨hlt, rfl⟩
    exact (hfill hlt).mpr ⟨by omega, splice_terminated hchars⟩

/-- **Five strings become one**, exactly when every argument is a string and there is room for all of
them. -/
theorem concatStr_eq_ok_iff {a : List ArgType} {ret : ReturnType} :
    concatStr 5 a () = .ok (ret, ()) ↔
      ∃ ss, ss.length = 5 ∧ List.Forall₂ (fun x s ↦ x.cstr = .ok s) (a.take 5) ss ∧
        total ss + 1 < 2 ^ 31 ∧ ret = ⟨some (concat ss).mem, Int32.ofNat (total ss + 1), 0⟩ := by
  have hzero : measureLoop 5 a 0 = measureLoop 5 a (Int32.ofNat 0) := rfl
  rw [concatStr, if_neg (by decide), bind_eq_ok, hzero]
  constructor
  · rintro ⟨⟨ss, t⟩, hmeasure, h⟩
    obtain ⟨hlen, hstrings, rfl⟩ := measureLoop_eq_ok_iff.mp hmeasure
    obtain ⟨val, hfill, h⟩ := bind_eq_ok.mp h
    rw [Nat.zero_add] at hfill
    obtain ⟨hlt, rfl⟩ := fillBlock_eq_ok_iff.mp hfill
    rw [CString.at?_mem] at h
    cases h
    exact ⟨ss, hlen, hstrings, hlt, by rw [strlen_concat]⟩
  · rintro ⟨ss, hlen, hstrings, hlt, rfl⟩
    refine ⟨(ss, Int32.ofNat (total ss)), ?_, bind_eq_ok.mpr ⟨_, fillBlock_eq_ok_iff.mpr ⟨hlt, rfl⟩, ?_⟩⟩
    · exact measureLoop_eq_ok_iff.mpr ⟨hlen, hstrings, by rw [Nat.zero_add]⟩
    · rw [CString.at?_mem, ← strlen_concat]
      rfl

end Sample
end RemoteFs
