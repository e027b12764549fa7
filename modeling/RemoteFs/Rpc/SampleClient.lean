import RemoteFs.Rpc.SampleServer

/-!
# The sample client

`sample_client_app.c`, against the sample server, over connections that are cut in any way.  What it reads
from `/dev/urandom` is a parameter, and what it prints is its result.

* `sort_remotely`: an array goes to the server and comes back sorted by `compar`; so it ascends exactly
  when no two elements are `2 ^ 31` or more apart.
* `five_strings_remotely`: five strings go there and come back as one, if there is room for them.
* `main_prints`: the whole program.  Its random numbers are reduced modulo `INT_MAX / 2`, and so they are
  near each other and come back in ascending order; and its random strings are short.
-/

set_option autoImplicit false

namespace RemoteFs
namespace Sample

open Sorting
open Session (Cuts)

/-! ## The client -/

/-- `INT_MAX / 2`. -/
def halfMax : Int32 := 2147483647 / 2

/-- The array of `testsort`. -/
def randomArray (arsize : UInt32) (random : ℕ → Int32) : List Int32 :=
  (List.range (arsize % 10 + 1).toNat).map fun i ↦ random i % halfMax

/-- `testsort`: the array after the call. -/
def testsort (cuts : Cuts) (fnp : List (Fn Unit)) (arsize : UInt32) (random : ℕ → Int32) :
    Except Fault (List Int32) := do
  let ar := randomArray arsize random
  let (_, ans, _) ← makeRemoteCall cuts fnp (.lit "max_of_integer_array") 1
    [⟨Int32.ofNat (4 * (arsize % 10 + 1).toNat), arrayBytes ar⟩] ()
  match ans.returnVal with
  | none => throw .nullDeref
  | some val => intsAt (arsize % 10 + 1).toNat val

/-- `((unsigned int)c) % 30 + 'a'`, for a `char` that is signed. -/
def letter (c : UInt8) : UInt8 := (c.toInt8.toInt32.toUInt32 % 30 + 97).toUInt8

theorem letter_ne_zero (c : UInt8) : letter c ≠ 0 := by
  intro h
  have hmod : ((c.toInt8.toInt32.toUInt32.toNat % 30 + 97) % 2 ^ 32) % 2 ^ 8 = 0 := by
    have hnat := congrArg UInt8.toNat h
    rwa [letter, UInt32.toNat_toUInt8, UInt32.toNat_add, UInt32.toNat_mod] at hnat
  omega

/-- One of the strings of `testconcat`. -/
def randomString (slen : UInt32) (random : ℕ → UInt8) : CString where
  chars := (List.range (slen % 10 + 1).toNat).map fun j ↦ letter (random j)
  noNul h := by
    obtain ⟨j, -, hj⟩ := List.mem_map.mp h
    exact letter_ne_zero _ hj

/-- The strings of `testconcat`. -/
def randomStrings (random : Fin 5 → UInt32 × (ℕ → UInt8)) : List CString :=
  List.ofFn fun i ↦ randomString (random i).1 (random i).2

/-- A string as it is passed, with its terminator. -/
def strParam (s : CString) : Param := ⟨Int32.ofNat (s.strlen + 1), s.mem⟩

/-- `testconcat`: the size of the result, and the result. -/
def testconcat (cuts : Cuts) (fnp : List (Fn Unit)) (random : Fin 5 → UInt32 × (ℕ → UInt8)) :
    Except Fault (Int32 × CString) := do
  let s := (randomStrings random).map strParam
  let (_, ans, _) ← makeRemoteCall cuts fnp (.lit "concatenate_five_strings") 5 s ()
  match ans.returnVal with
  | none => throw .nullDeref
  | some val =>
    match CString.at? val with
    | none => throw .overread
    | some str => return (ans.returnSize, str)

/-- An `int` as it is passed. -/
def intParam (n : Int32) : Param := ⟨sizeofInt, intBytes n⟩

/-- What the program prints of its results. -/
structure Printed where
  nothing : Int32
  addtwo : Int32
  /-- Nothing when the size is `0`. -/
  pickFirst : Option Int32
  sorted : List Int32
  again : Int32
  concat : Int32 × CString

/-- `main`, called with a server's name and port.  Every call has a connection of its own. -/
def main (cuts : ℕ → Cuts) (fnp : List (Fn Unit)) (arsize : UInt32) (ints : ℕ → Int32)
    (strings : Fin 5 → UInt32 × (ℕ → UInt8)) : Except Fault Printed := do
  let (_, ans, _) ← makeRemoteCall (cuts 0) fnp (.lit "nothing") 0 [] ()
  let nothing := ans.returnSize
  let (_, ans, _) ← makeRemoteCall (cuts 1) fnp (.lit "addtwo") 2 [intParam (-10), intParam 20] ()
  let addtwo ← ans.int?
  let (_, ans, _) ← makeRemoteCall (cuts 2) fnp (.lit "pickFirst") 2 [intParam (-10), intParam 20] ()
  let pickFirst ← if 0 < ans.returnSize then some <$> ans.int? else pure none
  let sorted ← testsort (cuts 3) fnp arsize ints
  let (_, ans, _) ← makeRemoteCall (cuts 4) fnp (.lit "addtwo") 2 [intParam 200, intParam (-12)] ()
  let again ← ans.int?
  let concat ← testconcat (cuts 5) fnp strings
  return ⟨nothing, addtwo, pickFirst, sorted, again, concat⟩

/-! ## Calls of the sample server -/

section
variable (qsort : Sorter Fault Int32) (cuts : Cuts)

/-- The server: what `main` of `sample_server_app.c` has registered. -/
def server : List (Fn Unit) := registerAll (procedures qsort)

theorem nothing_remotely :
    makeRemoteCall cuts (server qsort) (.lit "nothing") 0 [] ()
      = .ok (⟨.lit "nothing", 0, [], ()⟩, .null, [], []) := by
  have hname : (CString.lit "nothing").strlen + 2 < 2 ^ 31 := by decide
  have hnull : ReturnType.null.Exact := .inl rfl
  exact makeRemoteCall_eq cuts hname rfl .nil rfl hnull.holds

theorem passes_intParam (n : Int32) : (intParam n).Passes (.int n) := ⟨rfl, List.prefix_rfl⟩

theorem addtwo_remotely (a b : Int32) :
    makeRemoteCall cuts (server qsort) (.lit "addtwo") 2 [intParam a, intParam b] ()
      = .ok (⟨.lit "addtwo", 2, [.int a, .int b], ()⟩, .int (a + b), [], []) := by
  have hcall : makeCall (server qsort) (.lit "addtwo") 2 [.int a, .int b] ()
      = .ok (.int (a + b), ()) := by
    show add 2 [.int a, .int b] () = _
    simp [add, argAt, bind, Except.bind, pure, Except.pure]
  exact (makeRemoteCall_eq cuts (by decide) rfl
    (.cons (passes_intParam a) (.cons (passes_intParam b) .nil)) hcall
    (ReturnType.exact_int _).holds)

theorem pickFirst_remotely (a b : Int32) :
    makeRemoteCall cuts (server qsort) (.lit "pickFirst") 2 [intParam a, intParam b] ()
      = .ok (⟨.lit "pickFirst", 2, [.int a, .int b], ()⟩, .int a, [], []) :=
  makeRemoteCall_eq cuts (by decide) rfl
    (.cons (passes_intParam a) (.cons (passes_intParam b) .nil)) rfl (ReturnType.exact_int a).holds

/-- The elements do not descend. -/
def Ascending (xs : List Int32) : Prop := xs.Pairwise fun a b ↦ a.toInt ≤ b.toInt

/-- The array comes back as `qsort` leaves it. -/
theorem max_remotely {xs ys : List Int32} (hpos : xs ≠ []) (hlt : 4 * xs.length < 2 ^ 31)
    (hsort : qsort.sort compar xs = .ok ys) (hlen : ys.length = xs.length) :
    makeRemoteCall cuts (server qsort) (.lit "max_of_integer_array") 1
        [⟨Int32.ofNat (4 * xs.length), arrayBytes xs⟩] ()
      = .ok (⟨.lit "max_of_integer_array", 1, [arrayArg xs hpos hlt], ()⟩, arrayResult ys, [], []) := by
  have hcall : makeCall (server qsort) (.lit "max_of_integer_array") 1 [arrayArg xs hpos hlt] ()
      = .ok (arrayResult ys, ()) := by
    show max qsort 1 [arrayArg xs hpos hlt] () = _
    rw [max_eq, hsort, arrayResult, hlen]
    rfl
  have hexact : (arrayResult ys).Exact := by
    have hsize := toInt_ofNat_of_lt hlt
    have hpos' := List.length_pos_iff.mpr hpos
    rw [← hlen] at hsize hpos'
    refine .inr ⟨_, _, rfl, ?_, ?_⟩
    · rw [hsize]
      omega
    · rw [hsize, length_arrayBytes]
  have hpass : (⟨Int32.ofNat (4 * xs.length), arrayBytes xs⟩ : Param).Passes (arrayArg xs hpos hlt) :=
    ⟨(congrArg Int32.ofNat (length_arrayBytes xs)).symm, List.prefix_rfl⟩
  have hname : (CString.lit "max_of_integer_array").strlen + 2 < 2 ^ 31 := by decide
  rw [makeRemoteCall_eq cuts hname rfl (.cons hpass .nil) hcall hexact.holds, hexact.received]

/-- **Sorting from afar.**  An array whose comparisons are consistent comes back rearranged, and it
ascends exactly when no two elements are `2 ^ 31` or more apart. -/
theorem sort_remotely {xs : List Int32} (hpos : xs ≠ []) (hlt : 4 * xs.length < 2 ^ 31)
    (hcons : Consistent compar xs) :
    ∃ ys, makeRemoteCall cuts (server qsort) (.lit "max_of_integer_array") 1
        [⟨Int32.ofNat (4 * xs.length), arrayBytes xs⟩] ()
      = .ok (⟨.lit "max_of_integer_array", 1, [arrayArg xs hpos hlt], ()⟩, arrayResult ys, [], []) ∧
      ys.Perm xs ∧ (Ascending ys ↔ Near xs) := by
  obtain ⟨ys, hsort, hperm, -⟩ := qsort.sorts hcons
  have hinj : Function.Injective Int32.toInt := fun a b h ↦ Int32.toInt_inj.mp h
  refine ⟨ys, max_remotely qsort cuts hpos hlt hsort hperm.length_eq, hperm, ?_⟩
  rw [← agrees_compar_iff]
  exact qsort.ascends_iff hinj hcons (fun a _ b _ h ↦ eq_of_compar_eq_zero h) hsort

/-- The largest `int` and the smallest. -/
def extremes : List Int32 := [2147483647, -2147483648]

/-- They are compared the wrong way round, and so they come back in descending order. -/
theorem sort_remotely_of_extremes :
    ∃ served ys, makeRemoteCall ⟨[3, 1], [2], [1, 1], [5]⟩ (server (.merge Fault Int32))
        (.lit "max_of_integer_array") 1 [⟨Int32.ofNat (4 * extremes.length), arrayBytes extremes⟩] ()
      = .ok (served, arrayResult ys, [], []) ∧ ys.Perm extremes ∧ ¬ Ascending ys := by
  have hcons : Consistent compar extremes := by
    refine ⟨fun a ha b hb ↦ ?_, fun a ha b hb c hc ↦ ?_⟩
    · rcases List.mem_pair.mp ha with rfl | rfl <;> rcases List.mem_pair.mp hb with rfl | rfl <;> decide
    · rcases List.mem_pair.mp ha with rfl | rfl <;> rcases List.mem_pair.mp hb with rfl | rfl <;>
        rcases List.mem_pair.mp hc with rfl | rfl <;> decide
  have hfar : ¬ Near extremes := fun h ↦
    absurd (h _ List.mem_cons_self _ (List.mem_cons_of_mem _ List.mem_cons_self)) (by decide)
  obtain ⟨ys, hcall, hperm, hasc⟩ := sort_remotely (.merge Fault Int32) ⟨[3, 1], [2], [1, 1], [5]⟩
    (List.cons_ne_nil _ _) (by decide) hcons
  exact ⟨_, ys, hcall, hperm, fun h ↦ hfar (hasc.mp h)⟩

/-- Strings as arguments. -/
def strArgs (ss : List { s : CString // s.strlen + 1 < 2 ^ 31 }) : List ArgType :=
  ss.map fun s ↦ .str s.1 s.2

section
variable {ss : List { s : CString // s.strlen + 1 < 2 ^ 31 }}

theorem passes_strArgs :
    List.Forall₂ Param.Passes ((ss.map Subtype.val).map strParam) (strArgs ss) := by
  rw [List.map_map]
  refine List.forall₂_map_left_iff.mpr (List.forall₂_map_right_iff.mpr ?_)
  exact List.forall₂_same.mpr fun s _ ↦
    ⟨(congrArg Int32.ofNat (CString.length_mem s.1)).symm, List.prefix_rfl⟩

theorem cstr_strArgs (hlen : ss.length = 5) :
    List.Forall₂ (fun (x : ArgType) s ↦ x.cstr = .ok s) ((strArgs ss).take 5) (ss.map Subtype.val) := by
  rw [strArgs, List.take_of_length_le (by rw [List.length_map, hlen])]
  refine List.forall₂_map_left_iff.mpr (List.forall₂_map_right_iff.mpr ?_)
  exact List.forall₂_same.mpr fun s _ ↦ ArgType.cstr_str s.1 s.2

theorem count_strArgs (hlen : ss.length = 5) : ((strArgs ss).length : ℤ) = (5 : Int32).toInt := by
  rw [strArgs, List.length_map, hlen]
  rfl

theorem makeCall_concatStr (a : List ArgType) :
    makeCall (server qsort) (.lit "concatenate_five_strings") 5 a () = concatStr 5 a () :=
  rfl

/-- Strings that fit come back as one. -/
theorem concatStr_remotely (hlen : ss.length = 5) (hfits : total (ss.map Subtype.val) + 1 < 2 ^ 31) :
    makeRemoteCall cuts (server qsort) (.lit "concatenate_five_strings") 5
        ((ss.map Subtype.val).map strParam) ()
      = .ok (⟨.lit "concatenate_five_strings", 5, strArgs ss, ()⟩,
          ⟨some (concat (ss.map Subtype.val)).mem, Int32.ofNat (total (ss.map Subtype.val) + 1), 0⟩,
          [], []) := by
  have hcall := concatStr_eq_ok_iff.mpr
    ⟨_, by rw [List.length_map, hlen], cstr_strArgs hlen, hfits, rfl⟩
  have hsize := toInt_ofNat_of_lt hfits
  have hexact : (⟨some (concat (ss.map Subtype.val)).mem,
      Int32.ofNat (total (ss.map Subtype.val) + 1), 0⟩ : ReturnType).Exact := by
    refine .inr ⟨_, _, rfl, ?_, ?_⟩
    · rw [hsize]
      omega
    · rw [hsize, CString.length_mem, strlen_concat]
  have hname : (CString.lit "concatenate_five_strings").strlen + 2 < 2 ^ 31 := by decide
  rw [makeRemoteCall_eq cuts hname (count_strArgs hlen) passes_strArgs
    ((makeCall_concatStr qsort _).trans hcall) hexact.holds, hexact.received]

/-- **Strings put together from afar**: they come back as one if they fit in a block whose size is an
`int`, and otherwise the server does not come back. -/
theorem five_strings_remotely (hlen : ss.length = 5) :
    (total (ss.map Subtype.val) + 1 < 2 ^ 31 →
      makeRemoteCall cuts (server qsort) (.lit "concatenate_five_strings") 5
          ((ss.map Subtype.val).map strParam) ()
        = .ok (⟨.lit "concatenate_five_strings", 5, strArgs ss, ()⟩,
            ⟨some (concat (ss.map Subtype.val)).mem, Int32.ofNat (total (ss.map Subtype.val) + 1), 0⟩,
            [], [])) ∧
      (¬ total (ss.map Subtype.val) + 1 < 2 ^ 31 → ∃ f,
        makeRemoteCall cuts (server qsort) (.lit "concatenate_five_strings") 5
          ((ss.map Subtype.val).map strParam) () = .error f) := by
  refine ⟨concatStr_remotely qsort cuts hlen, fun hlarge ↦ ?_⟩
  have hname : (CString.lit "concatenate_five_strings").strlen + 2 < 2 ^ 31 := by decide
  rcases hcall : concatStr 5 (strArgs ss) () with f | ⟨ret, u⟩
  · exact ⟨f, makeRemoteCall_eq_error cuts hname (count_strArgs hlen) passes_strArgs
      ((makeCall_concatStr qsort _).trans hcall)⟩
  · obtain ⟨zs, -, hzs, hfits, -⟩ := concatStr_eq_ok_iff.mp hcall
    -- the strings that the procedure finds are those that were passed
    have hunique : Relator.RightUnique fun (x : ArgType) s ↦ x.cstr = .ok s :=
      fun _ _ _ h h' ↦ Except.ok.inj (h.symm.trans h')
    obtain rfl := hunique.forall₂ hzs (cstr_strArgs hlen)
    exact absurd hfits hlarge

end

/-- Five times the same word. -/
theorem five_strings_remotely_of_words :
    let word : { s : CString // s.strlen + 1 < 2 ^ 31 } := ⟨.lit "ab", by decide⟩
    let words := List.replicate 5 word
    total (words.map Subtype.val) = 10 ∧
      (total (words.map Subtype.val) + 1 < 2 ^ 31 →
        makeRemoteCall ⟨[], [], [], []⟩ (server (.merge Fault Int32)) (.lit "concatenate_five_strings") 5
            ((words.map Subtype.val).map strParam) ()
          = .ok (⟨.lit "concatenate_five_strings", 5, strArgs words, ()⟩,
              ⟨some (concat (words.map Subtype.val)).mem,
                Int32.ofNat (total (words.map Subtype.val) + 1), 0⟩, [], [])) :=
  ⟨by decide, (five_strings_remotely (.merge Fault Int32) ⟨[], [], [], []⟩ (by decide)).1⟩

/-! ## The program -/

/-- Between one and ten. -/
theorem toNat_mod_ten (n : UInt32) : (n % 10 + 1).toNat = n.toNat % 10 + 1 := by
  rw [UInt32.toNat_add, UInt32.toNat_mod]
  show (n.toNat % 10 + 1) % 2 ^ 32 = _
  omega

theorem length_randomArray (arsize : UInt32) (random : ℕ → Int32) :
    (randomArray arsize random).length = (arsize % 10 + 1).toNat := by
  rw [randomArray, List.length_map, List.length_range]

/-- Half the largest `int` on either side of zero. -/
theorem near_randomArray (arsize : UInt32) (random : ℕ → Int32) :
    Near (randomArray arsize random) := by
  have hmod (x : Int32) : -1073741823 < (x % halfMax).toInt ∧ (x % halfMax).toInt < 1073741823 := by
    have hhalf : halfMax.toInt = 1073741823 := by decide
    rw [Int32.toInt_mod, hhalf]
    exact ⟨Int.lt_tmod_of_pos _ (by decide), Int.tmod_lt_of_pos _ (by decide)⟩
  intro a ha b hb
  obtain ⟨i, -, rfl⟩ := List.mem_map.mp ha
  obtain ⟨j, -, rfl⟩ := List.mem_map.mp hb
  have hi := hmod (random i)
  have hj := hmod (random j)
  omega

/-- `testsort` prints its numbers in ascending order. -/
theorem testsort_eq (arsize : UInt32) (random : ℕ → Int32) :
    ∃ ys, testsort cuts (server qsort) arsize random = .ok ys ∧
      ys.Perm (randomArray arsize random) ∧ Ascending ys := by
  have hlen := length_randomArray arsize random
  have hten := toNat_mod_ten arsize
  have hpos : randomArray arsize random ≠ [] := by
    rw [← List.length_pos_iff, hlen, hten]
    omega
  have hnear := near_randomArray arsize random
  obtain ⟨ys, hsort, hperm, hasc⟩ := (agrees_compar_iff.mpr hnear).sorts qsort
  refine ⟨ys, ?_, hperm, hasc⟩
  have hcall := max_remotely qsort cuts hpos (by omega) hsort hperm.length_eq
  have hints := intsAt_arrayBytes ys []
  rw [List.append_nil, hperm.length_eq] at hints
  simp only [testsort, ← hlen, hcall, ok_bind, arrayResult]
  exact hints

theorem total_le {ss : List CString} {n : ℕ} (h : ∀ s ∈ ss, s.strlen ≤ n) :
    total ss ≤ n * ss.length := by
  induction ss with
  | nil => exact Nat.zero_le _
  | cons s ss ih =>
    obtain ⟨hs, hss⟩ := List.forall_mem_cons.mp h
    rw [total, List.length_cons, Nat.mul_succ]
    have := ih hss
    omega

/-- `testconcat` prints its strings behind each other. -/
theorem testconcat_eq (random : Fin 5 → UInt32 × (ℕ → UInt8)) :
    testconcat cuts (server qsort) random
      = .ok (Int32.ofNat (total (randomStrings random) + 1), concat (randomStrings random)) := by
  have hshort (s) (hs : s ∈ randomStrings random) : s.strlen ≤ 10 := by
    obtain ⟨i, rfl⟩ := List.mem_ofFn.mp hs
    rw [CString.strlen, randomString, List.length_map, List.length_range, toNat_mod_ten]
    omega
  have hlen : (randomStrings random).length = 5 := List.length_ofFn
  have htotal := total_le hshort
  rw [hlen] at htotal
  have hfit (s) (hs : s ∈ randomStrings random) : s.strlen + 1 < 2 ^ 31 := by
    have := hshort s hs
    omega
  have hval : ((randomStrings random).attachWith _ hfit).map Subtype.val = randomStrings random :=
    List.attachWith_map_subtype_val _
  have hcall := concatStr_remotely qsort cuts ((List.length_attachWith).trans hlen) (by
    rw [hval]
    omega)
  rw [hval] at hcall
  simp only [testconcat, hcall, ok_bind, CString.at?_mem]
  rfl

/-- **The sample program.**  Whatever it draws, and however the connections are cut: it prints the sums
and the first of its numbers, the array it has drawn in ascending order, and the strings it has drawn as
one. -/
theorem main_prints (cuts : ℕ → Cuts) (arsize : UInt32) (ints : ℕ → Int32)
    (strings : Fin 5 → UInt32 × (ℕ → UInt8)) :
    ∃ ys, main cuts (server qsort) arsize ints strings
        = .ok ⟨0, 10, some (-10), ys, 188, Int32.ofNat (total (randomStrings strings) + 1),
            concat (randomStrings strings)⟩ ∧
      ys.Perm (randomArray arsize ints) ∧ Ascending ys := by
  obtain ⟨ys, hsort, hperm, hasc⟩ := testsort_eq qsort (cuts 3) arsize ints
  refine ⟨ys, ?_, hperm, hasc⟩
  simp only [main, nothing_remotely, addtwo_remotely, pickFirst_remotely, ok_bind, hsort, testconcat_eq,
    ReturnType.int?_int]
  rfl

end

end Sample
end RemoteFs
