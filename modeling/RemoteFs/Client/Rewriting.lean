import RemoteFs.Client.StrReplace
import RemoteFs.Datagram.Codec

/-!
# `str_replace` in memory

`RemoteFs.Client.StrReplace` is about strings.  The source has blocks of memory: each turn of the loop
allocates a new one, copies what stands before the occurrence, the replacement and what stands behind it
into the block, sets the terminator, and moves `head` there.

* `rewriteLoop_eq`: the invariant.  `newstr` is `front` and what is still searched, `head` is where the
  front ends, and so the loop does what `replaceLoop` does, as long as there is memory.
* `str_replace_rewrites`: it ends, stays in the blocks it has allocated, and returns the string with
  every occurrence replaced.

A `Malloc` says what the calls of `malloc` return, and what is in the blocks then.  `memcpy` is the
`copyIn` of the datagram stubs.  The lengths are natural numbers: the old string and the replacement are
in memory at the same time, so their lengths do not add up to `2 ^ 64`.
-/

set_option autoImplicit false

namespace RemoteFs

open OnBlock
open Datagram (copyIn puts_copyIn)

/-! ## The loop -/

/-- What the `k`-th call of `malloc` returns, when it is asked for `n` bytes. -/
abbrev Malloc : Type := (k n : ℕ) → Option { b : Bytes // b.length = n }

/-- One turn: how many bytes were allocated, and where they were written to. -/
structure Turn where
  size : ℕ
  log : List Access

/-- What a call of `str_replace` does, and the block it returns a pointer to, or `NULL`. -/
structure Rewriting where
  turns : List Turn
  result : Except Fault (Option Bytes)

/-- The three calls of `memcpy` and the one of `memset`, on the block `newstr`.  There is an occurrence
of `substr` at `tok`, so nothing is taken from less. -/
def rebuild (oldstr : Bytes) (tok : ℕ) (substr replacement : CString) :
    OnBlock Fault UInt8 Unit := do
  let oldlen := (CString.upTo oldstr).strlen
  copyIn 0 oldstr tok
  copyIn tok replacement.mem replacement.strlen
  copyIn (tok + replacement.strlen) (oldstr.drop (tok + substr.strlen))
    (oldlen - substr.strlen - tok : ℤ)
  OnBlock.write .overflow (oldlen - substr.strlen + replacement.strlen) 1 [0]

/-- The loop of `str_replace`, for so many turns; `k` blocks have been allocated, `newstr` is the last,
and `head` points into it. -/
def rewriteLoop (malloc : Malloc) (substr replacement : CString) :
    (turns k : ℕ) → (newstr : Bytes) → (head : ℕ) → Rewriting
  | 0, _, _, _ => ⟨[], .error .hang⟩
  | turns + 1, k, newstr, head =>
    match CString.at? (newstr.drop head) with
    | none => ⟨[], .error .overread⟩
    | some string =>
      match strstr substr.chars string.chars with
      | none => ⟨[], .ok (some newstr)⟩
      | some (before, _) =>
        let tok := head + before.length
        let size := (CString.upTo newstr).strlen - substr.strlen + replacement.strlen + 1
        match malloc k size with
        | none => ⟨[], .ok none⟩
        | some block =>
          let o := rebuild newstr tok substr replacement block.1
          match o.result with
          | .error f => ⟨[⟨size, o.log⟩], .error f⟩
          | .ok () =>
            let rest := rewriteLoop malloc substr replacement turns (k + 1) o.block
              (tok + replacement.strlen)
            ⟨⟨size, o.log⟩ :: rest.turns, rest.result⟩

/-- `str_replace`.  The first call of `malloc` is the one of `strdup`; when it fails, `strstr` gets a
`NULL` pointer. -/
def strReplaceMem (malloc : Malloc) (turns : ℕ) (string : CString)
    (substr replacement : Option CString) : Rewriting :=
  match substr, replacement, malloc 0 (string.strlen + 1) with
  | some substr, some replacement, some _ =>
    rewriteLoop malloc substr replacement turns 1 string.mem 0
  | some _, some _, none => ⟨[], .error .nullDeref⟩
  | _, _, some _ => ⟨[], .ok (some string.mem)⟩
  | _, _, none => ⟨[], .ok none⟩

/-- All accesses of all turns were to the bytes allocated for the turn. -/
def Rewriting.Inside (r : Rewriting) : Prop := ∀ t ∈ r.turns, ∀ a ∈ t.log, a.Inside t.size

/-! ## One turn -/

section
variable {substr : CString} {front before after : Bytes}

/-- The old string: what has been rewritten, and where the occurrence is in the rest. -/
theorem strlen_oldstr (hnoNul : (0 : UInt8) ∉ front ++ (before ++ substr.chars ++ after)) :
    (CString.upTo (front ++ (before ++ substr.chars ++ after) ++ [0])).strlen
      = (front ++ before).length + substr.strlen + after.length := by
  have hupTo : CString.upTo (front ++ (before ++ substr.chars ++ after) ++ [0]) = ⟨_, hnoNul⟩ :=
    CString.upTo_mem ⟨_, hnoNul⟩
  rw [hupTo, CString.strlen, CString.strlen]
  simp only [List.length_append]
  omega

/-- Copying the front of a block. -/
theorem puts_copyIn_append (i : ℕ) (xs ys : Bytes) :
    Puts (copyIn i (xs ++ ys) xs.length) i xs (i + xs.length) := by
  have hle : (xs.length : ℤ) ≤ (xs ++ ys).length := by
    rw [List.length_append]
    omega
  have h := puts_copyIn i (Int.natCast_nonneg xs.length) hle
  rwa [Int.toNat_natCast, List.take_left] at h

/-- **One turn writes the new string**, from the first byte of its block to the last. -/
theorem puts_rebuild (replacement : CString)
    (hnoNul : (0 : UInt8) ∉ front ++ (before ++ substr.chars ++ after)) :
    Puts (rebuild (front ++ (before ++ substr.chars ++ after) ++ [0]) (front ++ before).length
        substr replacement) 0
      (front ++ before ++ (replacement.chars ++ (after ++ [0])))
      ((front ++ before).length + replacement.strlen + after.length + 1) := by
  have hlen := strlen_oldstr hnoNul
  have hold : front ++ (before ++ substr.chars ++ after) ++ [0]
      = (front ++ before) ++ (substr.chars ++ (after ++ [0])) := by simp
  rw [hold] at hlen ⊢
  generalize front ++ before = head at hlen ⊢
  have hback : (head ++ (substr.chars ++ (after ++ [0]))).drop (head.length + substr.strlen)
      = after ++ [0] := by
    rw [← List.drop_drop, List.drop_left]
    exact List.drop_left
  have hsize : ((head.length + substr.strlen + after.length : ℕ) - substr.strlen - head.length : ℤ)
      = after.length := by omega
  have hend : head.length + substr.strlen + after.length - substr.strlen + replacement.strlen
      = head.length + replacement.strlen + after.length := by omega
  simp only [rebuild, hlen, hback, hsize, hend]
  have hnul : Puts (OnBlock.write Fault.overflow
      (head.length + replacement.strlen + after.length) 1 [0])
      (head.length + replacement.strlen + after.length) [(0 : UInt8)] _ :=
    Puts.write _ _ (by decide) (by decide)
  have hrest := (puts_copyIn_append (head.length + replacement.strlen) after [0]).bind hnul
  have hreplaced := (puts_copyIn_append head.length replacement.chars [0]).bind hrest
  have hfront := (puts_copyIn_append 0 head (substr.chars ++ (after ++ [0]))).bind
    (hreplaced.cast (Nat.zero_add _).symm)
  refine hfront.congr rfl ?_
  show max _ (max _ (max _ (head.length + replacement.strlen + after.length + 1))) = _
  rw [CString.strlen]
  omega

/-- **What a turn leaves**: the occurrence is replaced, and every byte of the block is accounted for. -/
theorem rebuild_eq (replacement : CString) (hnoNul : (0 : UInt8) ∉ front ++ (before ++ substr.chars ++ after))
    {block : Bytes}
    (hlen : block.length = (front ++ before).length + replacement.strlen + after.length + 1) :
    let o := rebuild (front ++ (before ++ substr.chars ++ after) ++ [0]) (front ++ before).length
      substr replacement block
    o.result = .ok () ∧ o.block = (front ++ before ++ replacement.chars) ++ after ++ [0] ∧
      o.Stays ((front ++ before).length + replacement.strlen + after.length + 1) := by
  have hnew : (front ++ before ++ (replacement.chars ++ (after ++ [0]))).length
      = (front ++ before).length + replacement.strlen + after.length + 1 := by
    simp only [List.length_append, CString.strlen, List.length_singleton]
    omega
  obtain ⟨hres, hblock, hstays⟩ := (puts_rebuild replacement hnoNul).fills hnew hlen
  refine ⟨hres, hblock.trans ?_, hstays⟩
  simp only [List.append_assoc]

/-- **The invariant of the loop**: `newstr` is the string that has been rewritten up to `head`.  So the
loop does what the loop on strings does, in the blocks it allocates, until there is no memory. -/
theorem rewriteLoop_eq (malloc : Malloc) (substr replacement : CString) (turns k : ℕ)
    {front rest : Bytes} (hnoNul : (0 : UInt8) ∉ front ++ rest) :
    let r := rewriteLoop malloc substr replacement turns k (front ++ rest ++ [0]) front.length
    r.Inside ∧ (r.result = (replaceLoop substr.chars replacement.chars turns front rest).map
        (fun new ↦ some (new ++ [0])) ∨
      r.result = .ok none ∧ ∃ n, malloc (k + r.turns.length) n = none) := by
  induction turns generalizing k front rest with
  | zero => exact ⟨fun t ht ↦ absurd ht (List.not_mem_nil), .inl rfl⟩
  | succ turns ih =>
    have hrest : (0 : UInt8) ∉ rest := fun h ↦ hnoNul (List.mem_append_right _ h)
    have hat : CString.at? ((front ++ rest ++ [0]).drop front.length) = some ⟨rest, hrest⟩ := by
      rw [List.append_assoc, List.drop_left]
      exact CString.at?_mem ⟨rest, hrest⟩
    simp only [rewriteLoop, replaceLoop, hat]
    cases hfound : strstr substr.chars rest with
    | none => exact ⟨fun t ht ↦ absurd ht (List.not_mem_nil), .inl rfl⟩
    | some found =>
      obtain ⟨before, after⟩ := found
      obtain ⟨rfl, -⟩ := strstr_eq_some hfound
      have htok : front.length + before.length = (front ++ before).length :=
        List.length_append.symm
      have hsize : (CString.upTo (front ++ (before ++ substr.chars ++ after) ++ [0])).strlen
          - substr.strlen + replacement.strlen + 1
          = (front ++ before).length + replacement.strlen + after.length + 1 := by
        rw [strlen_oldstr hnoNul]
        omega
      simp only [htok]
      generalize (CString.upTo _).strlen - substr.strlen + replacement.strlen + 1 = size at hsize ⊢
      subst hsize
      cases hblock : malloc k ((front ++ before).length + replacement.strlen + after.length + 1) with
      | none => exact ⟨fun t ht ↦ absurd ht (List.not_mem_nil), .inr ⟨rfl, _, hblock⟩⟩
      | some block =>
        obtain ⟨hres, hnew, hstays⟩ := rebuild_eq replacement hnoNul block.2
        have hhead : (front ++ before).length + replacement.strlen
            = (front ++ before ++ replacement.chars).length := List.length_append.symm
        have hnoNul' : (0 : UInt8) ∉ (front ++ before ++ replacement.chars) ++ after := by
          have := replacement.noNul
          simp only [List.mem_append, not_or] at hnoNul ⊢
          tauto
        obtain ⟨hinside, hresult⟩ := ih (k + 1) hnoNul'
        rw [← hhead] at hinside hresult
        simp only [Nat.add_right_comm k 1, Nat.add_assoc k] at hresult
        simp only [hres, hnew, List.length_cons]
        refine ⟨fun t ht ↦ ?_, hresult⟩
        rcases List.mem_cons.mp ht with rfl | ht
        · exact hstays
        · exact hinside t ht

end

/-! ## The call -/

/-- **The call in memory is the call on strings**, unless an allocation fails. -/
theorem strReplaceMem_eq (malloc : Malloc) (turns : ℕ) (string substr replacement : CString) :
    let r := strReplaceMem malloc turns string (some substr) (some replacement)
    r.Inside ∧ (r.result = (replaceLoop substr.chars replacement.chars turns [] string.chars).map
        (fun new ↦ some (new ++ [0])) ∨
      (r.result = .ok none ∨ r.result = .error .nullDeref) ∧
        ∃ k n, k ≤ r.turns.length + 1 ∧ malloc k n = none) := by
  simp only [strReplaceMem]
  cases hstrdup : malloc 0 (string.strlen + 1) with
  | none =>
    exact ⟨fun t ht ↦ absurd ht List.not_mem_nil, .inr ⟨.inr rfl, 0, _, Nat.zero_le _, hstrdup⟩⟩
  | some newstr =>
    have hnoNul : (0 : UInt8) ∉ [] ++ string.chars := string.noNul
    obtain ⟨hinside, hresult⟩ := rewriteLoop_eq malloc substr replacement turns 1 hnoNul
    refine ⟨hinside, hresult.imp_right ?_⟩
    rintro ⟨hnull, n, hfail⟩
    exact ⟨.inl hnull, _, n, Nat.le_of_eq (Nat.add_comm _ _), hfail⟩

/-- There are no more turns than characters, and one. -/
theorem strReplaceMem_ne_hang (malloc : Malloc) {string substr : CString} (replacement : CString)
    (hne : substr.chars ≠ []) {turns : ℕ} (hturns : string.strlen < turns) :
    (strReplaceMem malloc turns string (some substr) (some replacement)).result ≠ .error .hang := by
  obtain ⟨new, hnew⟩ : ∃ new, replaceLoop substr.chars replacement.chars turns [] string.chars
      = .ok new := replaceLoop_isOk hne _ hturns
  obtain ⟨-, hresult | ⟨hresult | hresult, -⟩⟩ :=
    strReplaceMem_eq malloc turns string substr replacement
  · rw [hresult, hnew]
    rintro ⟨⟩
  · rw [hresult]
    rintro ⟨⟩
  · rw [hresult]
    rintro ⟨⟩

/-- **`str_replace` replaces from left to right.**  For all strings, of which the one to be replaced is
not empty, and whatever `malloc` returns: the loop comes to an end, every `memcpy` and `memset` of every
turn stays in the block the turn has allocated, and what is returned is the string with the occurrences
replaced, the first one, then the first one behind it, and so on; or an allocation has failed, and then
`NULL` is returned, or given to `strstr`. -/
theorem str_replace_rewrites (malloc : Malloc) (string : CString) {substr : CString}
    (replacement : CString) (hne : substr.chars ≠ []) {turns : ℕ} (hturns : string.strlen < turns) :
    let r := strReplaceMem malloc turns string (some substr) (some replacement)
    r.Inside ∧ r.result ≠ .error .hang ∧
      ((∃ new : CString, r.result = .ok (some new.mem) ∧
          Replaced substr.chars replacement.chars string.chars new.chars) ∨
        (r.result = .ok none ∨ r.result = .error .nullDeref) ∧
          ∃ k n, k ≤ r.turns.length + 1 ∧ malloc k n = none) := by
  obtain ⟨new, hnew⟩ : ∃ new, replaceLoop substr.chars replacement.chars turns [] string.chars
      = .ok new := replaceLoop_isOk hne _ hturns
  obtain ⟨hinside, hresult⟩ := strReplaceMem_eq malloc turns string substr replacement
  refine ⟨hinside, strReplaceMem_ne_hang malloc replacement hne hturns, ?_⟩
  rcases hresult with hresult | hfail
  · obtain ⟨new', hnew', hreplaced⟩ := replaced_of_replaceLoop hnew
    have hnoNul : (0 : UInt8) ∉ new' := fun h ↦
      (hreplaced.mem h).elim string.noNul replacement.noNul
    rw [hresult, hnew, hnew']
    exact .inl ⟨⟨new', hnoNul⟩, rfl, hreplaced⟩
  · exact .inr hfail

/-- There is always memory, with sevens in it. -/
def plenty : Malloc := fun _ n ↦ some ⟨List.replicate n 7, List.length_replicate⟩

/-- The replacement contains what it replaces, and is not searched again. -/
theorem str_replace_rewrites_of_longer :
    (strReplaceMem plenty 4 (.lit "aba") (some (.lit "a")) (some (.lit "aa"))).Inside ∧
      Replaced (CString.lit "a").chars (CString.lit "aa").chars (CString.lit "aba").chars
        (CString.lit "aabaa").chars := by
  have hne : (CString.lit "a").chars ≠ [] := by decide
  have hturns : (CString.lit "aba").strlen < 4 := by decide
  obtain ⟨hinside, -, hnew | ⟨-, k, n, -, hfail⟩⟩ :=
    str_replace_rewrites plenty (.lit "aba") (.lit "aa") hne hturns
  · refine ⟨hinside, ?_⟩
    obtain ⟨new, hresult, hreplaced⟩ := hnew
    have hmem : (strReplaceMem plenty 4 (.lit "aba") (some (.lit "a")) (some (.lit "aa"))).result
        = .ok (some (CString.lit "aabaa").mem) := by decide
    rw [hresult, Except.ok.injEq, Option.some.injEq] at hmem
    rwa [← CString.upTo_mem new, hmem, CString.upTo_mem] at hreplaced
  · cases hfail

end RemoteFs
