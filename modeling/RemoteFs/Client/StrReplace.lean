import RemoteFs.CData
import RemoteFs.Lib.Replace

/-!
# `str_replace`

The client library rewrites paths by replacing every occurrence of one string in another: the name
of the mount folder by the directory of the server, and `/../` by `/`.  The loop looks for the next
occurrence after the last replacement, so it gets forward unless it looks for the empty string,
which is found where the search starts.  `strReplace_isOk_iff` says that it ends in all other cases.
-/

set_option autoImplicit false

namespace RemoteFs

/-- `strstr(head, substr)`: what stands before the first occurrence and what stands after it. -/
def strstr (substr : Bytes) : Bytes → Option (Bytes × Bytes)
  | [] => if substr = [] then some ([], []) else none
  | c :: cs =>
    if substr <+: c :: cs then some ([], (c :: cs).drop substr.length)
    else (strstr substr cs).map fun x ↦ (c :: x.1, x.2)

/-- The loop of `str_replace`, for so many turns: `newstr` is `front` followed by `head`. -/
def replaceLoop (substr replacement : Bytes) : ℕ → Bytes → Bytes → Except Fault Bytes
  | 0, _, _ => .error .hang
  | turns + 1, front, head =>
    match strstr substr head with
    | none => .ok (front ++ head)
    | some (before, after) =>
      replaceLoop substr replacement turns (front ++ before ++ replacement) after

/-- `str_replace`.  A turn that finds something gets one character forward at least, so there are no
more turns than characters, and one. -/
def strReplace (string : CString) (substr replacement : Option CString) :
    Except Fault CString :=
  match substr, replacement with
  | some substr, some replacement => do
    let newstr ← replaceLoop substr.chars replacement.chars (string.strlen + 1) [] string.chars
    return CString.upTo newstr
  | _, _ => .ok string

theorem strstr_length {substr head before after : Bytes}
    (h : strstr substr head = some (before, after)) :
    after.length + substr.length ≤ head.length := by
  induction head generalizing before with
  | nil =>
    rw [strstr] at h
    split at h
    · rename_i hnil
      cases h
      simp [hnil]
    · cases h
  | cons c cs ih =>
    rw [strstr] at h
    split at h
    · rename_i hpre
      cases h
      have hle := hpre.length_le
      rw [List.length_drop]
      omega
    · obtain ⟨x, hx, heq⟩ := Option.map_eq_some_iff.mp h
      cases heq
      have hlen := ih hx
      rw [List.length_cons]
      omega

theorem strstr_nil (head : Bytes) : strstr [] head = some ([], head) := by
  cases head <;> simp [strstr]

theorem replaceLoop_isOk {substr : Bytes} (h : substr ≠ []) (replacement : Bytes) {turns : ℕ}
    {front head : Bytes} (hlen : head.length < turns) :
    ∃ newstr, replaceLoop substr replacement turns front head = .ok newstr := by
  induction turns generalizing front head with
  | zero => omega
  | succ turns ih =>
    rw [replaceLoop]
    split
    · exact ⟨_, rfl⟩
    · rename_i before after hfound
      have hle := strstr_length hfound
      have hpos := List.length_pos_iff.mpr h
      exact ih (by omega)

theorem replaceLoop_nil (replacement : Bytes) (turns : ℕ) (front head : Bytes) :
    replaceLoop [] replacement turns front head = .error .hang := by
  induction turns generalizing front head with
  | zero => rfl
  | succ turns ih =>
    rw [replaceLoop, strstr_nil]
    exact ih _ _

/-- **`str_replace` ends unless it is to replace the empty string.** -/
theorem strReplace_isOk_iff {string substr replacement : CString} :
    (∃ newstr, strReplace string (some substr) (some replacement) = .ok newstr) ↔
      substr.chars ≠ [] := by
  constructor
  · rintro ⟨newstr, h⟩ hnil
    simp [strReplace, hnil, replaceLoop_nil, bind, Except.bind] at h
  · intro hne
    obtain ⟨newstr, h⟩ : ∃ newstr, replaceLoop substr.chars replacement.chars
        (string.chars.length + 1) [] string.chars = .ok newstr :=
      replaceLoop_isOk hne _ (Nat.lt_succ_self _)
    refine ⟨CString.upTo newstr, ?_⟩
    simp only [strReplace, CString.strlen, h, bind, Except.bind, pure, Except.pure]

/-! ## `str_replace` as a relation -/

theorem strstr_eq_none {substr head : Bytes} (h : strstr substr head = none) :
    ¬ substr <:+: head := by
  induction head with
  | nil =>
    rw [strstr] at h
    split at h
    · cases h
    · rename_i hne
      exact fun hin ↦ hne (List.eq_nil_of_infix_nil hin)
  | cons c cs ih =>
    rw [strstr] at h
    split at h
    · cases h
    · rename_i hpre
      rw [List.infix_cons_iff, not_or]
      exact ⟨hpre, ih (Option.map_eq_none_iff.mp h)⟩

/-- What is found is an occurrence, and the first one. -/
theorem strstr_eq_some {substr head before after : Bytes}
    (h : strstr substr head = some (before, after)) :
    head = before ++ substr ++ after ∧
      ∀ b a, head = b ++ substr ++ a → before.length ≤ b.length := by
  induction head generalizing before with
  | nil =>
    rw [strstr] at h
    split at h
    · rename_i hnil
      cases h
      exact ⟨by rw [hnil]; rfl, fun _ _ _ ↦ Nat.zero_le _⟩
    · cases h
  | cons c cs ih =>
    rw [strstr] at h
    split at h
    · rename_i hpre
      cases h
      obtain ⟨rest, hrest⟩ := hpre
      refine ⟨?_, fun _ _ _ ↦ Nat.zero_le _⟩
      rw [← hrest, List.drop_left, List.nil_append]
    · rename_i hpre
      obtain ⟨x, hx, heq⟩ := Option.map_eq_some_iff.mp h
      cases heq
      obtain ⟨hcs, hfirst⟩ := ih hx
      refine ⟨by rw [hcs]; rfl, fun b a hba ↦ ?_⟩
      cases b with
      | nil => exact absurd ⟨a, hba.symm⟩ hpre
      | cons d b =>
        rw [List.cons_append, List.cons_append, List.cons.injEq] at hba
        exact Nat.succ_le_succ (hfirst b a hba.2)

theorem replaced_of_replaceLoop {substr replacement : Bytes} {turns : ℕ} {front head out : Bytes}
    (h : replaceLoop substr replacement turns front head = .ok out) :
    ∃ new, out = front ++ new ∧ Replaced substr replacement head new := by
  induction turns generalizing front head with
  | zero => cases h
  | succ turns ih =>
    rw [replaceLoop] at h
    split at h
    · rename_i hnone
      cases h
      exact ⟨head, rfl, .none (strstr_eq_none hnone)⟩
    · rename_i before after hfound
      obtain ⟨new, hout, hnew⟩ := ih h
      obtain ⟨hhead, hfirst⟩ := strstr_eq_some hfound
      rw [hhead] at hfirst ⊢
      exact ⟨before ++ replacement ++ new, by simp [hout], .next hfirst hnew⟩

theorem CString.chars_upTo {bs : Bytes} (h : (0 : UInt8) ∉ bs) : (upTo bs).chars = bs := by
  refine List.takeWhile_eq_self_iff.mpr fun b hb ↦ ?_
  simpa using fun h0 : b = 0 ↦ h (h0 ▸ hb)

theorem CString.ext_chars {s t : CString} (h : s.chars = t.chars) : s = t := by
  cases s
  cases t
  cases h
  rfl

/-- **`str_replace` replaces every occurrence.** -/
theorem replaced_of_strReplace {string substr replacement t : CString}
    (h : strReplace string (some substr) (some replacement) = .ok t) :
    Replaced substr.chars replacement.chars string.chars t.chars := by
  obtain ⟨out, hout, h⟩ := bind_eq_ok.mp h
  obtain ⟨new, hnew, hreplaced⟩ := replaced_of_replaceLoop hout
  have hnoNul : (0 : UInt8) ∉ new := fun h0 ↦
    (hreplaced.mem h0).elim string.noNul replacement.noNul
  cases h
  rw [hnew, List.nil_append, CString.chars_upTo hnoNul]
  exact hreplaced

end RemoteFs
