import RemoteFs.Client.Directories
import RemoteFs.Client.Retry
import RemoteFs.Rpc.Decoding

/-!
# What the library asks of the server

`ApiCall` is a call of any of the ten functions of the library with its arguments, and
`ApiCall.params` what it passes to `make_remote_call`, in every attempt.  The sizes come from
`sizeof(int)`, from `strlen` and from the caller's `count`; all of them travel as `int`s, and the
server exits on one that is not positive.  `api_decodable` says which calls it decodes.
-/

set_option autoImplicit false

namespace RemoteFs

variable {κ : Type}

/-- The calls of the library. -/
inductive ApiCall where
  | fsMount (localFolderName : CString)
  | fsUnmount (localFolderName : CString)
  | fsOpenDir (folderName : CString)
  | fsReadDir (folder : Int32)
  | fsRead (fd : Int32) (buf : Bytes) (count : UInt32)
  /-- One of the five that try again. -/
  | retry (call : RetryCall)

namespace ApiCall

/-- The procedure it calls. -/
def proc : ApiCall → Proc
  | .fsMount _ => .fsMount
  | .fsUnmount _ => .fsUnmount
  | .fsOpenDir _ => .fsOpenDir
  | .fsReadDir _ => .fsReadDir
  | .fsRead _ _ _ => .fsRead
  | .retry call => call.proc

/-- What it passes. -/
def params (cl : Client) : ApiCall → Except Fault (List Param)
  | .fsMount name => return [.str name]
  | .fsUnmount name => return [.int cl.id, .str name]
  | .fsOpenDir name => return [.int cl.id, .str (← cl.translateDir name)]
  | .fsReadDir folder => return [.int cl.id, .int folder]
  | .fsRead fd buf count =>
    match CString.at? buf with
    | none => .error .overread
    | some s =>
      return [.int cl.id, .int fd, ⟨Int32.ofNat (s.strlen + 1), buf⟩, .int count.toInt32]
  | .retry call => call.params cl

/-- The pointers a caller passes are valid: the block `fsWrite` is to write holds `count` bytes. -/
def Valid : ApiCall → Prop
  | .retry (.fsWrite _ buf count) => count.toNat ≤ buf.length
  | _ => True

end ApiCall

/-- The size of the string with its terminator, cut to 32 bits, is a positive `int`. -/
def CString.Sendable (s : CString) : Prop :=
  0 < (s.strlen + 1) % 2 ^ 32 ∧ (s.strlen + 1) % 2 ^ 32 < 2 ^ 31

/-- The sizes a call sends are positive `int`s. -/
def ApiCall.Fits (cl : Client) : ApiCall → Prop
  | .fsMount name | .fsUnmount name => name.Sendable
  | .fsOpenDir name => ∀ path, cl.translateDir name = .ok path → path.Sendable
  | .fsRead _ buf _ => (CString.upTo buf).Sendable
  | .retry (.fsOpen name _) | .retry (.fsRemove name) =>
    ∀ path, cl.translate name = .ok path → path.Sendable
  | .retry (.fsWrite _ _ count) => 0 < count.toNat ∧ count.toNat < 2 ^ 31
  | _ => True

/-! ## Sizes -/

theorem toInt_ofNat_pos_iff (n : ℕ) :
    0 < (Int32.ofNat n).toInt ↔ 0 < n % 2 ^ 32 ∧ n % 2 ^ 32 < 2 ^ 31 := by
  have hsize : ((Int32.size : ℕ) : ℤ) = 4294967296 := rfl
  rw [Int32.toInt_ofNat', Int.bmod, hsize]
  split <;> omega

theorem toInt32_eq_ofNat (n : UInt32) : n.toInt32 = Int32.ofNat n.toNat := by
  rw [← UInt32.toInt32_ofNat', UInt32.ofNat_toNat]

theorem toInt_toInt32_pos_iff (n : UInt32) :
    0 < n.toInt32.toInt ↔ 0 < n.toNat ∧ n.toNat < 2 ^ 31 := by
  rw [toInt32_eq_ofNat, toInt_ofNat_pos_iff, Nat.mod_eq_of_lt n.toNat_lt]

theorem Param.holds_int (n : Int32) : (Param.int n).Holds := by
  show sizeofInt.toInt ≤ (intBytes n).length
  rw [length_intBytes]
  decide

theorem Param.pos_int (n : Int32) : 0 < (Param.int n).psize.toInt := by
  show 0 < sizeofInt.toInt
  decide

theorem Param.holds_block {buf : Bytes} {n : ℕ} (h : n ≤ buf.length) :
    Param.Holds ⟨Int32.ofNat n, buf⟩ := by
  have hle := toInt_ofNat_le n
  show (Int32.ofNat n).toInt ≤ buf.length
  omega

theorem Param.holds_str (s : CString) : (Param.str s).Holds :=
  Param.holds_block (by simp)

theorem Param.pos_str_iff (s : CString) : 0 < (Param.str s).psize.toInt ↔ s.Sendable :=
  toInt_ofNat_pos_iff _

theorem Param.holds_buf {buf : Bytes} {count : UInt32} (h : count.toNat ≤ buf.length) :
    Param.Holds ⟨count.toInt32, buf⟩ := by
  rw [toInt32_eq_ofNat]
  exact Param.holds_block h

theorem forall_ok_iff {α : Type} {x : Except Fault α} {a : α} (h : x = .ok a) (p : α → Prop) :
    (∀ b, x = .ok b → p b) ↔ p a := by
  subst h
  exact ⟨fun hp ↦ hp a rfl, fun ha b hb ↦ Except.ok.inj hb ▸ ha⟩

/-- The blocks a call passes are as long as it says, and the sizes are positive when they fit. -/
theorem ApiCall.params_spec {cl : Client} {call : ApiCall} {params : List Param}
    (hvalid : call.Valid) (h : call.params cl = .ok params) :
    (∀ p ∈ params, p.Holds) ∧ ((∀ p ∈ params, 0 < p.psize.toInt) ↔ call.Fits cl) := by
  have hint := Param.holds_int
  have hstr := Param.holds_str
  have hpos := Param.pos_int
  cases call with
  | fsMount name =>
    cases h
    simp [Fits, Param.pos_str_iff, hstr]
  | fsUnmount name =>
    cases h
    simp [Fits, Param.pos_str_iff, hint, hstr, hpos]
  | fsReadDir folder =>
    cases h
    simp [Fits, hint, hpos]
  | fsOpenDir name =>
    obtain ⟨path, hpath, h⟩ := bind_eq_ok.mp h
    cases h
    rw [Fits, forall_ok_iff hpath]
    simp [Param.pos_str_iff, hint, hstr, hpos]
  | fsRead fd buf count =>
    rw [ApiCall.params] at h
    split at h
    · cases h
    · rename_i s hs
      cases h
      have hblock : Param.Holds ⟨Int32.ofNat (s.strlen + 1), buf⟩ :=
        Param.holds_block (CString.strlen_lt_of_at? hs)
      have hsize : 0 < (Int32.ofNat (s.strlen + 1)).toInt ↔ s.Sendable := toInt_ofNat_pos_iff _
      rw [Fits, CString.upTo_of_at? hs]
      simp only [List.forall_mem_cons, hint, hpos, hblock, hsize, List.not_mem_nil, true_and,
        and_true, IsEmpty.forall_iff, implies_true]
  | retry call =>
    cases call with
    | fsCloseDir folder =>
      cases h
      simp [Fits, hint, hpos]
    | fsClose fd =>
      cases h
      simp [Fits, hint, hpos]
    | fsWrite fd buf count =>
      cases h
      simp [Fits, hint, hpos, Param.holds_buf hvalid, toInt_toInt32_pos_iff]
    | fsOpen name mode =>
      obtain ⟨path, hpath, h⟩ := bind_eq_ok.mp h
      cases h
      rw [Fits, forall_ok_iff hpath]
      simp [Param.pos_str_iff, hint, hstr, hpos]
    | fsRemove name =>
      obtain ⟨path, hpath, h⟩ := bind_eq_ok.mp h
      cases h
      rw [Fits, forall_ok_iff hpath]
      simp [Param.pos_str_iff, hint, hstr, hpos]

theorem ApiCall.length_params {cl : Client} {call : ApiCall} {params : List Param}
    (h : call.params cl = .ok params) : (params.length : ℤ) = call.proc.nparams.toInt := by
  cases call with
  | fsMount | fsUnmount | fsReadDir =>
    cases h
    rfl
  | fsOpenDir name =>
    obtain ⟨path, -, h⟩ := bind_eq_ok.mp h
    cases h
    rfl
  | fsRead fd buf count =>
    rw [ApiCall.params] at h
    split at h
    · cases h
    · cases h
      rfl
  | retry call => exact RetryCall.length_params h

/-! ## The server's side -/

/-- The server makes of the bytes the call sends, and of all of them, a request to the handler that
is registered for the call. -/
def Accepted (K : Kernel κ) (proc : Proc) (params : List Param) : Prop :=
  ∃ args, Decodes proc.name proc.nparams params args ∧
    ∀ (garbage : Int32) (w : World κ),
      makeCall (registerAll (procedures K garbage)) proc.name proc.nparams args w
        = serve K ⟨proc, args, garbage⟩ w

theorem accepted_iff (K : Kernel κ) {proc : Proc} {params : List Param}
    (hn : (params.length : ℤ) = proc.nparams.toInt) :
    Accepted K proc params ↔ ∀ p ∈ params, p.Holds ∧ 0 < p.psize.toInt := by
  refine Iff.trans ⟨fun ⟨args, hargs, _⟩ ↦ ⟨args, hargs⟩, ?_⟩ (decodes_iff proc.strlen_name hn)
  intro hdecodes
  obtain ⟨args, hpasses⟩ := exists_forall₂_passes ((decodes_iff proc.strlen_name hn).mp hdecodes)
  refine ⟨args, decodes_of_passes proc.strlen_name hn hpasses, fun garbage w ↦ ?_⟩
  rw [hpasses.length_eq] at hn
  have hcount : (⟨proc, args, garbage⟩ : Request).nparams = proc.nparams := nparams_of_length hn
  have hcall := @makeCall_procedures κ K w ⟨proc, args, garbage⟩ hcount
  exact hcall

/-- **Which calls of the library the server decodes.**  Whatever the arguments of a call are (its
pointers being valid), the bytes it sends are decoded and given to the handler of the call if and
only if the sizes it sends are positive `int`s: the lengths of its strings, terminator included and
cut to 32 bits, and the count of an `fsWrite`.  Any other call that is sent makes the server
exit. -/
theorem api_decodable (K : Kernel κ) (cl : Client) (call : ApiCall) (hvalid : call.Valid)
    {params : List Param} (h : call.params cl = .ok params) :
    (Accepted K call.proc params ↔ call.Fits cl) ∧
      (¬ call.Fits cl → ∀ (cuts : Session.Cuts) (garbage : Int32) (w : World κ),
        makeRemoteCall cuts (registerAll (procedures K garbage)) call.proc.name call.proc.nparams
          params w = .error .exit) := by
  have hn := ApiCall.length_params h
  obtain ⟨hholds, hpos⟩ := ApiCall.params_spec hvalid h
  constructor
  · rw [accepted_iff K hn, ← hpos]
    exact ⟨fun hgood p hp ↦ (hgood p hp).2, fun hall p hp ↦ ⟨hholds p hp, hall p hp⟩⟩
  · intro hnot cuts garbage w
    rw [← hpos] at hnot
    exact makeRemoteCall_exit_of_holds cuts (Proc.strlen_name _) hn hholds (by simpa using hnot)

/-- A write of two bytes out of three. -/
theorem api_decodable_of_write :
    Accepted (FileSystem.kernel .lowest) .fsWrite [.int 1, .int 3, .int 2, ⟨2, [7, 8, 9]⟩] := by
  have hvalid : (ApiCall.retry (.fsWrite 3 [7, 8, 9] 2)).Valid := by
    show (2 : UInt32).toNat ≤ 3
    decide
  have hfits : (ApiCall.retry (.fsWrite 3 [7, 8, 9] 2)).Fits mountedClient := by
    show 0 < (2 : UInt32).toNat ∧ (2 : UInt32).toNat < 2 ^ 31
    decide
  exact (api_decodable (FileSystem.kernel .lowest) mountedClient _ hvalid rfl).1.mpr hfits

/-- A write of nothing, which is a valid call, makes the server exit. -/
theorem empty_write_exits :
    (ApiCall.retry (.fsWrite 3 [] 0)).Valid ∧
    (ApiCall.retry (.fsWrite 3 [] 0)).params mountedClient
      = .ok [.int 1, .int 3, .int 0, ⟨0, []⟩] ∧
    ¬ Accepted (FileSystem.kernel .lowest) .fsWrite [.int 1, .int 3, .int 0, ⟨0, []⟩] ∧
    ∀ (cuts : Session.Cuts) (garbage : Int32) (w : World FileSystem),
      makeRemoteCall cuts (registerAll (procedures (FileSystem.kernel .lowest) garbage))
        Proc.fsWrite.name Proc.fsWrite.nparams [.int 1, .int 3, .int 0, ⟨0, []⟩] w
        = .error .exit := by
  have hholds : ∀ p ∈ [Param.int 1, .int 3, .int 0, ⟨0, []⟩], p.Holds := by
    have hnil : Param.Holds ⟨0, []⟩ := by
      show (0 : Int32).toInt ≤ 0
      decide
    simp [Param.holds_int, hnil]
  have hzero : ∃ p ∈ [Param.int 1, .int 3, .int 0, ⟨0, []⟩], ¬ 0 < p.psize.toInt :=
    ⟨⟨0, []⟩, by simp, by decide⟩
  refine ⟨Nat.le_refl 0, rfl, ?_, fun cuts garbage w ↦
    makeRemoteCall_exit_of_holds cuts (Proc.strlen_name _) rfl hholds hzero⟩
  rw [accepted_iff _ rfl]
  intro hgood
  obtain ⟨p, hp, hnot⟩ := hzero
  exact hnot (hgood p hp).2

end RemoteFs
