import RemoteFs.Rpc.Transparency
import RemoteFs.Server.LockTable

/-!
# The server program

`main` registers the ten handlers and serves connections.  `procedures` is the list of its calls of
`register_procedure`, and two facts make the handlers fit for the RPC layer: a call that arrives
with a handler's name and count runs that handler (`makeCall_procedures`), and what a handler
returns is as long as it announces (`exact_of_serve`).
-/

set_option autoImplicit false

namespace RemoteFs

variable {κ : Type}

/-- The name a handler is registered under. -/
def Proc.name : Proc → CString
  | .fsMount => .lit "fsMount"
  | .fsUnmount => .lit "fsUnmount"
  | .fsOpenDir => .lit "fsOpenDir"
  | .fsReadDir => .lit "fsReadDir"
  | .fsCloseDir => .lit "fsCloseDir"
  | .fsOpen => .lit "fsOpen"
  | .fsRead => .lit "fsRead"
  | .fsWrite => .lit "fsWrite"
  | .fsClose => .lit "fsClose"
  | .fsRemove => .lit "fsRemove"

/-- The parameter count it is registered with. -/
def Proc.nparams : Proc → Int32
  | .fsMount => 1
  | .fsOpen => 3
  | .fsRead | .fsWrite => 4
  | _ => 2

/-- The calls of `register_procedure` in `main`. -/
def procedures (K : Kernel κ) (garbage : Int32) : List (Registration (World κ)) :=
  [⟨some (.lit "fsMount"), 1, fsMount⟩,
    ⟨some (.lit "fsUnmount"), 2, fsUnmount⟩,
    ⟨some (.lit "fsOpenDir"), 2, fsOpenDir K⟩,
    ⟨some (.lit "fsReadDir"), 2, fsReadDir K⟩,
    ⟨some (.lit "fsCloseDir"), 2, fsCloseDir K garbage⟩,
    ⟨some (.lit "fsOpen"), 3, fsOpen K⟩,
    ⟨some (.lit "fsRead"), 4, fsRead K⟩,
    ⟨some (.lit "fsWrite"), 4, fsWrite K⟩,
    ⟨some (.lit "fsClose"), 2, fsClose K⟩,
    ⟨some (.lit "fsRemove"), 2, fsRemove K⟩]

/-- The count a handler gets is the number of its arguments. -/
theorem nparams_of_length {req : Request} (hn : (req.args.length : ℤ) = req.proc.nparams.toInt) :
    req.nparams = req.proc.nparams := by
  have hlt := Int32.toInt_lt req.proc.nparams
  rw [Request.nparams, ← Int32.toInt_inj, toInt_ofNat_of_lt (by omega), hn]

/-- A call with the name and the count of a handler runs that handler. -/
theorem makeCall_procedures (K : Kernel κ) (w : World κ) {req : Request}
    (h : req.nparams = req.proc.nparams) :
    makeCall (registerAll (procedures K req.garbage)) req.proc.name req.proc.nparams req.args w
      = serve K req w := by
  obtain ⟨proc, args, garbage⟩ := req
  cases proc <;> (rw [serve, h]; rfl)

theorem exact_of_mountClient {w w' : World κ} {r : ReturnType}
    (h : mountClient w = .ok (r, w')) : r.Exact := by
  simp only [mountClient] at h
  split at h
  · cases h
  · rename_i hle
    cases h
    refine .inr ⟨_, _, rfl, by decide, ?_⟩
    rw [List.length_append, List.length_append, List.length_replicate, length_intBytes,
      CString.length_mem]
    show ((4 + (w.srv.mountedDir.strlen + 1 + (256 - (w.srv.mountedDir.strlen + 1))) : ℕ) : ℤ) = 260
    omega

theorem exact_of_readDirNum {K : Kernel κ} {w w' : World κ} {n : Int32} {r : ReturnType}
    (h : readDirNum K n w = .ok (r, w')) : r.Exact := by
  simp only [readDirNum] at h
  split at h
  · cases h
  · split at h
    · rename_i ent _
      cases h
      exact .inr ⟨ent.bytes, 280, rfl, by decide, by rw [ent.size_eq]; rfl⟩
    · split at h
      · cases h
        exact ReturnType.exact_int _
      · cases h
        exact .inl rfl

/-- A reply that has room for a count and as many bytes is no longer than that. -/
theorem toInt_sizeofInt_add (n : ℕ)
    (h : ¬ (sizeofInt + Int32.ofNat n).toInt < 4 + n) :
    (sizeofInt + Int32.ofNat n).toInt = 4 + n := by
  have hsize : (sizeofInt + Int32.ofNat n).toInt = (4 + (n : ℤ)).bmod (2 ^ 32) := by
    have hfour : sizeofInt.toInt = 4 := rfl
    rw [Int32.toInt_add, Int32.toInt_ofNat', hfour]
    exact Int.add_bmod_bmod
  rw [hsize] at h ⊢
  rw [Int.bmod] at h ⊢
  split at h <;> omega

/-- The reply to `fsRead`: a failing `read` does not get here, since its reply of three bytes does
not hold the four bytes of an `int`. -/
theorem exact_of_readFd {K : Kernel κ} {w w' : World κ} {n count : Int32} {r : ReturnType}
    (h : readFd K n count w = .ok (r, w')) : r.Exact := by
  simp only [readFd] at h
  cases hgot : (K.read w.kern n (sizeT count)).1 with
  | error e =>
    simp only [hgot, intResult] at h
    rw [if_neg (by simp), if_pos (by decide)] at h
    cases h
  | ok bs =>
    simp only [hgot, intResult] at h
    split at h
    · cases h
    · split at h
      · cases h
      · rename_i hroom
        cases h
        have hsize := toInt_sizeofInt_add bs.1.length hroom
        refine .inr ⟨_, _, rfl, by omega, ?_⟩
        rw [hsize, List.length_append, length_intBytes]
        rfl

/-- **What a handler returns is as long as it announces.** -/
theorem exact_of_serve {K : Kernel κ} {w w' : World κ} {req : Request} {r : ReturnType}
    (h : serve K req w = .ok (r, w')) : r.Exact := by
  obtain ⟨op, -, h⟩ := op_of_serve h
  by_cases hb : op.blocked w.srv.resourceList req.garbage = true
  · rw [perform_of_blocked K hb] at h
    obtain ⟨rfl, -⟩ := by simpa using h
    exact ReturnType.exact_int _
  · rw [Bool.not_eq_true] at hb
    cases performed_of_perform hb h with
    | ignored | unmount | noDir => exact .inl rfl
    | mount h => exact exact_of_mountClient h
    | readDir h => exact exact_of_readDirNum h
    | read h => exact exact_of_readFd h
    | write h =>
      rw [writeFd] at h
      split at h
      · cases h
      · cases h
        exact ReturnType.exact_int _
    | open_ | openDir | close | closeDir | remove => exact ReturnType.exact_int _

end RemoteFs
