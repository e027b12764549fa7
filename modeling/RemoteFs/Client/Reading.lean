import RemoteFs.Client.Errors
import RemoteFs.Client.RoundTrip
import RemoteFs.Server.Totality

/-!
# Reading, from the kernel to the caller's buffer

`fsRead` of the server announces `sizeof(int) + r` bytes, allocates as many, and copies four bytes
and then `r` into them, where `r` is what `read` returned; `fsRead` of the client takes the four
bytes apart from the others again.  The value `-1` goes the same way as a number of bytes.

* `failed_read_overflows`: there it does not fit.  The reply has three bytes then, and its first
  four are written.
* `read_end_to_end`: everything goes well if and only if `read` succeeds, and the buffer has room
  for what it returns and can be sent to the server.
-/

set_option autoImplicit false

namespace RemoteFs

variable {κ : Type}

/-- The bytes a `read` returns. -/
def readData {n : ℕ} (got : Except Errno { bs : Bytes // bs.length ≤ n }) : Bytes :=
  match got with
  | .ok bs => bs.1
  | .error _ => []

/-- What a `read` in the world `w₁` should lead to, on the server that makes it and in the client
that asked for it in `w`. -/
structure ReadsThrough (K : Kernel κ) (cl : Client) (fd : Int32) (buf : Bytes) (count : UInt32)
    (a : Attempt) (w w₁ : World κ) : Prop where
  /-- The handler stays within its buffers, and its reply is an `int` and the bytes. -/
  handler : ∃ reply w₂, readFd K fd count.toInt32 w₁ = .ok (reply, w₂) ∧
    reply.returnSize.toInt = 4 + (readData (K.read w₁.kern fd (sizeT count.toInt32)).1).length
  /-- The client gets the bytes, or the error. -/
  client : ∃ out buf', cl.fsRead K fd buf count a w = .ok (out, buf') ∧
    match (K.read w₁.kern fd (sizeT count.toInt32)).1 with
    | .ok bs => out.value.toInt = bs.1.length ∧ out.client = cl ∧
        buf' = bs.1 ++ buf.drop bs.1.length
    | .error e => out.value = -1 ∧ out.client.errno = e.1 ∧ buf' = buf

/-- The condition: the call of the kernel succeeds, and the caller's buffer, which is sent along as
a string, can be sent and holds what comes back. -/
def ReadFits (K : Kernel κ) (fd : Int32) (buf : Bytes) (count : UInt32) (w₁ : World κ) : Prop :=
  (∃ bs, (K.read w₁.kern fd (sizeT count.toInt32)).1 = .ok bs ∧ bs.1.length ≤ buf.length) ∧
    (0 : UInt8) ∈ buf ∧ (CString.upTo buf).Sendable

section
variable {K : Kernel κ} {cl : Client} {fd : Int32} {buf : Bytes} {count : UInt32} {a : Attempt}
  {w w₁ : World κ}

theorem sendable_iff (s : CString) : s.Sendable ↔ 0 < Int32.ofNat (s.strlen + 1) := by
  rw [CString.Sendable, ← toInt_ofNat_pos_iff, Int32.lt_iff_toInt_lt, Int32.toInt_zero]

/-- A call that comes back has sent its buffer. -/
theorem sendable_of_fsRead {x : Outcome κ × Bytes} (hothers : serveAll K a.others w = .ok w₁)
    (h : cl.fsRead K fd buf count a w = .ok x) :
    (0 : UInt8) ∈ buf ∧ (CString.upTo buf).Sendable := by
  cases hs : CString.at? buf with
  | none =>
    simp only [Client.fsRead, hs] at h
    cases h
  | some s =>
    refine ⟨CString.at?_isSome_iff.mp ⟨s, hs⟩, ?_⟩
    rw [CString.upTo_of_at? hs, sendable_iff]
    by_contra hlen
    rw [fsRead_exit hothers hs hlen] at h
    cases h

/-- What a `read` that succeeds comes to. -/
theorem readFd_of_ok (hcount : count.toNat ≤ 0x7ffff000)
    {bs : { bs : Bytes // bs.length ≤ sizeT count.toInt32 }}
    (hbs : (K.read w₁.kern fd (sizeT count.toInt32)).1 = .ok bs) :
    bs.1.length + 4 < 2 ^ 31 ∧ ∃ w₂, readFd K fd count.toInt32 w₁
      = .ok (⟨some (intBytes (Int32.ofNat bs.1.length) ++ bs.1),
          Int32.ofNat (bs.1.length + 4), 0⟩, w₂) := by
  have hint : count.toInt32 = Int32.ofNat count.toNat := toInt32_eq_ofNat count
  have hsize : sizeT count.toInt32 = count.toNat := by
    rw [hint]
    exact sizeT_ofNat (by omega)
  have hnonneg : ¬ count.toInt32 < 0 := by
    rw [hint]
    exact Int32.not_lt.mpr (ofNat_nonneg (by omega))
  have hle := Nat.le_trans bs.2 (Nat.le_of_eq hsize)
  have hlt : bs.1.length + 4 < 2 ^ 31 := by omega
  obtain ⟨w₂, hperform, -⟩ := perform_read (g := 0) hnonneg hlt (Prod.ext hbs rfl)
  exact ⟨hlt, w₂, hperform⟩

end

/-- **When a read works end to end.**  For every descriptor, every count up to `0x7ffff000`, every
buffer and every outcome of the server's `read`: the handler stays within its buffers, its reply has
the right size, and the client returns what `read` returned, with the bytes at the front of its
buffer or the error number in `errno`, if and only if `read` succeeds with no more bytes than the
buffer has room for, and the buffer can be sent. -/
theorem read_end_to_end (K : Kernel κ) (cl : Client) (fd : Int32) (buf : Bytes) {count : UInt32}
    (hcount : count.toNat ≤ 0x7ffff000) {a : Attempt} {w w₁ : World κ}
    (hothers : serveAll K a.others w = .ok w₁) :
    ReadsThrough K cl fd buf count a w w₁ ↔ ReadFits K fd buf count w₁ := by
  constructor
  · rintro ⟨⟨reply, w₂, hserved, -⟩, out, buf', hcall, -⟩
    obtain ⟨bs, hbs, -, -⟩ := (readFd_isOk_iff K fd count.toInt32 w₁).mp ⟨reply, w₂, hserved⟩
    obtain ⟨hnul, hsend⟩ := sendable_of_fsRead hothers hcall
    refine ⟨⟨bs, hbs, ?_⟩, hnul, hsend⟩
    obtain ⟨s, hs⟩ := CString.at?_isSome_iff.mpr hnul
    obtain ⟨hlt, w₂, hperform⟩ := readFd_of_ok hcount hbs
    rw [CString.upTo_of_at? hs, sendable_iff] at hsend
    rw [fsRead_eq hothers hs hsend (by omega) hperform] at hcall
    by_contra hroom
    rw [if_pos (Nat.lt_of_not_le hroom)] at hcall
    cases hcall
  · rintro ⟨⟨bs, hbs, hroom⟩, hnul, hsend⟩
    obtain ⟨s, hs⟩ := CString.at?_isSome_iff.mpr hnul
    obtain ⟨hlt, w₂, hperform⟩ := readFd_of_ok hcount hbs
    rw [CString.upTo_of_at? hs, sendable_iff] at hsend
    have hcall : cl.fsRead K fd buf count a w = _ := fsRead_eq hothers hs hsend (by omega) hperform
    rw [if_neg (Nat.not_lt.mpr hroom)] at hcall
    refine ⟨⟨_, w₂, hperform, ?_⟩, _, _, hcall, ?_⟩
    · rw [hbs, toInt_ofNat_of_lt hlt]
      show ((bs.1.length + 4 : ℕ) : ℤ) = 4 + bs.1.length
      omega
    · rw [hbs]
      exact ⟨toInt_ofNat_of_lt (by omega), rfl, rfl⟩

/-- A server with a file of three bytes open as descriptor 3. -/
def openedWorld : World FileSystem where
  srv := { mountedDir := .lit "/srv" }
  kern := { content := fun _ ↦ [7, 0, 8], files := [⟨3, .file 0, 0, false⟩] }

/-- Five bytes are asked for, and the three there are come back. -/
theorem read_end_to_end_of_three :
    ReadsThrough (FileSystem.kernel .lowest) mountedClient 3 [1, 2, 0, 4, 5] 5 .quiet openedWorld
      openedWorld := by
  have hsend : (CString.upTo [1, 2, 0, 4, 5]).Sendable := by
    show 0 < 3 % 2 ^ 32 ∧ 3 % 2 ^ 32 < 2 ^ 31
    decide
  refine (read_end_to_end _ _ _ _ (by decide) rfl).mpr ⟨⟨⟨[7, 0, 8], by decide⟩, rfl, ?_⟩, ?_, hsend⟩
  · show [7, 0, 8].length ≤ [1, 2, 0, 4, 5].length
    decide
  · decide

/-- Client 1 reads from a descriptor that is not open: the reply has three bytes, and four are
written. -/
theorem failed_read_overflows :
    (FileSystem.kernel .lowest).read freshWorld.kern 9 1 = (.error EBADF, freshWorld.kern) ∧
      readFd (FileSystem.kernel .lowest) 9 1 freshWorld = .error .overflow ∧
      ¬ ReadsThrough (FileSystem.kernel .lowest) mountedClient 9 [7, 0] 1 .quiet freshWorld
        freshWorld := by
  have hread : readFd (FileSystem.kernel .lowest) 9 1 freshWorld = .error .overflow := rfl
  refine ⟨rfl, hread, ?_⟩
  rintro ⟨⟨reply, w₂, hserved, -⟩, -⟩
  cases hread.symm.trans hserved

end RemoteFs
