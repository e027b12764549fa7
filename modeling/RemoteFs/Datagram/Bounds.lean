import RemoteFs.Datagram.Transparency

/-!
# The ends of the buffers

Neither stub compares an index with `BUF_SIZE`, and neither has a way to refuse a call or a result.
So their accesses are to the 4096 bytes of their buffers exactly when things fit (`inBuffers_iff`), and
each of the accesses has a boundary of its own: the terminator of the name needs one byte more than the
name on the wire, and a result stands behind sixteen bytes of `return_type`.

When there is no procedure the reply is empty.  The client then takes the size out of what its own
buffer held before, and stays inside the buffer if that happens to be a size that fits.
-/

set_option autoImplicit false

namespace RemoteFs.Datagram

open OnBlock

/-! ## Without a procedure -/

theorem puts_putReply_none (m : ServerMem) : Puts (putReply m none) 0 (ReturnType.null.mem m) 16 := by
  have h := puts_copyIn_self 0 (ReturnType.null.mem m)
  rwa [ReturnType.length_mem] at h

/-- **The reply is empty**: it begins with the NULs of a `NULL` pointer. -/
theorem reply_none (m : ServerMem) : reply m none = .ok [] := by
  obtain ⟨t, hput, ⟨rest, hrest⟩, -⟩ := (puts_putReply_none m).exec_eq_ok (b := m.t.1)
    (by rw [m.t.2]; decide)
  have hupTo : (CString.upTo t).strlen = 0 := by
    rw [← hrest]
    rfl
  rw [reply, hput, ok_bind, hupTo]
  rfl

/-- The size the client takes out of a buffer. -/
def sizeIn (b : Bytes) : Except Fault Int32 := intAt ((b.take 16).drop 8)

theorem exists_sizeIn_eq (b : Buf) : ∃ size, sizeIn b.1 = .ok size := by
  refine intAt_isOk ?_
  rw [List.length_drop, List.length_take, b.2]
  decide

/-- The client stays inside a buffer when the size in it fits, whatever else is in it. -/
theorem stays_takeResult (b : Buf) {size : Int32} (h : sizeIn b.1 = .ok size) :
    (takeResult b.1).Stays bufSize ↔ 0 ≤ size.toInt ∧ 16 + size.toInt ≤ bufSize := by
  have hhdr : Access.Inside b.1.length ⟨0, 16⟩ := by
    rw [b.2]
    decide
  have hret : (OnBlock.read Fault.overread 0 16 b.1).result = _ := result_read hhdr
  constructor
  · intro hstays
    have hrest := (stays_bind.mp hstays).2 _ hret
    have hval := (stays_bind.mp ((stays_bind.mp hrest).2 size h)).1
    exact stays_read.mp hval
  · intro hfits
    refine stays_bind.mpr ⟨stays_read.mpr (by decide), fun hdr hhdr' ↦ ?_⟩
    rw [hret, Except.ok.injEq] at hhdr'
    rw [← hhdr']
    refine stays_bind.mpr ⟨stays_lift _ _ _, fun size' hsize' ↦ ?_⟩
    have heq : size = size' := Except.ok.inj (h.symm.trans hsize')
    rw [← heq]
    exact stays_bind.mpr ⟨stays_read.mpr hfits, fun _ _ ↦ stays_lift _ _ _⟩

/-! ## The three buffers -/

/-- All accesses of a call are to the 4096 bytes of a buffer: those of the client to its request, those
of the server to its reply, and those of the client to the reply it gets.  The server has a result to
send, or it has no procedure of that name. -/
def InBuffers (c : ClientMem) (m : ServerMem) (x : Call) (ret : Option ReturnType) : Prop :=
  (putCall x.procedureName x.nparams (x.params.map Subtype.val) c.buf.1).Stays bufSize ∧
  (putReply m ret m.t.1).Stays bufSize ∧
  ∀ d, reply m ret = .ok d → (takeResult (recvfrom c.read d).1).Stays bufSize

theorem stays_putCall_iff (c : ClientMem) (x : Call) :
    (putCall x.procedureName x.nparams (x.params.map Subtype.val) c.buf.1).Stays bufSize ↔
      x.Fits := by
  have h := (puts_putCall x).stays_iff (b := c.buf.1)
  rw [c.buf.2] at h
  rw [h, Call.Fits]
  omega

theorem stays_putReply_iff (m : ServerMem) {ret : ReturnType} (h : ret.Holds) :
    (putReply m (some ret) m.t.1).Stays bufSize ↔ 16 + ret.returnSize.toInt ≤ bufSize := by
  have hpos := h.1
  have hstays := (puts_putReply m h).stays_iff (b := m.t.1)
  rw [m.t.2] at hstays
  rw [hstays]
  omega

/-- **When a call stays inside the buffers.**  For a call with sizes that are not negative, and a result
with a size that is not negative: exactly when the call fits, terminator included, when the result fits
behind `return_type`, and, without a procedure, when the client's buffer happens to hold a size that
fits.  What does not fit is not refused, it is written. -/
theorem inBuffers_iff (c : ClientMem) (m : ServerMem) (x : Call) {ret : Option ReturnType}
    (hret : ∀ r ∈ ret, r.Holds) :
    InBuffers c m x ret ↔ x.Fits ∧ (∀ r ∈ ret, 16 + r.returnSize.toInt ≤ bufSize) ∧
      (ret = none → ∀ size, sizeIn c.read.1 = .ok size →
        0 ≤ size.toInt ∧ 16 + size.toInt ≤ bufSize) := by
  rw [InBuffers, stays_putCall_iff]
  refine and_congr_right fun _ ↦ ?_
  match ret, hret with
  | none, _ =>
    have hput : (putReply m none m.t.1).Stays bufSize := by
      have h := (puts_putReply_none m).stays_iff (b := m.t.1)
      rw [m.t.2] at h
      exact h.mpr (by decide)
    constructor
    · rintro ⟨-, hread⟩
      refine ⟨fun r hr ↦ absurd hr (by simp), fun _ size hsize ↦ ?_⟩
      exact (stays_takeResult c.read hsize).mp (hread [] (reply_none m))
    · rintro ⟨-, hread⟩
      refine ⟨hput, fun d hd ↦ ?_⟩
      obtain ⟨size, hsize⟩ := exists_sizeIn_eq c.read
      rw [reply_none, Except.ok.injEq] at hd
      rw [← hd]
      exact (stays_takeResult c.read hsize).mpr (hread rfl size hsize)
  | some ret, hret =>
    have hholds := hret ret rfl
    rw [stays_putReply_iff m hholds]
    constructor
    · rintro ⟨hfits, -⟩
      refine ⟨fun r hr ↦ ?_, fun h ↦ absurd h (by simp)⟩
      rwa [← Option.some.inj hr]
    · rintro ⟨hfits, -⟩
      refine ⟨hfits ret rfl, fun d hd ↦ ?_⟩
      obtain ⟨d', hd', hpre, hlen⟩ := exists_reply_eq m ⟨hholds, hfits ret rfl⟩
      rw [hd', Except.ok.injEq] at hd
      rw [← hd, recvfrom_of_eq c.read hlen, (takeResult_of_front m hholds hpre).2]
      have hval := hholds.length_val
      have hle := hfits ret rfl
      omega

/-- The largest result there is room for. -/
theorem inBuffers_of_largest :
    InBuffers someClientMem someServerMem echoCall (some ⟨some (List.replicate 4080 7), 4080⟩) := by
  have hholds : ReturnType.Holds ⟨some (List.replicate 4080 7), 4080⟩ := by
    refine ⟨by decide, ?_⟩
    show _ ≤ ((List.replicate 4080 (7 : UInt8)).length : ℤ)
    rw [List.length_replicate]
    decide
  refine (inBuffers_iff _ _ _ fun r hr ↦ ?_).mpr ⟨⟨by decide, by decide⟩, fun r hr ↦ ?_, fun h ↦ ?_⟩
  · rwa [← Option.some.inj hr]
  · rw [← Option.some.inj hr]
    decide
  · exact absurd h (Option.some_ne_none _)

/-- A name of 4084 characters: on the wire the call is 4096 bytes long, and `strcpy` puts the terminator
behind the buffer. -/
theorem outside_buffers :
    ¬ ∀ (c : ClientMem) (m : ServerMem) (x : Call) (ret : Option ReturnType),
      (∀ r ∈ ret, r.Holds) → InBuffers c m x ret := by
  intro h
  obtain ⟨name, hname⟩ := CString.exists_strlen 4084
  have hstays := (h someClientMem someServerMem ⟨name, 0, [], rfl⟩ none (by simp)).1
  have hfits := ((stays_putCall_iff _ _).mp hstays).1
  simp only [hname] at hfits
  exact absurd hfits (by decide)

end RemoteFs.Datagram
