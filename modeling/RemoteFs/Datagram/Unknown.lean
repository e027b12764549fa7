import RemoteFs.Datagram.Signature

/-!
# Procedures nobody has registered

When there is no procedure of the name, the server puts a `return_type` with a size of zero into its
reply buffer, and sends as much of it as `strlen` finds: nothing, since it begins with a `NULL`
pointer.  The client does not look at how much it has received.  It takes the size out of its buffer as
always, and that is what happened to be there.

* `old_reply_returned`: a client that finds an old reply in its buffer returns it again.
* `unknown_not_reported`: no call is ever reported by what is sent.  The size the client returns is zero
  if and only if its buffer happened to hold a zero there.
-/

set_option autoImplicit false

namespace RemoteFs.Datagram

open OnBlock

variable {σ : Type}

/-! ## What arrives at the server -/

theorem contained_copyIn (off : ℕ) (src : Bytes) (size : ℤ) : Contained (copyIn off src size) := by
  rw [copyIn]
  split
  · exact Contained.lift _
  · exact Contained.write _ _ _ _

theorem contained_putParams (n i : ℕ) (params : List Param) : Contained (putParams n i params) := by
  induction n generalizing i params with
  | zero => exact Contained.lift _
  | succ n ih =>
    cases params with
    | nil => exact Contained.lift _
    | cons p ps =>
      exact .bind (contained_copyIn _ _ _) fun _ ↦ .bind (contained_copyIn _ _ _) fun _ ↦ ih _ _

theorem contained_putCall (name : CString) (nparams : Int32) (params : List Param) :
    Contained (putCall name nparams params) :=
  .bind (contained_copyIn _ _ _) fun _ ↦ .bind (contained_copyIn _ _ _) fun _ ↦
    .bind (contained_copyIn _ _ _) fun _ ↦ contained_putParams _ _ _

/-- **A call that is sent fits.** -/
theorem fits_of_exec {c : ClientMem} {x : Call} {d : Bytes}
    (h : (putCall x.procedureName x.nparams (x.params.map Subtype.val)).exec c.buf.1 = .ok d) :
    x.Fits := by
  rw [exec] at h
  cases hres : (putCall x.procedureName x.nparams (x.params.map Subtype.val) c.buf.1).result with
  | error f =>
    rw [hres] at h
    cases h
  | ok u =>
    have hstays := (contained_putCall _ _ _ c.buf.1 u hres).1
    rw [c.buf.2] at hstays
    exact (stays_putCall_iff c x).mp hstays

/-- No procedure of the name is among the registered ones. -/
def Unknown (regs : List (Registration σ)) (name : CString) : Prop :=
  ∀ r ∈ regs, r.procedureName ≠ some name

theorem not_called_of_unknown {regs : List (Registration σ)} {r : Request}
    (h : Unknown regs (CString.upTo r.funcName)) : called (registerAll regs) r = none := by
  have hnone : lastUnder regs (CString.upTo r.funcName) = none := by
    rw [lastUnder, List.filter_eq_nil_iff.mpr fun reg hreg ↦ by simpa using h reg hreg]
    rfl
  rw [called, find_eq_lastUnder, hnone]
  rfl

section
variable {regs : List (Registration σ)} {s : σ} {srv : Server σ} {x : Call}

/-- **The answer to an unknown name is empty.** -/
theorem step_of_unknown (h : Launched (registerAll regs) s srv)
    (hname : Unknown regs x.procedureName) {c : ClientMem} (m : ServerMem) {d : Bytes}
    (hd : (putCall x.procedureName x.nparams (x.params.map Subtype.val)).exec c.buf.1 = .ok d) :
    srv.step m d = .ok (some (x.request, []),
      ⟨srv.functionList, recvfrom srv.buf d, .null, srv.state⟩) := by
  obtain ⟨hname', hlen⟩ := fits_of_exec hd
  have hcomplete := Call.Fits.complete ⟨hname', hlen⟩
  obtain ⟨d', hput, hpre, hd'⟩ := (puts_putCall x).exec_eq_ok (b := c.buf.1) (by
    rw [c.buf.2]
    omega)
  rw [hput, Except.ok.injEq] at hd
  rw [hd] at hpre hd'
  rw [c.buf.2] at hd'
  have hpos : 0 < d.length := by
    rw [hd']
    decide
  have hdecoded := h.decoded_of_front ⟨d, hpos, hd'.le⟩ hcomplete hpre
  have hfunc : CString.upTo x.request.funcName = x.procedureName := CString.upTo_chars _
  rw [← hfunc] at hname
  refine step_of_not_called (List.length_pos_iff.mp hpos) hdecoded ?_ m
  rw [h.functionList_eq]
  exact not_called_of_unknown hname

/-- And the client looks at its buffer as it was. -/
theorem makeRemoteCall_of_unknown (h : Launched (registerAll regs) s srv)
    (hname : Unknown regs x.procedureName) {c : ClientMem} (m : ServerMem) {d : Bytes}
    (hd : (putCall x.procedureName x.nparams (x.params.map Subtype.val)).exec c.buf.1 = .ok d) :
    makeRemoteCall c m srv x.procedureName x.nparams (x.params.map Subtype.val)
      = (takeResult c.read.1).result.map fun ret ↦
        (x.request, ret, ⟨srv.functionList, recvfrom srv.buf d, .null, srv.state⟩) := by
  have hempty : (recvfrom c.read []).1 = c.read.1 := rfl
  rw [makeRemoteCall, hd, ok_bind, step_of_unknown h hname m hd, ok_bind]
  show (takeResult (recvfrom c.read []).1).result >>= _ = _
  rw [hempty]
  cases (takeResult c.read.1).result <;> rfl

end

/-! ## What the client makes of it -/

/-- The client returns a result of size zero. -/
def ReturnsZero (c : ClientMem) (m : ServerMem) (srv : Server σ) (x : Call) : Prop :=
  ∃ r ret srv', makeRemoteCall c m srv x.procedureName x.nparams (x.params.map Subtype.val)
    = .ok (r, ret, srv') ∧ ret.returnSize = 0

/-- The datagram the server sends back for a call, if it sends one. -/
def replySent (c : ClientMem) (m : ServerMem) (srv : Server σ) (x : Call) :
    Except Fault (Option Bytes) := do
  let d ← (putCall x.procedureName x.nparams (x.params.map Subtype.val)).exec c.buf.1
  let (o, _) ← srv.step m d
  return o.map Prod.snd

/-- The client finds that out from the reply, and looks at nothing else. -/
def Reported (c : ClientMem) (m : ServerMem) (srv : Server σ) (x : Call) : Prop :=
  ReturnsZero c m srv x ∧ ∃ reply, replySent c m srv x = .ok (some reply) ∧
    (takeResult (recvfrom c.read reply).1).Stays reply.length

/-- The size that is returned is the one in the buffer. -/
theorem sizeIn_of_takeResult {b : Bytes} {ret : ReturnType} (h : (takeResult b).result = .ok ret) :
    sizeIn b = .ok ret.returnSize := by
  obtain ⟨_, ⟨hdr, val, rfl, hlen, hsize, -, -⟩, hpre⟩ :=
    (parses_takeResult b (Nat.zero_le _)).2.1 ret h
  obtain ⟨rest, hrest⟩ := (List.prefix_append hdr val).trans hpre
  rw [List.drop_zero] at hrest
  rw [sizeIn, ← hrest, List.take_left' hlen]
  exact hsize

/-- A size of zero always fits. -/
theorem takeResult_of_zero {b : Buf} (h : sizeIn b.1 = .ok 0) :
    (takeResult b.1).result = .ok ⟨some [], 0⟩ := by
  have hlen : (b.1.take 16).length = 16 := by
    rw [List.length_take, b.2]
    rfl
  refine ((parses_takeResult b.1 (Nat.zero_le _)).2.2 _ (b.1.take 16) ?_ (List.take_prefix _ _)).1
  exact ⟨_, [], (List.append_nil _).symm, hlen, h, rfl, rfl⟩

/-- The client looks at sixteen bytes at least. -/
theorem not_stays_takeResult (b : Bytes) : ¬ (takeResult b).Stays 0 := by
  intro h
  exact absurd (stays_read.mp (stays_bind.mp h).1) (by decide)

/-- **When an unknown procedure is reported.**  Never: for any registered procedures, any name that is
not among them, any call of it and whatever stands in the buffers of both sides, the client does not
learn from what the server has sent that there is no such procedure.  If the call can be sent at all,
then nothing is sent back, and the size that is returned is zero if and only if that is what the
client's buffer holds at the place. -/
theorem unknown_not_reported (regs : List (Registration σ)) (s : σ) {srv : Server σ}
    (h : Launched (registerAll regs) s srv) {x : Call} (hname : Unknown regs x.procedureName)
    (c : ClientMem) (m : ServerMem) :
    ¬ Reported c m srv x ∧
    (x.Fits → replySent c m srv x = .ok (some []) ∧
      (ReturnsZero c m srv x ↔ sizeIn c.read.1 = .ok 0)) := by
  have hreply {d : Bytes}
      (hd : (putCall x.procedureName x.nparams (x.params.map Subtype.val)).exec c.buf.1 = .ok d) :
      replySent c m srv x = .ok (some []) := by
    rw [replySent, hd, ok_bind, step_of_unknown h hname m hd]
    rfl
  constructor
  · rintro ⟨-, reply, hsent, hstays⟩
    obtain ⟨d, hd, -⟩ := bind_eq_ok.mp hsent
    rw [hreply hd, Except.ok.injEq, Option.some_inj] at hsent
    rw [← hsent] at hstays
    exact not_stays_takeResult _ hstays
  · rintro ⟨hterm, hlen⟩
    obtain ⟨d, hd, -, -⟩ := (puts_putCall x).exec_eq_ok (b := c.buf.1) (by rw [c.buf.2]; omega)
    refine ⟨hreply hd, ?_⟩
    rw [ReturnsZero, makeRemoteCall_of_unknown h hname m hd]
    constructor
    · rintro ⟨r, ret, srv', hcall, hzero⟩
      cases hres : (takeResult c.read.1).result with
      | error f =>
        rw [hres] at hcall
        cases hcall
      | ok ret' =>
        rw [hres] at hcall
        cases hcall
        rw [← hzero]
        exact sizeIn_of_takeResult hres
    · intro hzero
      rw [takeResult_of_zero hzero]
      exact ⟨_, _, _, rfl, rfl⟩

/-! ## Runs -/

/-- `make_remote_call(…, "ping", 0)`. -/
def pingCall : Call := { emptyCall with procedureName := .lit "ping" }

theorem unknown_ping : Unknown echoRegistrations pingCall.procedureName := by
  unfold Unknown
  decide

/-- A client whose buffer held zeros gets a zero, and not from the server. -/
theorem unknown_not_reported_of_ping :
    ¬ Reported ⟨.fill 1, .fill 0⟩ someServerMem
      ⟨registerAll echoRegistrations, .fill 9, .null, 5⟩ pingCall ∧
    ReturnsZero ⟨.fill 1, .fill 0⟩ someServerMem
      ⟨registerAll echoRegistrations, .fill 9, .null, 5⟩ pingCall := by
  obtain ⟨hnever, hzero⟩ := unknown_not_reported echoRegistrations 5 (.start (.fill 9)) unknown_ping
    ⟨.fill 1, .fill 0⟩ someServerMem
  exact ⟨hnever, (hzero ⟨by decide, by decide⟩).2.mpr rfl⟩

/-- A result of one byte. -/
def oldResult : ReturnType := ⟨some [7], 1⟩

/-- A client whose buffer still holds the reply to an earlier call. -/
def oldReply : ClientMem :=
  ⟨.fill 1, recvfrom (.fill 0) (oldResult.mem someServerMem ++ oldResult.val)⟩

/-- It returns the earlier result. -/
theorem old_reply_returned :
    Unknown echoRegistrations pingCall.procedureName ∧
    ∃ srv', makeRemoteCall oldReply someServerMem
        ⟨registerAll echoRegistrations, .fill 9, .null, 5⟩ pingCall.procedureName pingCall.nparams []
      = .ok (pingCall.request, ⟨some [7], 1⟩, srv') := by
  refine ⟨unknown_ping, ?_⟩
  obtain ⟨d, hd, -, -⟩ := (puts_putCall pingCall).exec_eq_ok (b := oldReply.buf.1) (by
    rw [oldReply.buf.2]
    decide)
  have hfront : oldResult.mem someServerMem ++ oldResult.val <+: oldReply.read.1 := by
    show _ <+: (recvfrom (.fill 0) _).1
    rw [recvfrom_of_le _ (by decide)]
    exact List.prefix_append _ _
  have hresult : (takeResult oldReply.read.1).result = .ok ⟨some [7], 1⟩ :=
    (takeResult_of_front someServerMem ⟨by decide, by decide⟩ hfront).1
  have hcall := makeRemoteCall_of_unknown (.start (.fill 9)) unknown_ping (s := 5) someServerMem hd
  rw [hresult] at hcall
  exact ⟨_, hcall⟩

end RemoteFs.Datagram
