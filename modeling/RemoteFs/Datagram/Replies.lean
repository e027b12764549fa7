import RemoteFs.Datagram.Signature

/-!
# What a reply carries

A result is sent as the whole reply buffer: `return_type` as it lies in memory, the bytes behind it, and
then whatever the buffer held before.  `return_type` begins with an address of the server and ends with
padding.  So a reply is more than the result (`reply_eq_ok_iff`), and two runs of the server with the same
result answer the same only if the memory they answer from is the same in all those places
(`reply_same_iff`).

* `earlier_reply_sent`: a client that asks for nothing gets the byte that another client got before.
-/

set_option autoImplicit false

namespace RemoteFs.Datagram

variable {σ : Type}

/-! ## `return_type` in memory -/

/-- The bytes of `return_val`. -/
def ReturnType.pointer (m : ServerMem) (ret : ReturnType) : Bytes :=
  if ret.returnVal.isSome then m.address.1 else leBytes 8 0

theorem ReturnType.length_pointer (m : ServerMem) (ret : ReturnType) :
    (ret.pointer m).length = 8 := by
  rw [pointer]
  split
  · exact m.address.2
  · exact length_leBytes 8 0

theorem ReturnType.mem_eq (m : ServerMem) (ret : ReturnType) :
    ret.mem m = ret.pointer m ++ (intBytes ret.returnSize ++ m.padding.1) :=
  List.append_assoc ..

/-! ## Two runs -/

section
variable {srv srv' : Server σ} {m m' : ServerMem} {d t t' : Bytes} {ret ret' : ReturnType}

/-- The datagram is a request to a registered procedure, which returns `ret`. -/
def Server.Returns (srv : Server σ) (d : Bytes) (ret : ReturnType) : Prop :=
  ∃ r n s', (srv.decoded d).result = .ok r ∧ called srv.functionList r = some n ∧
    n.fp r.nparams r.args srv.state = .ok (ret, s')

/-- The datagram that is sent back. -/
def Server.Sends (srv : Server σ) (m : ServerMem) (d t : Bytes) : Prop :=
  ∃ r srv', srv.step m d = .ok (some (r, t), srv')

theorem reply_of_sends (hret : srv.Returns d ret) (hsends : srv.Sends m d t) :
    reply m (some ret) = .ok t := by
  obtain ⟨r, n, s', hr, hn, hrun⟩ := hret
  obtain ⟨r', srv', hstep⟩ := hsends
  have hd : d ≠ [] := by
    rintro rfl
    cases hstep
  rw [step_of_called hd hr hn, Server.afterCall, hrun, ok_bind] at hstep
  obtain ⟨t', ht, hstep⟩ := bind_eq_ok.mp hstep
  cases hstep
  exact ht

/-- **When two replies with the same result are the same.**  Two servers, whatever they have gone through
and whatever their memory holds, are sent a request; the procedure returns the same size and the same
bytes in both, and a datagram is sent back.  It is the same datagram exactly if the address of the bytes,
the padding of `return_type` and what the reply buffer held behind the result are the same. -/
theorem reply_same_iff (hret : srv.Returns d ret) (hret' : srv'.Returns d ret')
    (hsize : ret.returnSize = ret'.returnSize) (hval : ret.val = ret'.val)
    (hsends : srv.Sends m d t) (hsends' : srv'.Sends m' d t') :
    t = t' ↔ ret.pointer m = ret'.pointer m' ∧ m.padding = m'.padding ∧
      m.t.1.drop (16 + ret.val.length) = m'.t.1.drop (16 + ret.val.length) := by
  obtain ⟨-, ht⟩ := reply_eq_ok_iff.mp (reply_of_sends hret hsends)
  obtain ⟨-, ht'⟩ := reply_eq_ok_iff.mp (reply_of_sends hret' hsends')
  rw [← ht, ← ht', ret.mem_eq, ret'.mem_eq, ← hsize, ← hval]
  constructor
  · intro heq
    obtain ⟨hmem, hrest⟩ := List.append_inj heq (by
      simp only [List.length_append, ReturnType.length_pointer, m.padding.2, m'.padding.2])
    obtain ⟨hpointer, hsizes⟩ := List.append_inj hmem (by
      rw [ReturnType.length_pointer, ReturnType.length_pointer])
    exact ⟨hpointer, Subtype.ext (List.append_cancel_left hsizes), List.append_cancel_left hrest⟩
  · rintro ⟨hpointer, hpadding, hrest⟩
    rw [hpointer, hpadding, hrest]

end

/-! ## Runs -/

/-- A result that fits is sent. -/
theorem sends_of_fits {srv : Server σ} {d : Bytes} {ret : ReturnType} (hd : d ≠ [])
    (hret : srv.Returns d ret) (hfits : ret.Fits) (m : ServerMem) :
    srv.Sends m d (ret.mem m ++ (ret.val ++ m.t.1.drop (16 + ret.val.length))) := by
  obtain ⟨r, n, s', hr, hn, hrun⟩ := hret
  refine ⟨r, { srv with buf := recvfrom srv.buf d, args := .null, state := s' }, ?_⟩
  rw [step_of_called hd hr hn, Server.afterCall, hrun, ok_bind]
  show reply m (some ret) >>= _ = _
  rw [reply_eq_ok_iff.mpr ⟨hfits, rfl⟩, ok_bind]
  rfl

/-- `echo` returns its argument, and nothing when there is none. -/
theorem returns_of_echo {s : ℕ} {srv : Server ℕ} (h : Launched (registerAll echoRegistrations) s srv) :
    srv.Returns echoRequest.encode ⟨some [5], 1⟩ ∧ srv.Returns emptyCall.request.encode .null := by
  have hcalled (r : Request) (hr : r.funcName = (CString.lit "echo").chars) :
      called srv.functionList r = some ⟨.lit "echo", 1, echoLast⟩ := by
    rw [called, hr, h.functionList_eq]
    rfl
  constructor
  · exact ⟨echoRequest, _, srv.state + 1, h.decoded_encode ⟨rfl, by decide⟩ (by decide),
      hcalled _ rfl, rfl⟩
  · exact ⟨emptyCall.request, _, srv.state + 1, h.decoded_encode ⟨rfl, by decide⟩ (by decide),
      hcalled _ rfl, rfl⟩

/-- Two servers that have come different ways answer the same from the same memory. -/
theorem reply_same_of_echo :
    ∃ t t', echoServer.Sends someServerMem echoRequest.encode t ∧
      Server.Sends ⟨registerAll echoRegistrations, .fill 0, .null, 8⟩ someServerMem echoRequest.encode t' ∧
      t = t' := by
  have hret := (returns_of_echo launched_echoServer).1
  have hret' := (returns_of_echo (.start (.fill 0) : Launched _ 8 _)).1
  have hfits : ReturnType.Fits ⟨some [5], 1⟩ := ⟨⟨by decide, by decide⟩, by decide⟩
  have hsends := sends_of_fits (by decide) hret hfits someServerMem
  have hsends' := sends_of_fits (by decide) hret' hfits someServerMem
  exact ⟨_, _, hsends, hsends',
    (reply_same_iff hret hret' rfl rfl hsends hsends').mpr ⟨rfl, rfl, rfl⟩⟩

/-- **A client gets what another has got before.**  One sends the byte `5` and gets it back.  The next
sends nothing, and is answered from the same buffer: behind its result of no bytes there is the `5`.  Had it
been the first, there would be what the buffer held then. -/
theorem earlier_reply_sent :
    ∃ (m : ServerMem) (r : Request) (srv : Server ℕ) (t t' : Bytes),
      echoServer.step someServerMem echoRequest.encode = .ok (some (r, m.t.1), srv) ∧
      srv.Returns emptyCall.request.encode .null ∧ echoServer.Returns emptyCall.request.encode .null ∧
      srv.Sends m emptyCall.request.encode t ∧
      echoServer.Sends someServerMem emptyCall.request.encode t' ∧
      t[16]? = some 5 ∧ t'[16]? = some 3 := by
  have hfits : ReturnType.Fits ⟨some [5], 1⟩ := ⟨⟨by decide, by decide⟩, by decide⟩
  have hnull : ReturnType.Fits .null := ⟨⟨by decide, by decide⟩, by decide⟩
  obtain ⟨hecho, hempty⟩ := returns_of_echo launched_echoServer
  obtain ⟨r, srv, hstep⟩ := sends_of_fits (by decide) hecho hfits someServerMem
  have hempty' := (returns_of_echo (launched_echoServer.step hstep)).2
  have hlen : (ReturnType.mem someServerMem ⟨some [5], 1⟩
      ++ ([5] ++ (Buf.fill 3).1.drop (16 + 1))).length = bufSize := by
    rw [List.length_append, List.length_append, List.length_drop, (Buf.fill 3).2]
    rfl
  refine ⟨{ someServerMem with t := ⟨_, hlen⟩ }, r, srv, _, _, hstep, hempty', hempty,
    sends_of_fits (by decide) hempty' hnull _, sends_of_fits (by decide) hempty hnull _, ?_, ?_⟩
  · rw [List.getElem?_append_right (ReturnType.length_mem _ _).le, ReturnType.length_mem]
    rfl
  · rw [List.getElem?_append_right (ReturnType.length_mem _ _).le, ReturnType.length_mem]
    rfl

end RemoteFs.Datagram
