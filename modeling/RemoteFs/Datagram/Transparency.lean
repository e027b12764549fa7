import Mathlib.Data.List.Induction
import RemoteFs.Datagram.Codec

/-!
# A call over datagrams is a call

As long as nothing is lost, reordered or doubled, and calls and results fit into their buffers,
whatever the buffers held before: the server takes each call as it was meant, its procedures run as if
they had been called where the call was made, and their results come back (`datagram_transparency`).
-/

set_option autoImplicit false

namespace RemoteFs.Datagram

open OnBlock

variable {σ : Type}

/-! ## Buffers -/

theorem recvfrom_of_le (buf : Buf) {d : Bytes} (h : d.length ≤ bufSize) :
    (recvfrom buf d).1 = d ++ buf.1.drop d.length := by
  show d.take bufSize ++ _ = _
  rw [List.take_of_length_le h]

/-- A datagram of the size of the buffer leaves nothing of what was there. -/
theorem recvfrom_of_eq (buf : Buf) {d : Bytes} (h : d.length = bufSize) :
    (recvfrom buf d).1 = d := by
  have hrest : buf.1.drop d.length = [] := List.drop_eq_nil_of_le (by rw [buf.2, h])
  rw [recvfrom_of_le buf h.le, hrest, List.append_nil]

/-! ## Results -/

/-- The bytes behind `return_val`; there are none behind `NULL`. -/
def ReturnType.val (ret : ReturnType) : Bytes :=
  (ret.returnVal.getD []).take ret.returnSize.toInt.toNat

/-- The size is not negative, and the block is not shorter than it. -/
def ReturnType.Holds (ret : ReturnType) : Prop :=
  0 ≤ ret.returnSize.toInt ∧ ret.returnSize.toInt ≤ (ret.returnVal.getD []).length

/-- The result is as long as its size says, and fits into the reply buffer behind `return_type`. -/
def ReturnType.Fits (ret : ReturnType) : Prop := ret.Holds ∧ 16 + ret.returnSize.toInt ≤ bufSize

/-- What the client gets: the size, and that many bytes. -/
def ReturnType.received (ret : ReturnType) : ReturnType := ⟨some ret.val, ret.returnSize⟩

theorem ReturnType.Holds.length_val {ret : ReturnType} (h : ret.Holds) :
    (ret.val.length : ℤ) = ret.returnSize.toInt := by
  obtain ⟨hpos, hle⟩ := h
  rw [val, List.length_take]
  omega

theorem ReturnType.length_mem (m : ServerMem) (ret : ReturnType) : (ret.mem m).length = 16 := by
  rw [mem, List.length_append, List.length_append, length_intBytes, m.padding.2]
  split
  · rw [m.address.2]
  · rw [length_leBytes]

theorem ReturnType.intAt_mem (m : ServerMem) (ret : ReturnType) :
    intAt ((ret.mem m).drop 8) = .ok ret.returnSize := by
  rw [mem, List.append_assoc]
  split
  · rw [List.drop_left' m.address.2, intAt_intBytes_append]
  · rw [List.drop_left' (length_leBytes 8 0), intAt_intBytes_append]

/-- **The server writes results**, behind sixteen bytes of `return_type`. -/
theorem puts_putReply (m : ServerMem) {ret : ReturnType} (h : ret.Holds) :
    Puts (putReply m (some ret)) 0 (ret.mem m ++ ret.val) (16 + ret.returnSize.toInt.toNat) := by
  have hmem := puts_copyIn_self 0 (ret.mem m)
  have hval := (puts_copyIn 16 h.1 h.2).cast (congrArg (0 + ·) (ret.length_mem m).symm)
  rw [ret.length_mem] at hmem
  refine (hmem.bind hval).congr rfl ?_
  omega

/-- **A reply is the buffer.**  There is one if the result fits, and only then, and behind the result stands
what the buffer held. -/
theorem reply_eq_ok_iff {m : ServerMem} {ret : ReturnType} {t : Bytes} :
    reply m (some ret) = .ok t ↔
      ret.Fits ∧ ret.mem m ++ (ret.val ++ m.t.1.drop (16 + ret.val.length)) = t := by
  have hmem : (ret.mem m).take (16 : ℤ).toNat = ret.mem m :=
    List.take_of_length_le (ret.length_mem m).le
  have hfirst : splice m.t.1 0 (ret.mem m) = ret.mem m ++ m.t.1.drop 16 := by
    have h := splice_append [] m.t.1 (ret.mem m)
    rwa [ret.length_mem] at h
  have hsecond : splice (ret.mem m ++ m.t.1.drop 16) 16 ret.val
      = ret.mem m ++ (ret.val ++ m.t.1.drop (16 + ret.val.length)) := by
    have h := splice_append (ret.mem m) (m.t.1.drop 16) ret.val
    rwa [ret.length_mem, List.drop_drop] at h
  have hreply : reply m (some ret) = (copyIn 0 (ret.mem m) 16).exec m.t.1 >>=
      (copyIn 16 (ret.returnVal.getD []) ret.returnSize.toInt).exec := by
    rw [← exec_bind]
    exact bind_pure _
  have hlen : (ret.mem m ++ m.t.1.drop 16).length = bufSize := by
    rw [List.length_append, ret.length_mem, List.length_drop, m.t.2]
    rfl
  rw [hreply, bind_eq_ok]
  constructor
  · rintro ⟨b, hb, ht⟩
    obtain ⟨-, -, rfl⟩ := copyIn_exec_eq_ok.mp hb
    rw [hmem, hfirst] at ht
    obtain ⟨hholds, hroom, rfl⟩ := copyIn_exec_eq_ok.mp ht
    rw [hlen] at hroom
    exact ⟨⟨hholds, hroom⟩, hsecond.symm⟩
  · rintro ⟨⟨hholds, hfits⟩, rfl⟩
    refine ⟨_, copyIn_exec_eq_ok.mpr ⟨⟨by decide, ?_⟩, ?_, rfl⟩, copyIn_exec_eq_ok.mpr ⟨hholds, ?_, ?_⟩⟩
    · rw [ret.length_mem]
      decide
    · rw [m.t.2]
      decide
    · rw [hmem, hfirst, hlen]
      exact hfits
    · rw [hmem, hfirst]
      exact hsecond

/-- A result that fits is in the datagram sent back, which is as long as the buffer. -/
theorem exists_reply_eq (m : ServerMem) {ret : ReturnType} (h : ret.Fits) :
    ∃ d, reply m (some ret) = .ok d ∧ ret.mem m ++ ret.val <+: d ∧ d.length = bufSize := by
  refine ⟨_, reply_eq_ok_iff.mpr ⟨h, rfl⟩, ?_, ?_⟩
  · rw [← List.append_assoc]
    exact List.prefix_append _ _
  · have hval := h.1.length_val
    have hfits := h.2
    simp only [List.length_append, List.length_drop, ret.length_mem, m.t.2]
    omega

/-- **The client reads results.** -/
theorem parses_takeResult : Parses takeResult 0 fun r bs ↦ ∃ hdr val, bs = hdr ++ val ∧
    hdr.length = 16 ∧ intAt (hdr.drop 8) = .ok r.returnSize ∧
    (val.length : ℤ) = r.returnSize.toInt ∧ r.returnVal = some val := by
  have hval (size : Int32) : Parses (OnBlock.read Fault.overread 16 size.toInt >>= fun val ↦
        pure (⟨some val.1, size⟩ : ReturnType)) 16 fun r bs ↦ r.returnSize = size ∧
          (bs.length : ℤ) = r.returnSize.toInt ∧ r.returnVal = some bs := by
    refine ((Parses.read _ 16 size.toInt).bind fun val ys _ ↦
      Parses.pure (⟨some val.1, size⟩ : ReturnType) _).congr fun r bs ↦ ⟨?_, ?_⟩
    · rintro ⟨val, _, _, rfl, rfl, rfl, rfl⟩
      rw [List.append_nil]
      exact ⟨rfl, val.2, rfl⟩
    · obtain ⟨_, size'⟩ := r
      rintro ⟨rfl, hlen, rfl⟩
      exact ⟨⟨bs, hlen⟩, _, _, (List.append_nil _).symm, rfl, rfl, rfl⟩
  have hsize (hdr : Bytes) : Parses (OnBlock.lift (intAt (hdr.drop 8)) >>= fun size ↦
        OnBlock.read Fault.overread 16 size.toInt >>= fun val ↦
          pure (⟨some val.1, size⟩ : ReturnType)) 16 fun r bs ↦
        intAt (hdr.drop 8) = .ok r.returnSize ∧ (bs.length : ℤ) = r.returnSize.toInt ∧
          r.returnVal = some bs := by
    refine ((Parses.lift (intAt (hdr.drop 8)) 16).bind fun size ys hys ↦
      (hval size).cast (by rw [hys.2]; rfl)).congr fun r bs ↦ ⟨?_, ?_⟩
    · rintro ⟨_, _, _, rfl, ⟨hint, rfl⟩, rfl, hlen, hr⟩
      exact ⟨hint, hlen, hr⟩
    · rintro ⟨hint, hlen, hr⟩
      exact ⟨_, _, _, (List.nil_append _).symm, ⟨hint, rfl⟩, rfl, hlen, hr⟩
  refine ((Parses.read _ 0 16).bind fun hdr ys hys ↦
    (hsize hdr.1).cast ?_).congr fun r bs ↦ ⟨?_, ?_⟩
  · rw [hys, Nat.zero_add]
    exact (Int.ofNat.inj hdr.2).symm
  · rintro ⟨hdr, _, val, rfl, rfl, hint, hlen, hr⟩
    exact ⟨hdr.1, val, rfl, Int.ofNat.inj hdr.2, hint, hlen, hr⟩
  · rintro ⟨hdr, val, rfl, hhdr, hint, hlen, hr⟩
    exact ⟨⟨hdr, congrArg Int.ofNat hhdr⟩, hdr, val, rfl, rfl, hint, hlen, hr⟩

/-- The client finds the result at the front of the reply, and looks no further. -/
theorem takeResult_of_front (m : ServerMem) {ret : ReturnType} (h : ret.Holds) {b : Bytes}
    (hb : ret.mem m ++ ret.val <+: b) : (takeResult b).result = .ok ret.received ∧
      ∀ n, (takeResult b).Stays n ↔ 16 + ret.val.length ≤ n := by
  obtain ⟨hres, hstays⟩ := (parses_takeResult b (Nat.zero_le _)).2.2 ret.received _
    ⟨_, _, rfl, ret.length_mem m, ret.intAt_mem m, h.length_val, rfl⟩ hb
  refine ⟨hres, fun n ↦ ?_⟩
  rw [hstays n (Nat.zero_le n), List.length_append, ret.length_mem, Nat.zero_add]

/-! ## Registration -/

/-- The arguments of a call of `register_procedure`. -/
structure Registration (σ : Type) where
  procedureName : Option CString
  nparams : Int32
  fnpointer : FpType σ

/-- The registered procedures after a number of calls of `register_procedure`. -/
def registerAll (regs : List (Registration σ)) : List (Node σ) :=
  regs.foldl (fun l r ↦ (registerProcedure l r.procedureName r.nparams r.fnpointer).2) []

/-- The procedure registered last under a name. -/
def mostRecent (regs : List (Registration σ)) (name : CString) : Option (FpType σ) :=
  (regs.filter fun r ↦ r.procedureName = some name).getLast?.map Registration.fnpointer

/-- The last registration under a name. -/
def lastUnder (regs : List (Registration σ)) (name : CString) : Option (Registration σ) :=
  (regs.filter fun r ↦ r.procedureName = some name).getLast?

/-- **The first match in the list is the last registration.** -/
theorem find_eq_lastUnder (regs : List (Registration σ)) (name : CString) :
    find (registerAll regs) name
      = (lastUnder regs name).map fun r ↦ ⟨name, r.nparams, r.fnpointer⟩ := by
  induction regs using List.reverseRecOn with
  | nil => rfl
  | append_singleton regs r ih =>
    rw [lastUnder] at ih ⊢
    rw [registerAll, List.foldl_append, List.foldl_cons, List.foldl_nil, ← registerAll,
      List.filter_append]
    obtain ⟨_ | rname, n, fp⟩ := r
    · simpa [registerProcedure] using ih
    · by_cases hmatch : name = rname
      · subst hmatch
        simp [registerProcedure, find]
      · have hmatch' : ¬ rname = name := fun h ↦ hmatch h.symm
        simpa [registerProcedure, find, hmatch, hmatch'] using ih

theorem find_registerAll (regs : List (Registration σ)) (name : CString) :
    (find (registerAll regs) name).map Node.fp = mostRecent regs name := by
  rw [find_eq_lastUnder, Option.map_map]
  rfl

/-! ## One call -/

/-- The call fits into the request buffer, and its name with the terminator does. -/
def Call.Fits (c : Call) : Prop :=
  12 + c.procedureName.strlen < bufSize ∧ c.encodedLength ≤ bufSize

/-- A call that fits is on the wire what the caller asked for. -/
theorem Call.Fits.complete {c : Call} (h : c.Fits) : c.request.Complete := by
  obtain ⟨hname, -⟩ := h
  rw [bufSize] at hname
  refine ⟨?_, ?_⟩
  · rw [request, List.length_map, c.count]
  · show c.procedureName.strlen < _
    omega

/-- The list is empty between two datagrams: whatever came, it is emptied at the end. -/
theorem args_step {m : ServerMem} {d : Bytes} {srv srv' : Server σ} {o : Option (Request × Bytes)}
    (h : srv.step m d = .ok (o, srv')) (hargs : srv.args = .null) : srv'.args = .null := by
  cases d with
  | nil =>
    cases h
    exact hargs
  | cons b d =>
    obtain ⟨r, -, h⟩ := bind_eq_ok.mp h
    obtain ⟨⟨reply, s'⟩, -, h⟩ := bind_eq_ok.mp h
    cases h
    rfl

/-- What the server does with a datagram that begins with a request. -/
theorem step_eq {m : ServerMem} {d reply : Bytes} {srv : Server σ} {r : Request} {s' : σ}
    (hd : d.length = bufSize) (hr : r.Complete) (hpre : r.encode <+: d) (hargs : srv.args = .null)
    (hanswer : answer srv.functionList m r srv.state = .ok (reply, s')) :
    srv.step m d = .ok (some (r, reply), ⟨srv.functionList, recvfrom srv.buf d, .null, s'⟩) := by
  have hdecode : (decode srv.args (recvfrom srv.buf d).1).result = .ok r := by
    rw [hargs, recvfrom_of_eq srv.buf hd]
    exact ((parses_decode d (Nat.zero_le _)).2.2 r _ ⟨hr, rfl⟩ hpre).1
  cases d with
  | nil => exact absurd hd (by decide)
  | cons b d =>
    simp only [Server.step, hdecode, ok_bind, hanswer]
    rfl

/-- **One call**, when its procedure comes back with a result that fits. -/
theorem makeRemoteCall_eq {x : Call} {c : ClientMem} {m : ServerMem} {srv : Server σ} {n : Node σ}
    {ret : ReturnType} {s' : σ} (hfits : x.Fits) (hargs : srv.args = .null)
    (hfind : find srv.functionList x.procedureName = some n)
    (hrun : n.fp x.nparams x.request.args srv.state = .ok (ret, s')) (hret : ret.Fits) :
    ∃ buf, makeRemoteCall c m srv x.procedureName x.nparams (x.params.map Subtype.val)
      = .ok (x.request, ret.received, ⟨srv.functionList, buf, .null, s'⟩) := by
  obtain ⟨hname, hlen⟩ := hfits
  obtain ⟨d, hput, hpre, hd⟩ := (puts_putCall x).exec_eq_ok (b := c.buf.1) (by rw [c.buf.2]; omega)
  obtain ⟨t, hreply, hpre', ht⟩ := exists_reply_eq m hret
  rw [c.buf.2] at hd
  have hanswer : answer srv.functionList m x.request srv.state = .ok (t, s') := by
    have hfunc : CString.upTo x.request.funcName = x.procedureName := CString.upTo_chars _
    rw [answer, hfunc, hfind]
    show n.fp x.nparams x.request.args srv.state >>= _ = _
    rw [hrun, ok_bind]
    show reply m (some ret) >>= _ = _
    rw [hreply, ok_bind]
    rfl
  have hstep := step_eq hd (Call.Fits.complete ⟨hname, hlen⟩) hpre hargs hanswer
  refine ⟨recvfrom srv.buf d, ?_⟩
  rw [makeRemoteCall, hput, ok_bind, hstep, ok_bind]
  show (takeResult (recvfrom c.read t).1).result >>= _ = _
  rw [recvfrom_of_eq c.read ht, (takeResult_of_front m hret.1 hpre').1, ok_bind]
  rfl

/-! ## The theorem -/

/-- A call, and what stands in the buffers it meets. -/
structure Round where
  call : Call
  client : ClientMem
  server : ServerMem

/-- Calls one after the other: what the server made of each, what the client returned, and the server
in the end. -/
def remoteRun : List Round → Server σ → Except Fault (List (Request × ReturnType) × Server σ)
  | [], srv => .ok ([], srv)
  | x :: xs, srv => do
    let (r, ret, srv') ← makeRemoteCall x.client x.server srv x.call.procedureName x.call.nparams
      (x.call.params.map Subtype.val)
    let (rest, srv'') ← remoteRun xs srv'
    pure ((r, ret) :: rest, srv'')

/-- The calls as they would be without a wire: `fps` are the procedures, and each runs on the arguments
of the caller. -/
inductive LocalRun (fps : CString → Option (FpType σ)) :
    List Call → σ → List ReturnType → σ → Prop where
  | nil (s : σ) : LocalRun fps [] s [] s
  | cons {c : Call} {cs : List Call} {fp : FpType σ} {s s' s'' : σ} {ret : ReturnType}
      {rets : List ReturnType} (find : fps c.procedureName = some fp)
      (run : fp c.nparams c.request.args s = .ok (ret, s')) (rest : LocalRun fps cs s' rets s'') :
      LocalRun fps (c :: cs) s (ret :: rets) s''

theorem remoteRun_eq {functionList : List (Node σ)} {rets : List ReturnType} {s s' : σ}
    {rounds : List Round}
    (hlocal : LocalRun (fun name ↦ (find functionList name).map Node.fp)
      (rounds.map Round.call) s rets s')
    (hfits : ∀ x ∈ rounds, x.call.Fits) (hrets : ∀ ret ∈ rets, ret.Fits) (buf : Buf) :
    ∃ buf', remoteRun rounds ⟨functionList, buf, .null, s⟩ = .ok
      (((rounds.map fun x ↦ x.call.request).zip (rets.map ReturnType.received)),
        ⟨functionList, buf', .null, s'⟩) := by
  induction rounds generalizing s rets buf with
  | nil =>
    cases hlocal
    exact ⟨buf, rfl⟩
  | cons x xs ih =>
    rw [List.map_cons] at hlocal
    cases hlocal with
    | @cons _ _ fp _ s₁ _ ret rets hfp hrun hrest =>
      obtain ⟨n, hn, rfl⟩ := Option.map_eq_some_iff.mp hfp
      have hargs : (Server.mk functionList buf .null s).args = .null := rfl
      obtain ⟨buf₁, hcall⟩ := makeRemoteCall_eq (c := x.client) (m := x.server)
        (hfits x (List.mem_cons_self ..)) hargs hn hrun (hrets ret (List.mem_cons_self ..))
      obtain ⟨buf₂, hrun'⟩ := ih hrest (fun y hy ↦ hfits y (List.mem_cons_of_mem _ hy))
        (fun r hr ↦ hrets r (List.mem_cons_of_mem _ hr)) buf₁
      refine ⟨buf₂, ?_⟩
      rw [remoteRun, hcall, ok_bind]
      show remoteRun xs ⟨functionList, buf₁, .null, s₁⟩ >>= _ = _
      rw [hrun', ok_bind]
      rfl

/-- **Transparency of calls over datagrams.**  Whatever has been registered and whatever stands in the
buffers: if each call of a sequence, run as a local call of the procedure registered last under its
name, comes back, and calls and results fit, then the server takes each call for the name, the count
and the arguments it was made with, and for no others, the procedures change the state as they would
locally, and each client gets the size and the bytes of its result. -/
theorem datagram_transparency (regs : List (Registration σ)) (buf : Buf) {rounds : List Round}
    {rets : List ReturnType} {s s' : σ}
    (hlocal : LocalRun (mostRecent regs) (rounds.map Round.call) s rets s')
    (hfits : ∀ x ∈ rounds, x.call.Fits) (hrets : ∀ ret ∈ rets, ret.Fits) :
    ∃ buf', remoteRun rounds ⟨registerAll regs, buf, .null, s⟩ = .ok
      (((rounds.map fun x ↦ x.call.request).zip (rets.map ReturnType.received)),
        ⟨registerAll regs, buf', .null, s'⟩) := by
  have hfind : mostRecent regs = fun name ↦ (find (registerAll regs) name).map Node.fp :=
    funext fun name ↦ (find_registerAll regs name).symm
  rw [hfind] at hlocal
  exact remoteRun_eq hlocal hfits hrets buf

/-- A procedure that sends its last argument back and counts its calls. -/
def echoLast : FpType ℕ := fun _ a s ↦
  match a.getLast? with
  | none => .ok (.null, s + 1)
  | some x => .ok (⟨some x.argVal, x.argSize⟩, s + 1)

/-- A buffer of one byte. -/
def Buf.fill (b : UInt8) : Buf := ⟨List.replicate bufSize b, List.length_replicate⟩

/-- `make_remote_call(…, "echo", 2, 4, &i, 2, p)`, where `p` leads to three bytes. -/
def echoCall : Call where
  procedureName := .lit "echo"
  nparams := 2
  params := [⟨⟨4, intBytes 7⟩, ⟨by decide, by decide⟩⟩, ⟨⟨2, [8, 9, 10]⟩, ⟨by decide, by decide⟩⟩]
  count := rfl

/-- `make_remote_call(…, "echo", 0)`. -/
def emptyCall : Call := ⟨.lit "echo", 0, [], rfl⟩

/-- The name is registered three times, the last time for `NULL`. -/
def echoRegistrations : List (Registration ℕ) :=
  [⟨some (.lit "echo"), 2, fun _ _ s ↦ .ok (.null, s)⟩, ⟨some (.lit "echo"), 1, echoLast⟩,
    ⟨none, 2, echoLast⟩]

/-- The buffers of a client, and the memory of a server. -/
def someClientMem : ClientMem := ⟨.fill 1, .fill 2⟩

def someServerMem : ServerMem :=
  ⟨.fill 3, ⟨[1, 2, 3, 4, 5, 6, 7, 8], rfl⟩, ⟨[4, 4, 4, 4], rfl⟩⟩

/-- A call with two arguments, and then one with none. -/
def echoRounds : List Round :=
  [⟨echoCall, someClientMem, someServerMem⟩, ⟨emptyCall, someClientMem, someServerMem⟩]

/-- The second call finds nothing of the first. -/
theorem datagram_transparency_of_echo :
    ∃ buf, remoteRun echoRounds ⟨registerAll echoRegistrations, .fill 9, .null, 5⟩
      = .ok ([(echoCall.request, ⟨some [8, 9], 2⟩), (emptyCall.request, ⟨some [], 0⟩)],
        ⟨registerAll echoRegistrations, buf, .null, 7⟩) := by
  have hlocal : LocalRun (mostRecent echoRegistrations) (echoRounds.map Round.call) 5
      [⟨some [8, 9], 2⟩, .null] 7 := .cons rfl rfl (.cons rfl rfl (.nil 7))
  refine datagram_transparency _ (.fill 9) hlocal ?_ ?_
  · refine List.forall_mem_cons.mpr ⟨⟨by decide, by decide⟩, List.forall_mem_singleton.mpr ?_⟩
    exact ⟨by decide, by decide⟩
  · refine List.forall_mem_cons.mpr ⟨⟨⟨by decide, by decide⟩, by decide⟩,
      List.forall_mem_singleton.mpr ?_⟩
    exact ⟨⟨by decide, by decide⟩, by decide⟩

end RemoteFs.Datagram
