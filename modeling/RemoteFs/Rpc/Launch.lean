import RemoteFs.Lib.Language
import RemoteFs.Rpc.Transparency

/-!
# The server's loop

`launch_server` serves one connection after the other, and whoever connects may send anything.

* `recognises_recvCall` gives the language of `recvCall`: which bytes it takes for which call.  It is
  larger than what the client's stub writes, since the block of the name need not end in a NUL and
  may hold several.
* `launchServer` is the loop.  `launchServer_eq_ok_iff` says what it does on arbitrary connections:
  it gets through them exactly when each begins with a word of that language and no handler faults,
  and its replies are those of a server that is handed the calls one by one.  How a connection is
  cut and what follows its call does not matter.
* `launchServer_eq_error_iff` is the other case: the first connection that `Stops` the server ends it
  for everybody who comes later.
-/

set_option autoImplicit false

namespace RemoteFs

open Session

variable {σ : Type}

/-! ## Which bytes are a call -/

/-- A call as `recvCall` returns it. -/
abbrev Call : Type := CString × Int32 × List ArgType

/-- The bytes `i` are the call: a block of memory that holds the name, the count, and that many
arguments. -/
def CallWord (call : Call) (i : Bytes) : Prop :=
  ∃ block : Bytes, 0 < block.length ∧ block.length + 1 < 2 ^ 31 ∧
    call.1 = CString.upTo block ∧ (call.2.2.length : ℤ) = call.2.1.toInt ∧
    i = intBytes (Int32.ofNat block.length) ++
      (block ++ (intBytes call.2.1 ++ call.2.2.flatMap argBytes))

/-- What the client's stub writes is a call. -/
theorem callWord_callBytes {name : CString} (hname : name.strlen + 2 < 2 ^ 31) {nparams : Int32}
    {args : List ArgType} (hn : (args.length : ℤ) = nparams.toInt) :
    CallWord (name, nparams, args) (callBytes name nparams args) := by
  refine ⟨name.mem, by simp, by rw [CString.length_mem]; omega, by simp, hn, ?_⟩
  simp only [callBytes, headerBytes, CString.length_mem, List.append_assoc]

theorem recognises_recvbytes (count : Int32) :
    Recognises (recvbytes count) fun bs i ↦ i = bs.1 :=
  Recognises.recvAll Fault.exit _

theorem raises_recvbytes (count : Int32) :
    Raises (recvbytes count) fun err _ ↦ err = .exit :=
  (Raises.recvAll Fault.exit _).mono fun _ _ h ↦ h.1

theorem recognises_recvInt : Recognises recvInt fun n i ↦ i = intBytes n := by
  refine ((recognises_recvbytes sizeofInt).bind fun bs ↦ .lift (intAt bs.1)).congr fun n i ↦ ?_
  constructor
  · rintro ⟨bs, i, _, rfl, ⟨hn, rfl⟩, rfl⟩
    rw [List.append_nil]
    exact (intBytes_eq_of_intAt hn bs.2).symm
  · rintro rfl
    exact ⟨⟨intBytes n, rfl⟩, intBytes n, [], rfl, ⟨intAt_intBytes n, rfl⟩, by simp⟩

theorem raises_recvInt : Raises recvInt fun err _ ↦ err = .exit := by
  refine (Raises.bind (recognises_recvbytes sizeofInt) (raises_recvbytes sizeofInt)
    fun bs ↦ .lift (intAt bs.1)).mono fun err i h ↦ ?_
  rcases h with rfl | ⟨bs, -, -, -, -, hbs⟩
  · rfl
  · have hlen : 4 ≤ bs.1.length := bs.2.ge
    obtain ⟨n, hn⟩ := intAt_isOk hlen
    rw [hn] at hbs
    cases hbs

/-- The arguments are put behind those that have come. -/
theorem recognises_recvArgs (n : ℕ) (acc : List ArgType) :
    Recognises (recvArgs n acc) fun a i ↦
      ∃ args, args.length = n ∧ a = acc ++ args ∧ i = args.flatMap argBytes := by
  induction n generalizing acc with
  | zero =>
    refine (Recognises.pure acc).congr fun a i ↦ ?_
    constructor
    · rintro ⟨rfl, rfl⟩
      exact ⟨[], rfl, by simp, rfl⟩
    · rintro ⟨args, hlen, rfl, rfl⟩
      obtain rfl := List.length_eq_zero_iff.mp hlen
      exact ⟨by simp, rfl⟩
  | succ n ih =>
    have hcond (size : Int32) : Recognises
        (if h : 0 < size.toInt then do
          let argVal ← recvbytes size
          recvArgs n (acc ++ [⟨argVal.1, size, h,
            by rw [argVal.2, Int.toNat_of_nonneg (Int.le_of_lt h)]⟩])
        else throw .exit : Conn (List ArgType))
        fun a i ↦ ∃ x : ArgType, x.argSize = size ∧ ∃ args, args.length = n ∧
          a = acc ++ x :: args ∧ i = x.argVal ++ args.flatMap argBytes := by
      by_cases hpos : 0 < size.toInt
      · rw [dif_pos hpos]
        refine ((recognises_recvbytes size).bind fun argVal ↦ ih _).congr fun a i ↦ ?_
        constructor
        · rintro ⟨bs, i₁, i₂, rfl, ⟨args, hlen, rfl, rfl⟩, rfl⟩
          exact ⟨⟨bs.1, size, hpos, by rw [bs.2, Int.toNat_of_nonneg (Int.le_of_lt hpos)]⟩, rfl, args,
            hlen, by simp, rfl⟩
        · rintro ⟨⟨val, size', hpos', hsize⟩, rfl, args, hlen, rfl, rfl⟩
          have hval : val.length = size'.toInt.toNat := by omega
          exact ⟨⟨val, hval⟩, val, _, rfl, ⟨args, hlen, by simp, rfl⟩, rfl⟩
      · rw [dif_neg hpos]
        refine (Recognises.throw Fault.exit).congr fun a i ↦ ?_
        constructor
        · exact False.elim
        · rintro ⟨x, rfl, -⟩
          exact hpos x.size_pos
    refine (recognises_recvInt.bind hcond).congr fun a i ↦ ?_
    constructor
    · rintro ⟨size, i₁, i₂, rfl, ⟨x, rfl, args, rfl, rfl, rfl⟩, rfl⟩
      exact ⟨x :: args, rfl, rfl, by rw [List.flatMap_cons, argBytes, List.append_assoc]⟩
    · rintro ⟨_ | ⟨x, args⟩, hlen, rfl, rfl⟩
      · cases hlen
      · refine ⟨x.argSize, _, _, rfl, ⟨x, rfl, args, by simpa using hlen, rfl, rfl⟩, ?_⟩
        rw [List.flatMap_cons, argBytes, List.append_assoc]

theorem raises_recvArgs (n : ℕ) (acc : List ArgType) :
    Raises (recvArgs n acc) fun err _ ↦ err = .exit := by
  induction n generalizing acc with
  | zero => exact (Raises.pure acc).mono fun _ _ h ↦ h.elim
  | succ n ih =>
    refine (Raises.bind (F := fun _ err _ ↦ err = .exit) recognises_recvInt raises_recvInt
      fun size ↦ ?_).mono fun err i h ↦ ?_
    · split
      · refine (Raises.bind (recognises_recvbytes size) (raises_recvbytes size)
          fun argVal ↦ ih _).mono fun err i h ↦ ?_
        rcases h with rfl | ⟨-, -, -, -, -, rfl⟩ <;> rfl
      · exact Raises.throw Fault.exit
    · rcases h with rfl | ⟨-, -, -, -, -, rfl⟩ <;> rfl

/-- The lengths of a name that pass the checks. -/
theorem fnamelen_iff (fnamelen : Int32) :
    (¬ fnamelen ≤ 0 ∧ ¬ fnamelen + 1 < 0) ↔ 0 < fnamelen.toInt ∧ fnamelen.toInt + 1 < 2 ^ 31 := by
  have hlt := Int32.toInt_lt fnamelen
  have hsucc : (fnamelen + 1).toInt = (fnamelen.toInt + 1).bmod (2 ^ 32) := Int32.toInt_add _ _
  rw [Int32.le_iff_toInt_le, Int32.lt_iff_toInt_lt, hsucc, Int32.toInt_zero, Int.bmod]
  split <;> omega

theorem ofNat_toNat_toInt {n : Int32} (h : 0 ≤ n.toInt) : Int32.ofNat n.toInt.toNat = n := by
  have hlt := Int32.toInt_lt n
  rw [← Int32.toInt_inj, toInt_ofNat_of_lt (by omega), Int.toNat_of_nonneg h]

/-- **The language of `recvCall`.** -/
theorem recognises_recvCall : Recognises recvCall CallWord := by
  have hrun := recognises_recvInt.bind fun fnamelen ↦ Recognises.unless Fault.exit
    (c := fnamelen ≤ 0) fun _ ↦ Recognises.unless Fault.nullDeref (c := fnamelen + 1 < 0) fun _ ↦
      (recognises_recvbytes fnamelen).bind fun fname ↦ recognises_recvInt.bind fun nparams ↦
        Recognises.unless Fault.exit (c := nparams < 0) fun _ ↦
          (recognises_recvArgs nparams.toInt.toNat []).bind fun a ↦
            Recognises.pure (CString.upTo fname.1, nparams, a)
  refine Recognises.congr (p := recvCall) hrun fun ⟨name, nparams, args⟩ i ↦ ?_
  constructor
  · rintro ⟨len, _, _, rfl, ⟨hpos, hmax, fname, _, _, rfl, ⟨n, _, _, rfl, ⟨hn, a, _, _,
      ⟨args', hlen, rfl, rfl⟩, ⟨hcall, rfl⟩, rfl⟩, rfl⟩, rfl⟩, rfl⟩
    obtain ⟨hpos, hmax⟩ := (fnamelen_iff len).mp ⟨hpos, hmax⟩
    simp only [Prod.mk.injEq] at hcall
    obtain ⟨rfl, rfl, rfl⟩ := hcall
    have hsize := fname.2
    rw [Int32.lt_iff_toInt_lt, Int32.toInt_zero] at hn
    refine ⟨fname.1, by omega, by omega, rfl, by show (args.length : ℤ) = nparams.toInt; omega, ?_⟩
    rw [hsize, ofNat_toNat_toInt (by omega), List.append_nil]
  · rintro ⟨block, hpos, hmax, hname, hn, rfl⟩
    have hlen := toInt_ofNat_of_lt (n := block.length) (by omega)
    obtain ⟨hpos', hmax'⟩ := (fnamelen_iff (Int32.ofNat block.length)).mpr
      ⟨by omega, by omega⟩
    have hn' : (args.length : ℤ) = nparams.toInt := hn
    have hneg : ¬ nparams < 0 := by
      rw [Int32.lt_iff_toInt_lt, Int32.toInt_zero]
      omega
    have hname' : name = CString.upTo block := hname
    exact ⟨_, _, _, rfl, ⟨hpos', hmax', ⟨block, by omega⟩, _, _, rfl, ⟨nparams, _, _, rfl,
      ⟨hneg, args, _, _, ⟨args, by omega, rfl, rfl⟩, ⟨by rw [hname'], rfl⟩, (List.append_nil _).symm⟩,
      rfl⟩, rfl⟩, rfl⟩

/-- It gives up with `exit`, but for the one length whose successor is negative. -/
theorem raises_recvCall : Raises recvCall fun err i ↦ err = .exit ∨
    (err = .nullDeref ∧ ∃ rest, i = intBytes (Int32.ofNat (2 ^ 31 - 1)) ++ rest) := by
  have hrun := Raises.bind recognises_recvInt raises_recvInt fun fnamelen ↦
    Raises.unless Fault.exit (c := fnamelen ≤ 0) fun _ ↦
      Raises.unless Fault.nullDeref (c := fnamelen + 1 < 0) fun _ ↦
        Raises.bind (recognises_recvbytes fnamelen) (raises_recvbytes fnamelen) fun fname ↦
          Raises.bind recognises_recvInt raises_recvInt fun nparams ↦
            Raises.unless Fault.exit (c := nparams < 0) fun _ ↦
              Raises.bind (recognises_recvArgs nparams.toInt.toNat [])
                (raises_recvArgs nparams.toInt.toNat []) fun a ↦
                  Raises.pure (CString.upTo fname.1, nparams, a)
  refine Raises.mono (p := recvCall) hrun fun err i h ↦ ?_
  rcases h with rfl | ⟨len, _, rest, rfl, rfl, ⟨-, rfl⟩ | ⟨hpos, ⟨hmax, rfl⟩ | ⟨-, h⟩⟩⟩
  · exact .inl rfl
  · exact .inl rfl
  · -- a positive number whose successor is negative
    have hlen : len = Int32.ofNat (2 ^ 31 - 1) := by
      have hlt := Int32.toInt_lt len
      have hchecks : ¬ (0 < len.toInt ∧ len.toInt + 1 < 2 ^ 31) :=
        fun h ↦ ((fnamelen_iff len).mpr h).2 hmax
      rw [Int32.le_iff_toInt_le, Int32.toInt_zero] at hpos
      rw [← Int32.toInt_inj, toInt_ofNat_of_lt (by decide)]
      omega
    exact .inr ⟨rfl, rest, by rw [hlen]⟩
  · rcases h with rfl | ⟨_, _, _, -, -, rfl | ⟨_, _, _, -, -, ⟨-, rfl⟩ | ⟨-, rfl | ⟨_, _, _, -, -, h⟩⟩⟩⟩
    · exact .inl rfl
    · exact .inl rfl
    · exact .inl rfl
    · exact .inl rfl
    · exact h.elim

/-- And on that length it does not exit: it follows the `NULL` that `calloc` returned. -/
theorem fails_recvCall_nullDeref :
    Fails recvCall (intBytes (Int32.ofNat (2 ^ 31 - 1))) .nullDeref := by
  rw [recvCall, ← List.append_nil (intBytes _)]
  refine (exchanges_recvInt _).bind_fails ?_
  rw [if_neg (by decide), if_pos (by decide)]
  exact .throw _ _

/-! ## One connection -/

/-- A connection that `accept` returns: what the client sends, how the two directions are cut, and
what uninitialised memory holds while it is served. -/
structure Connection where
  inp : Bytes
  recvCuts : List ℕ := []
  sendCuts : List ℕ := []
  garbage : Int32 := 0

namespace Connection

/-- The server's end. -/
def endpoint (c : Connection) : Endpoint UInt8 := ⟨c.inp, [], c.recvCuts, c.sendCuts⟩

/-- What is sent starts with the bytes of a call. -/
def Begins (c : Connection) (call : Call) : Prop := ∃ i rest, CallWord call i ∧ c.inp = i ++ rest

/-- What is sent starts with the largest `int`, as the length of a name. -/
def TooLong (c : Connection) : Prop :=
  ∃ rest, c.inp = intBytes (Int32.ofNat (2 ^ 31 - 1)) ++ rest

/-- A connection begins with one call at most. -/
theorem Begins.unique {c : Connection} {call call' : Call} (h : c.Begins call)
    (h' : c.Begins call') : call = call' := by
  obtain ⟨i, rest, hi, hinp⟩ := h
  obtain ⟨i', rest', hi', hinp'⟩ := h'
  exact (recognises_recvCall.unique hi hi' (hinp.symm.trans hinp')).1

end Connection

/-- A reply that is shorter than it announces is not sent. -/
theorem fails_returnResult {ret : ReturnType} (h : ¬ ret.Holds) :
    Fails (returnResult ret) [] (if ret.returnVal = none then .exit else .overread) := by
  obtain ⟨hpos, hshort⟩ : 0 < ret.returnSize.toInt ∧
      ∀ val, ret.returnVal = some val → ¬ ret.returnSize.toInt ≤ val.length := by
    simpa [ReturnType.Holds] using h
  have hsize : ¬ ret.returnSize ≤ 0 := by
    rw [Int32.le_iff_toInt_le, Int32.toInt_zero]
    omega
  rw [returnResult, if_neg hsize, ← List.append_nil []]
  refine (exchanges_sendInt ret.returnSize).bind_fails ?_
  rcases hval : ret.returnVal with _ | val
  · exact .throw _ _
  · have hlt : val.length < ret.returnSize.toInt.toNat := by
      have := hshort val hval
      omega
    simp only [sendbytes, if_pos hlt, reduceCtorEq, if_false]
    exact .throw _ _

section
variable {fnp : List (Fn σ)} {s s' : σ} {call : Call} {i : Bytes} {ret : ReturnType}

theorem exchanges_serveConnection_of_word (hi : CallWord call i)
    (hcall : makeCall fnp call.1 call.2.1 call.2.2 s = .ok (ret, s')) (hret : ret.Holds) :
    Exchanges (serveConnection fnp s) i (resultBytes ret) ⟨call.1, call.2.1, call.2.2, s'⟩ := by
  refine (recognises_recvCall.complete hi).read_last ?_
  refine (Exchanges.liftOk hcall).read_last ?_
  exact (exchanges_returnResult hret).bind_pure
    fun _ ↦ (⟨call.1, call.2.1, call.2.2, s'⟩ : Served σ)

theorem fails_serveConnection_of_call {f : Fault} (hi : CallWord call i)
    (hcall : makeCall fnp call.1 call.2.1 call.2.2 s = .error f) :
    Fails (serveConnection fnp s) i f := by
  rw [← List.append_nil i]
  exact (recognises_recvCall.complete hi).bind_fails ((Fails.liftError hcall []).bind _)

theorem fails_serveConnection_of_reply (hi : CallWord call i)
    (hcall : makeCall fnp call.1 call.2.1 call.2.2 s = .ok (ret, s')) (hret : ¬ ret.Holds) :
    Fails (serveConnection fnp s) i (if ret.returnVal = none then .exit else .overread) := by
  rw [← List.append_nil i, ← List.append_nil []]
  exact (recognises_recvCall.complete hi).bind_fails
    ((Exchanges.liftOk hcall).bind_fails ((fails_returnResult hret).bind _))

end

/-- How serving a connection can end the server. -/
inductive Stops (fnp : List (Fn σ)) (s : σ) (c : Connection) : Fault → Prop
  /-- There is no call, or not all of it. -/
  | garbled (h : ∀ call, ¬ c.Begins call) (hlen : ¬ c.TooLong) : Stops fnp s c .exit
  /-- The name is as long as an `int` can say. -/
  | tooLong (hlen : c.TooLong) : Stops fnp s c .nullDeref
  /-- The procedure does not come back. -/
  | handler {call : Call} {f : Fault} (h : c.Begins call)
      (hcall : makeCall fnp call.1 call.2.1 call.2.2 s = .error f) : Stops fnp s c f
  /-- The procedure announces more bytes than it returns. -/
  | reply {call : Call} {ret : ReturnType} {s' : σ} (h : c.Begins call)
      (hcall : makeCall fnp call.1 call.2.1 call.2.2 s = .ok (ret, s')) (hret : ¬ ret.Holds) :
      Stops fnp s c (if ret.returnVal = none then .exit else .overread)

theorem Stops.run_eq {fnp : List (Fn σ)} {s : σ} {c : Connection} {f : Fault}
    (h : Stops fnp s c f) : (serveConnection fnp s).run c.endpoint = .error f := by
  rcases h with ⟨hnone, hlen⟩ | ⟨rest, hrest⟩ | ⟨⟨i, rest, hi, hinp⟩, hcall⟩ |
    ⟨⟨i, rest, hi, hinp⟩, hcall, hret⟩
  · obtain ⟨f, hf⟩ := recognises_recvCall.exists_error (e := c.endpoint)
      fun call i rest hi hinp ↦ hnone call ⟨i, rest, hi, hinp⟩
    rcases raises_recvCall _ _ hf with rfl | ⟨-, htoo⟩
    · rw [serveConnection, StateT.run_bind, hf]
      rfl
    · exact absurd htoo hlen
  · exact (fails_recvCall_nullDeref.bind _) rest c.endpoint hrest
  · exact fails_serveConnection_of_call hi hcall rest c.endpoint hinp
  · exact fails_serveConnection_of_reply hi hcall hret rest c.endpoint hinp

/-- A connection that is answered: what it asks for, the procedure's answer, and the globals then. -/
structure Answered (fnp : List (Fn σ)) (s : σ) (c : Connection) (call : Call) (ret : ReturnType)
    (s' : σ) : Prop where
  begins : c.Begins call
  called : makeCall fnp call.1 call.2.1 call.2.2 s = .ok (ret, s')
  holds : ret.Holds

theorem Answered.run_eq {fnp : List (Fn σ)} {s s' : σ} {c : Connection} {call : Call}
    {ret : ReturnType} (h : Answered fnp s c call ret s') :
    ∃ e, (serveConnection fnp s).run c.endpoint = .ok (⟨call.1, call.2.1, call.2.2, s'⟩, e) ∧
      e.out = resultBytes ret := by
  obtain ⟨i, rest, hi, hinp⟩ := h.begins
  obtain ⟨e, hrun, -, hout⟩ :=
    exchanges_serveConnection_of_word hi h.called h.holds rest c.endpoint hinp
  exact ⟨e, hrun, hout⟩

/-- **What a connection comes to**: an answer, or the server's end. -/
theorem answered_or_stops (fnp : List (Fn σ)) (s : σ) (c : Connection) :
    (∃ call ret s', Answered fnp s c call ret s') ∨ ∃ f, Stops fnp s c f := by
  by_cases hc : ∃ call, c.Begins call
  · obtain ⟨call, hc⟩ := hc
    rcases hcall : makeCall fnp call.1 call.2.1 call.2.2 s with f | ⟨ret, s'⟩
    · exact .inr ⟨f, .handler hc hcall⟩
    · by_cases hret : ret.Holds
      · exact .inl ⟨call, ret, s', hc, hcall, hret⟩
      · exact .inr ⟨_, .reply hc hcall hret⟩
  · rw [not_exists] at hc
    by_cases hlen : c.TooLong
    · exact .inr ⟨_, .tooLong hlen⟩
    · exact .inr ⟨_, .garbled hc hlen⟩

/-! ## The loop -/

/-- `launch_server`, for the connections `accept` returns: what is sent back on each of them, and the
globals at the end. -/
def launchServer (fnp : Int32 → List (Fn σ)) : List Connection → σ → Except Fault (List Bytes × σ)
  | [], s => .ok ([], s)
  | c :: cs, s => do
    let (served, e) ← (serveConnection (fnp c.garbage) s).run c.endpoint
    let (replies, s') ← launchServer fnp cs served.state
    return (e.out :: replies, s')

/-- The server as its procedures know it: calls, one after the other, and what each returns. -/
def callAll (fnp : Int32 → List (Fn σ)) :
    List (Int32 × Call) → σ → Except Fault (List ReturnType × σ)
  | [], s => .ok ([], s)
  | (garbage, call) :: calls, s => do
    let (ret, s₁) ← makeCall (fnp garbage) call.1 call.2.1 call.2.2 s
    let (rets, s') ← callAll fnp calls s₁
    return (ret :: rets, s')

section
variable {fnp : Int32 → List (Fn σ)} {c : Connection} {cs : List Connection} {s s' : σ}
  {replies : List Bytes}

theorem Answered.launchServer_cons {call : Call} {ret : ReturnType} {s₁ : σ}
    (h : Answered (fnp c.garbage) s c call ret s₁) (cs : List Connection) :
    launchServer fnp (c :: cs) s
      = launchServer fnp cs s₁ >>= fun r ↦ .ok (resultBytes ret :: r.1, r.2) := by
  obtain ⟨e, hrun, hout⟩ := h.run_eq
  rw [launchServer, hrun, ← hout]
  rfl

theorem Stops.launchServer_cons {f : Fault} (h : Stops (fnp c.garbage) s c f)
    (cs : List Connection) : launchServer fnp (c :: cs) s = .error f := by
  rw [launchServer, h.run_eq]
  rfl

theorem launchServer_cons_eq_ok_iff :
    launchServer fnp (c :: cs) s = .ok (replies, s') ↔
      ∃ call ret s₁ replies', Answered (fnp c.garbage) s c call ret s₁ ∧
        launchServer fnp cs s₁ = .ok (replies', s') ∧ replies = resultBytes ret :: replies' := by
  constructor
  · intro h
    rcases answered_or_stops (fnp c.garbage) s c with ⟨call, ret, s₁, hans⟩ | ⟨f, hstops⟩
    · rw [hans.launchServer_cons, bind_eq_ok] at h
      obtain ⟨⟨replies', s''⟩, hrest, heq⟩ := h
      cases heq
      exact ⟨call, ret, s₁, replies', hans, hrest, rfl⟩
    · rw [hstops.launchServer_cons] at h
      cases h
  · rintro ⟨call, ret, s₁, replies', hans, hrest, rfl⟩
    rw [hans.launchServer_cons, hrest]
    rfl

end

/-- **The loop serves calls.**  On connections with anything on them the server gets through exactly
when each begins with a call, the procedures come back, and what they return is as long as they
announce.  Nothing depends on how a connection is cut, or on what follows the call on it. -/
theorem launchServer_eq_ok_iff (fnp : Int32 → List (Fn σ)) (cs : List Connection) (s s' : σ)
    (replies : List Bytes) :
    launchServer fnp cs s = .ok (replies, s') ↔
      ∃ calls rets, List.Forall₂ (fun c (x : Int32 × Call) ↦ x.1 = c.garbage ∧ c.Begins x.2) cs calls ∧
        callAll fnp calls s = .ok (rets, s') ∧ (∀ ret ∈ rets, ret.Holds) ∧
        replies = rets.map resultBytes := by
  induction cs generalizing s replies with
  | nil =>
    constructor
    · intro h
      cases h
      exact ⟨[], [], .nil, rfl, by simp, rfl⟩
    · rintro ⟨calls, rets, hcalls, hrun, -, rfl⟩
      cases hcalls
      cases hrun
      rfl
  | cons c cs ih =>
    rw [launchServer_cons_eq_ok_iff]
    constructor
    · rintro ⟨call, ret, s₁, replies, hans, hrest, rfl⟩
      obtain ⟨calls, rets, hcalls, hall, hholds, rfl⟩ := (ih s₁ replies).mp hrest
      exact ⟨(c.garbage, call) :: calls, ret :: rets, .cons ⟨rfl, hans.begins⟩ hcalls,
        bind_eq_ok.mpr ⟨(ret, s₁), hans.called, bind_eq_ok.mpr ⟨(rets, s'), hall, rfl⟩⟩,
        List.forall_mem_cons.mpr ⟨hans.holds, hholds⟩, rfl⟩
    · rintro ⟨_ | ⟨⟨garbage, call⟩, calls⟩, rets, hcalls, hall, hholds, rfl⟩
      · cases hcalls
      · obtain ⟨⟨rfl, hbegins⟩, hrest⟩ := List.forall₂_cons.mp hcalls
        rw [callAll, bind_eq_ok] at hall
        obtain ⟨⟨ret, s₁⟩, hcall, hall⟩ := hall
        obtain ⟨⟨rets', s''⟩, hall, heq⟩ := bind_eq_ok.mp hall
        cases heq
        obtain ⟨hret, hholds⟩ := List.forall_mem_cons.mp hholds
        exact ⟨call, ret, s₁, rets'.map resultBytes, ⟨hbegins, hcall, hret⟩,
          (ih s₁ _).mpr ⟨calls, rets', hrest, hall, hholds, rfl⟩, rfl⟩

/-- **And it ends at the first connection that stops it**, whatever comes after that. -/
theorem launchServer_eq_error_iff (fnp : Int32 → List (Fn σ)) (cs : List Connection) (s : σ)
    (f : Fault) :
    launchServer fnp cs s = .error f ↔
      ∃ served c later replies s₁, cs = served ++ c :: later ∧
        launchServer fnp served s = .ok (replies, s₁) ∧ Stops (fnp c.garbage) s₁ c f := by
  induction cs generalizing s with
  | nil =>
    constructor
    · intro h
      cases h
    · rintro ⟨served, c, later, -, -, heq, -⟩
      simp at heq
  | cons c cs ih =>
    rcases answered_or_stops (fnp c.garbage) s c with ⟨call, ret, s₁, hans⟩ | ⟨f', hstops⟩
    · rw [hans.launchServer_cons]
      constructor
      · intro h
        have hrest : launchServer fnp cs s₁ = .error f := by
          rcases hcs : launchServer fnp cs s₁ with f' | r <;> rw [hcs] at h
          · exact h
          · cases h
        obtain ⟨served, d, later, replies, s₂, rfl, hserved, hstop⟩ := (ih s₁).mp hrest
        exact ⟨c :: served, d, later, resultBytes ret :: replies, s₂, rfl,
          launchServer_cons_eq_ok_iff.mpr ⟨call, ret, s₁, replies, hans, hserved, rfl⟩, hstop⟩
      · rintro ⟨_ | ⟨c', served⟩, d, later, replies, s₂, heq, hserved, hstop⟩
        · -- a connection that is answered does not stop the server
          obtain ⟨rfl, rfl⟩ := List.cons.inj heq
          cases hserved
          obtain ⟨e, hrun, -⟩ := hans.run_eq
          rw [hstop.run_eq] at hrun
          cases hrun
        · obtain ⟨rfl, rfl⟩ := List.cons.inj heq
          rw [hans.launchServer_cons, bind_eq_ok] at hserved
          obtain ⟨⟨replies', s₃⟩, hserved, heq⟩ := hserved
          cases heq
          rw [(ih s₁).mpr ⟨served, d, later, replies', s₃, rfl, hserved, hstop⟩]
          rfl
    · rw [hstops.launchServer_cons]
      constructor
      · intro h
        cases h
        exact ⟨[], c, cs, [], s, rfl, rfl, hstops⟩
      · rintro ⟨_ | ⟨c', served⟩, d, later, replies, s₂, heq, hserved, hstop⟩
        · obtain ⟨rfl, rfl⟩ := List.cons.inj heq
          cases hserved
          cases hstops.run_eq.symm.trans hstop.run_eq
          rfl
        · obtain ⟨rfl, rfl⟩ := List.cons.inj heq
          rw [hstops.launchServer_cons] at hserved
          cases hserved

end RemoteFs
