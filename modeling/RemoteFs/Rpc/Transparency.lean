import Mathlib.Data.List.Forall2
import Mathlib.Data.List.Induction
import RemoteFs.Rpc.Stub

/-!
# A remote call is a call

What the client's stub writes is what the server's stub reads, and back.  The messages are given by
`callBytes` and `resultBytes`; each half of each stub gets one lemma saying that it exchanges its
message, and `rpc_transparency` puts them together.

The one restriction is on the name.  Its length, terminator included, travels as an `int`, and the
server adds one to it, so `rpc_transparency` asks for a name of at most `2 ^ 31 - 3` characters;
`name_too_long` is the case two characters above that, where the length arrives negative and the
server exits.  It exits as well when the size of an argument is not positive
(`makeRemoteCall_exit`).
-/

set_option autoImplicit false

namespace RemoteFs

open Session

variable {σ : Type}

/-! ## Messages -/

/-- An argument on the wire. -/
def argBytes (a : ArgType) : Bytes := intBytes a.argSize ++ a.argVal

/-- The part of a call on the wire that stands before the arguments. -/
def headerBytes (name : CString) (nparams : Int32) : Bytes :=
  intBytes (Int32.ofNat (name.strlen + 1)) ++ (name.mem ++ intBytes nparams)

/-- A call on the wire. -/
def callBytes (name : CString) (nparams : Int32) (args : List ArgType) : Bytes :=
  headerBytes name nparams ++ args.flatMap argBytes

/-- The result the client gets: size and bytes when the size is positive, else `(NULL, 0)`. -/
def ReturnType.received (ret : ReturnType) : ReturnType :=
  if 0 < ret.returnSize.toInt then
    ⟨ret.returnVal.map fun val ↦ val.take ret.returnSize.toInt.toNat, ret.returnSize, 0⟩
  else .null

/-- The value holds at least as many bytes as its size says. -/
def ReturnType.Holds (ret : ReturnType) : Prop :=
  0 < ret.returnSize.toInt →
    ∃ val, ret.returnVal = some val ∧ ret.returnSize.toInt ≤ val.length

/-- `(NULL, 0)`, or a block of exactly the announced size: what the client receives is then what the
handler returned. -/
def ReturnType.Exact (ret : ReturnType) : Prop :=
  ret = .null ∨ ∃ val size, ret = ⟨some val, size, 0⟩ ∧ 0 < size.toInt ∧
    (val.length : ℤ) = size.toInt

theorem ReturnType.Exact.holds {ret : ReturnType} (h : ret.Exact) : ret.Holds := by
  rcases h with rfl | ⟨val, size, rfl, -, hlen⟩
  · intro hpos
    exact absurd hpos (by decide)
  · intro _
    exact ⟨val, rfl, Int.le_of_eq hlen.symm⟩

theorem ReturnType.Exact.received {ret : ReturnType} (h : ret.Exact) : ret.received = ret := by
  rcases h with rfl | ⟨val, size, rfl, hpos, hlen⟩
  · rfl
  · have htake : val.take size.toInt.toNat = val := by
      rw [← hlen, Int.toNat_natCast, List.take_length]
    simp only [ReturnType.received, if_pos hpos, Option.map_some, htake]

theorem ReturnType.exact_int (n : Int32) : (ReturnType.int n).Exact :=
  .inr ⟨intBytes n, sizeofInt, rfl, by decide, rfl⟩

/-- A result on the wire. -/
def resultBytes (ret : ReturnType) : Bytes :=
  intBytes ret.received.returnSize ++ ret.received.returnVal.getD []

/-- The pointer and the size passed to `make_remote_call` are those of an argument: the block may go
on after it. -/
def Param.Passes (p : Param) (a : ArgType) : Prop := p.psize = a.argSize ∧ a.argVal <+: p.pval

/-! ## `int`s and blocks -/

theorem toNat_of_length {n : ℕ} (h : n < 2 ^ 31) : (Int32.ofNat n).toInt.toNat = n := by
  rw [toInt_ofNat_of_lt h, Int.toNat_natCast]

theorem exchanges_sendbytes {buf bs : Bytes} {count : Int32} (h : bs <+: buf)
    (hlen : bs.length = count.toInt.toNat) : Exchanges (sendbytes buf count) [] bs () := by
  have htake : buf.take count.toInt.toNat = bs := by
    rw [← hlen, ← List.prefix_iff_eq_take.mp h]
  rw [sendbytes, if_neg (by have := h.length_le; omega), htake]
  exact .sendAll bs

theorem exchanges_recvbytes {bs : Bytes} {count : Int32} (h : bs.length = count.toInt.toNat) :
    Exchanges (recvbytes count) bs [] ⟨bs, h⟩ :=
  Exchanges.recvAll Fault.exit h

theorem exchanges_sendInt (n : Int32) : Exchanges (sendInt n) [] (intBytes n) () :=
  exchanges_sendbytes List.prefix_rfl rfl

theorem exchanges_recvInt (n : Int32) : Exchanges recvInt (intBytes n) [] n := by
  have hlen : (intBytes n).length = sizeofInt.toInt.toNat := rfl
  exact (exchanges_recvbytes hlen).read_last (.liftOk (intAt_intBytes n))

/-! ## The call -/

theorem exchanges_sendParams_append {params : List Param} {args : List ArgType}
    (h : List.Forall₂ Param.Passes params args) {n : ℕ} {rest : List Param} {bs : Bytes}
    (hrest : Exchanges (sendParams n rest) [] bs ()) :
    Exchanges (sendParams (params.length + n) (params ++ rest)) []
      (args.flatMap argBytes ++ bs) () := by
  induction h with
  | nil => rwa [List.length_nil, Nat.zero_add]
  | @cons p a ps as hpa _ ih =>
    obtain ⟨hsize, hval⟩ := hpa
    have hlen : a.argVal.length = p.psize.toInt.toNat := by
      have := a.size_eq
      rw [hsize]
      omega
    rw [List.length_cons, Nat.add_right_comm, List.cons_append, sendParams, List.flatMap_cons,
      argBytes, List.append_assoc, List.append_assoc, ← hsize]
    exact (exchanges_sendInt p.psize).bind_nil ((exchanges_sendbytes hval hlen).bind_nil ih)

theorem exchanges_sendParams {params : List Param} {args : List ArgType}
    (h : List.Forall₂ Param.Passes params args) :
    Exchanges (sendParams params.length params) [] (args.flatMap argBytes) () := by
  have hnil : Exchanges (sendParams 0 []) [] [] () := .pure ()
  simpa using exchanges_sendParams_append h hnil

theorem exchanges_recvArgs (args acc : List ArgType) :
    Exchanges (recvArgs args.length acc) (args.flatMap argBytes) [] (acc ++ args) := by
  induction args generalizing acc with
  | nil =>
    rw [List.append_nil]
    exact .pure acc
  | cons a args ih =>
    have hlen : a.argVal.length = a.argSize.toInt.toNat := by
      have := a.size_eq
      omega
    have hrest := ih (acc ++ [a])
    rw [List.append_assoc, List.singleton_append] at hrest
    rw [List.length_cons, recvArgs, List.flatMap_cons, argBytes, List.append_assoc]
    refine (exchanges_recvInt a.argSize).read_bind ?_
    rw [dif_pos a.size_pos]
    exact (exchanges_recvbytes hlen).read_bind hrest

theorem exchanges_sendCall {name : CString} (hname : name.strlen + 1 < 2 ^ 31) {nparams : Int32}
    {params : List Param} {bs : Bytes}
    (h : Exchanges (sendParams nparams.toInt.toNat params) [] bs ()) :
    Exchanges (sendCall name nparams params) [] (headerBytes name nparams ++ bs) () := by
  have hmem : name.mem.length = (Int32.ofNat (name.strlen + 1)).toInt.toNat := by
    rw [toNat_of_length hname, CString.length_mem]
  rw [headerBytes, List.append_assoc, List.append_assoc]
  exact (exchanges_sendInt _).bind_nil ((exchanges_sendbytes List.prefix_rfl hmem).bind_nil
    ((exchanges_sendInt nparams).bind_nil h))

theorem reads_recvCall {name : CString} (hname : name.strlen + 2 < 2 ^ 31) {nparams : Int32}
    (hn : ¬ nparams < 0) :
    Reads recvCall (recvArgs nparams.toInt.toNat [] >>= fun a ↦ pure (name, nparams, a))
      (headerBytes name nparams) := by
  have hlen := toInt_ofNat_of_lt (n := name.strlen + 1) (by omega)
  have hsucc : Int32.ofNat (name.strlen + 1) + 1 = Int32.ofNat (name.strlen + 2) :=
    (Int32.ofNat_add _ _).symm
  have hmem : name.mem.length = (Int32.ofNat (name.strlen + 1)).toInt.toNat := by
    rw [hlen, CString.length_mem, Int.toNat_natCast]
  rw [headerBytes, recvCall]
  refine (exchanges_recvInt _).reads.trans ?_
  rw [if_neg (by rw [Int32.le_iff_toInt_le, hlen, Int32.toInt_zero]; omega),
    if_neg (by rw [hsucc, Int32.lt_iff_toInt_lt, toInt_ofNat_of_lt hname, Int32.toInt_zero]; omega)]
  refine (exchanges_recvbytes hmem).reads.trans ?_
  show Reads (recvInt >>= fun n ↦ if n < 0 then throw .exit
    else recvArgs n.toInt.toNat [] >>= fun a ↦ pure (CString.upTo name.mem, n, a)) _ _
  have hlast := (exchanges_recvInt nparams).reads (f := fun n ↦ if n < 0 then throw .exit
    else recvArgs n.toInt.toNat [] >>= fun a ↦ pure (CString.upTo name.mem, n, a))
  rw [CString.upTo_mem] at hlast ⊢
  rwa [if_neg hn] at hlast

theorem exchanges_recvCall {name : CString} (hname : name.strlen + 2 < 2 ^ 31) {nparams : Int32}
    {args : List ArgType} (hn : (args.length : ℤ) = nparams.toInt) :
    Exchanges recvCall (callBytes name nparams args) [] (name, nparams, args) := by
  have hneg : ¬ nparams < 0 := by
    rw [Int32.lt_iff_toInt_lt, ← hn, Int32.toInt_zero]
    omega
  have hargs : Exchanges (recvArgs nparams.toInt.toNat []) (args.flatMap argBytes) [] args := by
    have := exchanges_recvArgs args []
    rwa [← hn, Int.toNat_natCast]
  exact (reads_recvCall hname hneg).exchanges (hargs.bind_pure fun a ↦ (name, nparams, a))

/-! ## The result -/

theorem exchanges_returnResult {ret : ReturnType} (h : ret.Holds) :
    Exchanges (returnResult ret) [] (resultBytes ret) () := by
  by_cases hpos : 0 < ret.returnSize.toInt
  · obtain ⟨val, hval, hlen⟩ := h hpos
    have htake : (val.take ret.returnSize.toInt.toNat).length = ret.returnSize.toInt.toNat :=
      List.length_take_of_le (by omega)
    have hsize : ¬ ret.returnSize ≤ 0 := by
      rw [Int32.le_iff_toInt_le, Int32.toInt_zero]
      omega
    rw [returnResult, if_neg hsize, resultBytes, ReturnType.received, if_pos hpos]
    simp only [hval, Option.map_some, Option.getD_some]
    exact (exchanges_sendInt _).bind_nil (exchanges_sendbytes (List.take_prefix _ _) htake)
  · have hsize : ret.returnSize ≤ 0 := by
      rw [Int32.le_iff_toInt_le, Int32.toInt_zero]
      omega
    rw [returnResult, if_pos hsize, resultBytes, ReturnType.received, if_neg hpos]
    exact exchanges_sendInt 0

theorem exchanges_recvResult {ret : ReturnType} (h : ret.Holds) :
    Exchanges recvResult (resultBytes ret) [] ret.received := by
  rw [recvResult, resultBytes]
  by_cases hpos : 0 < ret.returnSize.toInt
  · obtain ⟨val, hval, hlen⟩ := h hpos
    have htake : (val.take ret.returnSize.toInt.toNat).length = ret.returnSize.toInt.toNat :=
      List.length_take_of_le (by omega)
    have hneg : ¬ ret.returnSize < 0 := by
      rw [Int32.lt_iff_toInt_lt, Int32.toInt_zero]
      omega
    have hzero : ret.returnSize ≠ 0 := by
      intro hzero
      rw [hzero] at hpos
      exact absurd hpos (by decide)
    rw [ReturnType.received, if_pos hpos]
    simp only [hval, Option.map_some, Option.getD_some]
    refine (exchanges_recvInt _).read_bind ?_
    rw [if_neg hneg, if_neg hzero]
    exact (exchanges_recvbytes htake).read_last (.pure _)
  · rw [ReturnType.received, if_neg hpos]
    exact (exchanges_recvInt 0).read_last (.pure _)

/-! ## Registration -/

/-- The arguments of a call of `register_procedure`. -/
structure Registration (σ : Type) where
  procedureName : Option CString
  nparams : Int32
  fnpointer : FpType σ

/-- The registered procedures after a number of calls of `register_procedure`. -/
def registerAll (calls : List (Registration σ)) : List (Fn σ) :=
  calls.foldl
    (fun fnp c ↦ (registerProcedure fnp c.procedureName c.nparams c.fnpointer).2) []

/-- The handler registered last for a name and a parameter count. -/
def mostRecent (calls : List (Registration σ)) (name : CString) (nparams : Int32) :
    Option (FpType σ) :=
  (calls.filter fun c ↦ c.procedureName = some name ∧ c.nparams = nparams).getLast?.map
    Registration.fnpointer

/-- **The first match in the list is the last registration.** -/
theorem findFn_registerAll (calls : List (Registration σ)) (name : CString) (nparams : Int32) :
    (findFn (registerAll calls) name nparams).map Fn.fp = mostRecent calls name nparams := by
  induction calls using List.reverseRecOn with
  | nil => rfl
  | append_singleton calls c ih =>
    rw [mostRecent] at ih ⊢
    rw [registerAll, List.foldl_append, List.foldl_cons, List.foldl_nil, ← registerAll,
      List.filter_append]
    obtain ⟨_ | fname, n, fp⟩ := c
    · simpa [registerProcedure] using ih
    · by_cases hmatch : name = fname ∧ nparams = n
      · obtain ⟨rfl, rfl⟩ := hmatch
        simp [registerProcedure, findFn]
      · have hmatch' : ¬ (fname = name ∧ n = nparams) := fun h ↦ hmatch ⟨h.1.symm, h.2.symm⟩
        simpa [registerProcedure, findFn, hmatch, hmatch'] using ih

/-! ## The theorem -/

/-- What the server does with a call it could read. -/
theorem exchanges_serveConnection {fnp : List (Fn σ)} {name : CString} {nparams : Int32}
    {args : List ArgType} {s s' : σ} {ret : ReturnType} (hname : name.strlen + 2 < 2 ^ 31)
    (hn : (args.length : ℤ) = nparams.toInt)
    (hcall : makeCall fnp name nparams args s = .ok (ret, s')) (hret : ret.Holds) :
    Exchanges (serveConnection fnp s) (callBytes name nparams args) (resultBytes ret)
      ⟨name, nparams, args, s'⟩ := by
  refine (exchanges_recvCall hname hn).read_last ?_
  refine (Exchanges.liftOk hcall).read_last ?_
  exact (exchanges_returnResult hret).bind_pure fun _ ↦ (⟨name, nparams, args, s'⟩ : Served σ)

/-- A remote call, for any procedure the server knows or does not know. -/
theorem makeRemoteCall_eq {fnp : List (Fn σ)} (cuts : Cuts) {name : CString} {nparams : Int32}
    {params : List Param} {args : List ArgType} {s s' : σ} {ret : ReturnType}
    (hname : name.strlen + 2 < 2 ^ 31) (hn : (args.length : ℤ) = nparams.toInt)
    (hparams : List.Forall₂ Param.Passes params args)
    (hcall : makeCall fnp name nparams args s = .ok (ret, s')) (hret : ret.Holds) :
    makeRemoteCall cuts fnp name nparams params s
      = .ok (⟨name, nparams, args, s'⟩, ret.received, [], []) := by
  have hsend := exchanges_sendParams hparams
  rw [hparams.length_eq, ← Int.toNat_natCast args.length, hn] at hsend
  exact converse_eq cuts (exchanges_sendCall (by omega) hsend)
    (exchanges_serveConnection hname hn hcall hret) (exchanges_recvResult hret)

/-- When the handler does not come back, neither does the client. -/
theorem makeRemoteCall_eq_error {fnp : List (Fn σ)} (cuts : Cuts) {name : CString}
    {nparams : Int32} {params : List Param} {args : List ArgType} {s : σ} {f : Fault}
    (hname : name.strlen + 2 < 2 ^ 31) (hn : (args.length : ℤ) = nparams.toInt)
    (hparams : List.Forall₂ Param.Passes params args)
    (hcall : makeCall fnp name nparams args s = .error f) :
    makeRemoteCall cuts fnp name nparams params s = .error f := by
  have hsend := exchanges_sendParams hparams
  rw [hparams.length_eq, ← Int.toNat_natCast args.length, hn] at hsend
  have hfail : Fails (serveConnection fnp s) (callBytes name nparams args ++ []) f :=
    (exchanges_recvCall hname hn).bind_fails ((Fails.liftError hcall []).bind _)
  rw [List.append_nil] at hfail
  exact converse_eq_error cuts (exchanges_sendCall (by omega) hsend) hfail

/-! ## Sizes that are not positive -/

theorem fails_recvArgs {size : Int32} (hsize : ¬ 0 < size.toInt) (args acc : List ArgType)
    (n : ℕ) : Fails (recvArgs (args.length + (n + 1)) acc)
      (args.flatMap argBytes ++ intBytes size) .exit := by
  induction args generalizing acc with
  | nil =>
    have hzero : ([] : List ArgType).length + (n + 1) = n + 1 := by simp
    rw [hzero, recvArgs, List.flatMap_nil, List.nil_append, ← List.append_nil (intBytes size)]
    refine (exchanges_recvInt size).bind_fails ?_
    rw [dif_neg hsize]
    exact .throw _ _
  | cons a args ih =>
    have hlen : a.argVal.length = a.argSize.toInt.toNat := by
      have := a.size_eq
      omega
    rw [List.length_cons, Nat.add_right_comm, recvArgs, List.flatMap_cons, argBytes,
      List.append_assoc, List.append_assoc]
    refine (exchanges_recvInt a.argSize).bind_fails ?_
    rw [dif_pos a.size_pos]
    exact (exchanges_recvbytes hlen).bind_fails (ih _)

/-- **The server exits** when it is sent an argument whose size is not positive, after whatever
arguments and before whatever else can be sent. -/
theorem makeRemoteCall_exit {fnp : List (Fn σ)} (cuts : Cuts) {name : CString} {nparams : Int32}
    {params rest : List Param} {args : List ArgType} {p : Param} {bs : Bytes} {s : σ}
    (hname : name.strlen + 2 < 2 ^ 31) (hparams : List.Forall₂ Param.Passes params args)
    (hsize : ¬ 0 < p.psize.toInt) (hrest : Exchanges (sendParams rest.length rest) [] bs ())
    (hn : nparams.toInt = params.length + (rest.length + 1)) :
    makeRemoteCall cuts fnp name nparams (params ++ p :: rest) s = .error .exit := by
  have hcount : nparams.toInt.toNat = params.length + (rest.length + 1) := by
    omega
  have hnothing : Exchanges (sendbytes p.pval p.psize) [] [] () :=
    exchanges_sendbytes List.nil_prefix (by rw [Int.toNat_of_nonpos (by omega)]; rfl)
  have hsend : Exchanges (sendParams (rest.length + 1) (p :: rest)) [] (intBytes p.psize ++ bs) () :=
    (exchanges_sendInt p.psize).bind_nil (hnothing.bind_nil hrest)
  have hparams' := exchanges_sendParams_append hparams hsend
  rw [← hcount] at hparams'
  have hneg : ¬ nparams < 0 := by
    rw [Int32.lt_iff_toInt_lt, Int32.toInt_zero]
    omega
  have hargs := (fails_recvArgs hsize args [] rest.length).append bs
  rw [← hparams.length_eq, ← hcount, List.append_assoc] at hargs
  exact converse_eq_error cuts (exchanges_sendCall (by omega) hparams')
    (((reads_recvCall hname hneg).fails (hargs.bind _)).bind _)

/-- **Transparency of remote calls.**  Whatever has been registered, for a name of at most
`2 ^ 31 - 3` characters, any arguments, and any cutting of the stream: the server decodes the name,
the count and the arguments as they were passed, runs the handler registered last for that name and
count, and the client returns the handler's size and bytes, or `(NULL, 0)` when the size is not
positive or there is no handler.  Neither side leaves anything unread. -/
theorem rpc_transparency (calls : List (Registration σ)) (cuts : Cuts) {name : CString}
    (hname : name.strlen ≤ 2 ^ 31 - 3) {nparams : Int32} {params : List Param}
    {args : List ArgType} (hn : (args.length : ℤ) = nparams.toInt)
    (hparams : List.Forall₂ Param.Passes params args) (s : σ) :
    (∀ fp ret s', mostRecent calls name nparams = some fp →
      fp nparams args s = .ok (ret, s') → ret.Holds →
      makeRemoteCall cuts (registerAll calls) name nparams params s
        = .ok (⟨name, nparams, args, s'⟩, ret.received, [], [])) ∧
    (mostRecent calls name nparams = none →
      makeRemoteCall cuts (registerAll calls) name nparams params s
        = .ok (⟨name, nparams, args, s⟩, .null, [], [])) := by
  have hfind := findFn_registerAll calls name nparams
  have hname' : name.strlen + 2 < 2 ^ 31 := by omega
  constructor
  · intro fp ret s' hfp hrun hret
    refine makeRemoteCall_eq cuts hname' hn hparams ?_ hret
    rw [hfp, Option.map_eq_some_iff] at hfind
    obtain ⟨f, hf, rfl⟩ := hfind
    rw [makeCall, hf]
    exact hrun
  · intro hnone
    have hnull : ReturnType.null.Holds := fun h ↦ absurd h (by decide)
    refine makeRemoteCall_eq cuts hname' hn hparams ?_ hnull
    rw [hnone, Option.map_eq_none_iff] at hfind
    rw [makeCall, hfind]

/-- A handler that sends its last argument back and counts its calls. -/
def echo : FpType ℕ := fun _ a s ↦
  match a.getLast? with
  | none => .ok (.null, s + 1)
  | some x => .ok (⟨some x.argVal, x.argSize, 0⟩, s + 1)

/-- Two arguments, sent and received in pieces of one and two bytes. -/
theorem rpc_transparency_of_echo :
    makeRemoteCall ⟨[1, 1, 2], [2, 1], [1], [1, 2, 1]⟩
      (registerAll [⟨some (.lit "echo"), 2, fun _ _ s ↦ .ok (.null, s)⟩,
        ⟨some (.lit "echo"), 2, echo⟩, ⟨none, 2, echo⟩])
      (.lit "echo") 2 [⟨4, intBytes 7⟩, ⟨4, intBytes 8 ++ [0, 0]⟩] 5
      = .ok (⟨.lit "echo", 2, [.int 7, .int 8], 6⟩, .int 8, [], []) := by
  have hparams : List.Forall₂ Param.Passes
      [⟨4, intBytes 7⟩, ⟨4, intBytes 8 ++ [0, 0]⟩] [.int 7, .int 8] :=
    .cons ⟨rfl, List.prefix_rfl⟩ (.cons ⟨rfl, List.prefix_append _ _⟩ .nil)
  exact (rpc_transparency _ _ (by decide) (by decide) hparams 5).1 echo (.int 8) 6 rfl rfl
    fun _ ↦ ⟨intBytes 8, rfl, by decide⟩

/-! ## Names that are too long -/

/-- The length of a name of `2 ^ 31 - 1` characters, terminator included, is negative as an `int`,
and the server exits. -/
theorem name_too_long :
    ∃ name : CString, name.strlen = 2 ^ 31 - 1 ∧ ∀ cuts : Cuts,
      makeRemoteCall cuts (registerAll ([] : List (Registration Unit))) name 0 [] ()
        = .error .exit := by
  obtain ⟨name, hname⟩ := CString.exists_strlen (2 ^ 31 - 1)
  refine ⟨name, hname, fun cuts ↦ ?_⟩
  have hlen : Int32.ofNat (name.strlen + 1) = -2147483648 := by rw [hname]; rfl
  have hnothing : Exchanges (sendbytes name.mem (-2147483648)) [] [] () :=
    exchanges_sendbytes List.nil_prefix rfl
  have hsend : Exchanges (sendCall name 0 []) []
      (intBytes (-2147483648) ++ ([] ++ (intBytes 0 ++ []))) () := by
    rw [sendCall, hlen]
    exact (exchanges_sendInt _).bind_nil (hnothing.bind_nil
      ((exchanges_sendInt 0).bind_nil (.pure ())))
  have hrecv : Fails recvCall (intBytes (-2147483648) ++ ([] ++ (intBytes 0 ++ []))) .exit :=
    (exchanges_recvInt _).bind_fails (.throw _ _)
  exact converse_eq_error cuts hsend (hrecv.bind _)

end RemoteFs
