import RemoteFs.Datagram.Stub

/-!
# What a datagram says

A request on the wire is `Request.encode`: the count, the length of the name in eight bytes, the name
without a terminator, and each argument behind its size.  The server's half of the stubs is a parser
for it (`parses_decode`), the client's half prints it (`puts_putCall`), and for both the words and the
cells they touch are the same, except that the client also needs a cell for the terminator of the
name.
-/

set_option autoImplicit false

namespace RemoteFs.Datagram

open OnBlock

/-! ## Words -/

/-- An argument on the wire. -/
def argBytes (a : ArgType) : Bytes := intBytes a.argSize ++ a.argVal

/-- A request on the wire. -/
def Request.encode (r : Request) : Bytes :=
  intBytes r.nparams ++ (leBytes 8 r.funcName.length ++ (r.funcName ++ r.args.flatMap argBytes))

/-- There is an argument for each one the count announces, and the length of the name is a
`size_t`. -/
def Request.Complete (r : Request) : Prop :=
  r.args.length = r.nparams.toInt.toNat ∧ r.funcName.length < 2 ^ (8 * 8)

theorem ArgType.toNat_argSize (a : ArgType) : a.argSize.toInt.toNat = a.argVal.length := by
  have := a.size_eq
  omega

/-! ## The list -/

theorem ArgList.foldl_append (args : List ArgType) {l : ArgList}
    (hl : l.argList ≠ [] → l.current + 1 = l.argList.length) :
    (args.foldl ArgList.append l).argList = l.argList ++ args := by
  induction args generalizing l with
  | nil => exact (List.append_nil _).symm
  | cons p args ih =>
    obtain ⟨as, k⟩ := l
    rw [List.foldl_cons]
    match as, hl with
    | [], _ => exact ih fun _ ↦ rfl
    | a :: as, hl =>
      have hlast : k + 1 = (a :: as).length := hl (List.cons_ne_nil _ _)
      have htake : (a :: as).take (k + 1) = a :: as := by rw [hlast, List.take_length]
      refine (ih fun _ ↦ ?_).trans ?_
      · simp only [append, htake, List.length_append, List.length_singleton]
        omega
      · simp only [append, htake, List.append_assoc, List.singleton_append]

/-- **A list started from `NULL` holds what was appended, in order.** -/
theorem ArgList.foldl_append_null (args : List ArgType) :
    (args.foldl ArgList.append .null).argList = args :=
  ArgList.foldl_append args fun h ↦ absurd rfl h

/-! ## The parser -/

theorem parses_readInt (i : ℕ) : Parses (readInt i) i fun n bs ↦ bs = intBytes n := by
  refine ((Parses.read _ i 4).bind fun a xs _ ↦ Parses.lift (intAt a.1) _).congr fun n bs ↦ ?_
  constructor
  · rintro ⟨⟨xs, hlen⟩, _, _, rfl, rfl, hint, rfl⟩
    rw [List.append_nil]
    exact (intBytes_eq_of_intAt hint (Int.ofNat.inj hlen)).symm
  · rintro rfl
    exact ⟨⟨intBytes n, rfl⟩, intBytes n, [], (List.append_nil _).symm, rfl, intAt_intBytes n, rfl⟩

theorem parses_readSize (i : ℕ) :
    Parses (readSize i) i fun n bs ↦ n < 2 ^ (8 * 8) ∧ bs = leBytes 8 n := by
  refine ((Parses.read _ i 8).bind fun a xs _ ↦ Parses.pure (ofLeBytes a.1) _).congr fun n bs ↦ ?_
  constructor
  · rintro ⟨⟨_, hlen⟩, xs, _, rfl, rfl, rfl, rfl⟩
    have hlen' : xs.length = 8 := Int.ofNat.inj hlen
    have hlt := ofLeBytes_lt xs
    have hbytes := leBytes_ofLeBytes xs
    rw [hlen'] at hlt hbytes
    exact ⟨hlt, by rw [List.append_nil, hbytes]⟩
  · rintro ⟨hlt, rfl⟩
    exact ⟨⟨leBytes 8 n, by rw [length_leBytes]; rfl⟩, leBytes 8 n, [], (List.append_nil _).symm,
      rfl, (ofLeBytes_leBytes hlt).symm, rfl⟩

theorem parses_readParams (n i : ℕ) (l : ArgList) : Parses (readParams n i l) i fun l' bs ↦
    ∃ args : List ArgType, args.length = n ∧
      l' = args.foldl ArgList.append l ∧ bs = args.flatMap argBytes := by
  induction n generalizing i l with
  | zero =>
    refine (Parses.pure l i).congr fun l' bs ↦ ⟨?_, ?_⟩
    · rintro ⟨rfl, rfl⟩
      exact ⟨[], rfl, rfl, rfl⟩
    · rintro ⟨args, hlen, rfl, rfl⟩
      rw [List.length_eq_zero_iff.mp hlen]
      exact ⟨rfl, rfl⟩
  | succ n ih =>
    have hnext {size : Int32} (param : { bs : Bytes // (bs.length : ℤ) = size.toInt }) :
        i + 4 + size.toInt.toNat = i + 4 + param.1.length := by
      have := param.2
      omega
    have hparam (size : Int32) (xs : Bytes) (hxs : xs = intBytes size) :
        Parses (OnBlock.read .overread (i + 4) size.toInt >>= fun param ↦
            readParams n (i + 4 + size.toInt.toNat) (l.append ⟨param.1, size, param.2⟩))
          (i + xs.length) fun l' bs ↦ ∃ (a : ArgType) (args : List ArgType), a.argSize = size ∧
            args.length = n ∧ l' = args.foldl ArgList.append (l.append a) ∧
            bs = a.argVal ++ args.flatMap argBytes := by
      rw [hxs, length_intBytes]
      refine ((Parses.read _ (i + 4) _).bind fun param ys hys ↦ (ih (i + 4 + size.toInt.toNat)
        (l.append ⟨param.1, size, param.2⟩)).cast (hys ▸ hnext param)).congr fun l' bs ↦ ⟨?_, ?_⟩
      · rintro ⟨param, _, _, rfl, rfl, args, hlen, rfl, rfl⟩
        exact ⟨⟨param.1, size, param.2⟩, args, rfl, hlen, rfl, rfl⟩
      · rintro ⟨a, args, rfl, hlen, rfl, rfl⟩
        exact ⟨⟨a.argVal, a.size_eq⟩, _, _, rfl, rfl, args, hlen, rfl, rfl⟩
    refine ((parses_readInt i).bind fun size xs hxs ↦ hparam size xs hxs).congr
      fun l' bs ↦ ⟨?_, ?_⟩
    · rintro ⟨_, _, _, rfl, rfl, a, args, rfl, rfl, rfl, rfl⟩
      refine ⟨a :: args, rfl, rfl, ?_⟩
      rw [List.flatMap_cons, argBytes, List.append_assoc]
    · rintro ⟨args, hlen, rfl, rfl⟩
      match args, hlen with
      | a :: args, hlen =>
        refine ⟨a.argSize, _, _, ?_, rfl, a, args, rfl, Nat.succ.inj hlen, rfl, rfl⟩
        rw [List.flatMap_cons, argBytes, List.append_assoc]

/-- **The server reads requests.**  It takes a block for a request exactly when the block begins with
the request, and looks at no cell behind it. -/
theorem parses_decode :
    Parses (decode .null) 0 fun r bs ↦ r.Complete ∧ bs = r.encode := by
  have hargs (n : Int32) (name : Bytes) (i : ℕ) :
      Parses (readParams n.toInt.toNat i .null >>= fun l ↦
          pure (⟨n, name, l.argList⟩ : Request)) i fun r bs ↦
        r.nparams = n ∧ r.funcName = name ∧ r.args.length = n.toInt.toNat ∧
          bs = r.args.flatMap argBytes := by
    refine ((parses_readParams n.toInt.toNat i .null).bind fun l xs _ ↦
      Parses.pure (⟨n, name, l.argList⟩ : Request) _).congr fun r bs ↦ ⟨?_, ?_⟩
    · rintro ⟨_, _, _, rfl, ⟨args, hlen, rfl, rfl⟩, rfl, rfl⟩
      rw [List.append_nil, ArgList.foldl_append_null]
      exact ⟨rfl, rfl, hlen, rfl⟩
    · obtain ⟨n', name', args⟩ := r
      rintro ⟨rfl, rfl, hlen, rfl⟩
      refine ⟨_, _, _, (List.append_nil _).symm, ⟨args, hlen, rfl, rfl⟩, ?_, rfl⟩
      rw [ArgList.foldl_append_null]
  have hname (n : Int32) (size : ℕ) (xs : Bytes) (hxs : size < 2 ^ (8 * 8) ∧ xs = leBytes 8 size) :
      Parses (OnBlock.read .overread 12 size >>= fun funcName ↦
          readParams n.toInt.toNat (12 + size) .null >>= fun l ↦
            pure (⟨n, funcName.1, l.argList⟩ : Request))
        (4 + xs.length) fun r bs ↦ r.nparams = n ∧ r.funcName.length = size ∧ r.Complete ∧
          bs = r.funcName ++ r.args.flatMap argBytes := by
    rw [hxs.2, length_leBytes]
    have hnext (name : { bs : Bytes // (bs.length : ℤ) = size }) : 12 + size = 12 + name.1.length :=
      congrArg (12 + ·) (Int.ofNat.inj name.2).symm
    refine ((Parses.read _ 12 size).bind fun name ys hys ↦
      (hargs n name.1 (12 + size)).cast (hys ▸ hnext name)).congr fun r bs ↦ ⟨?_, ?_⟩
    · rintro ⟨name, _, _, rfl, rfl, rfl, hfunc, hlen, rfl⟩
      have hsize : r.funcName.length = size := by
        rw [hfunc]
        exact Int.ofNat.inj name.2
      exact ⟨rfl, hsize, ⟨hlen, hsize ▸ hxs.1⟩, by rw [hfunc]⟩
    · rintro ⟨rfl, rfl, hr, rfl⟩
      exact ⟨⟨r.funcName, rfl⟩, _, _, rfl, rfl, rfl, rfl, hr.1, rfl⟩
  have hcount (n : Int32) (xs : Bytes) (hxs : xs = intBytes n) :
      Parses (readSize 4 >>= fun size ↦ OnBlock.read .overread 12 size >>= fun funcName ↦
          readParams n.toInt.toNat (12 + size) .null >>= fun l ↦
            pure (⟨n, funcName.1, l.argList⟩ : Request))
        (0 + xs.length) fun r bs ↦ r.nparams = n ∧ r.Complete ∧
          bs = leBytes 8 r.funcName.length ++ (r.funcName ++ r.args.flatMap argBytes) := by
    rw [hxs, length_intBytes]
    refine ((parses_readSize 4).bind fun size ys hys ↦ hname n size ys hys).congr
      fun r bs ↦ ⟨?_, ?_⟩
    · rintro ⟨_, _, _, rfl, ⟨hlt, rfl⟩, rfl, rfl, hr, rfl⟩
      exact ⟨rfl, hr, rfl⟩
    · rintro ⟨rfl, hr, rfl⟩
      exact ⟨_, _, _, rfl, ⟨hr.2, rfl⟩, rfl, rfl, hr, rfl⟩
  refine ((parses_readInt 0).bind fun n xs hxs ↦ hcount n xs hxs).congr fun r bs ↦ ⟨?_, ?_⟩
  · rintro ⟨_, _, _, rfl, rfl, rfl, hr, rfl⟩
    exact ⟨hr, rfl⟩
  · rintro ⟨hr, rfl⟩
    exact ⟨_, _, _, rfl, rfl, rfl, hr, rfl⟩

/-! ## The printer -/

/-- The pointer passed with a size leads to at least as many bytes. -/
def Holds (p : Param) : Prop := 0 ≤ p.psize.toInt ∧ p.psize.toInt ≤ p.pval.length

theorem length_take_of_holds {p : Param} (h : Holds p) :
    ((p.pval.take p.psize.toInt.toNat).length : ℤ) = p.psize.toInt := by
  obtain ⟨hpos, hle⟩ := h
  rw [List.length_take]
  omega

/-- The argument a size and a pointer stand for. -/
def argOf (p : { p : Param // Holds p }) : ArgType :=
  ⟨p.1.pval.take p.1.psize.toInt.toNat, p.1.psize, length_take_of_holds p.2⟩

/-- A call of `make_remote_call`: no size is negative, no block is shorter than its size, and there are
as many as the count says. -/
structure Call where
  procedureName : CString
  nparams : Int32
  params : List { p : Param // Holds p }
  count : params.length = nparams.toInt.toNat

/-- What the caller asks for. -/
def Call.request (c : Call) : Request := ⟨c.nparams, c.procedureName.chars, c.params.map argOf⟩

/-- Count and length of the name, the name, and each size with its bytes. -/
def Call.encodedLength (c : Call) : ℕ :=
  4 + 8 + c.procedureName.strlen + c.params.foldr (fun p n ↦ 4 + p.1.psize.toInt.toNat + n) 0

theorem length_argBytes_argOf (p : { p : Param // Holds p }) :
    (argBytes (argOf p)).length = 4 + p.1.psize.toInt.toNat := by
  rw [argBytes, List.length_append, length_intBytes, ← (argOf p).toNat_argSize]
  rfl

theorem length_flatMap_argBytes (params : List { p : Param // Holds p }) :
    ((params.map argOf).flatMap argBytes).length
      = params.foldr (fun p n ↦ 4 + p.1.psize.toInt.toNat + n) 0 := by
  induction params with
  | nil => rfl
  | cons p params ih =>
    rw [List.map_cons, List.flatMap_cons, List.length_append, length_argBytes_argOf, ih,
      List.foldr_cons]

theorem Call.length_encode (c : Call) : c.request.encode.length = c.encodedLength := by
  have hname : c.request.funcName.length = c.procedureName.strlen := rfl
  have hargs : (c.request.args.flatMap argBytes).length = _ := length_flatMap_argBytes c.params
  simp only [Request.encode, encodedLength, List.length_append, length_intBytes, length_leBytes,
    hname, hargs]
  omega

theorem puts_copyIn (i : ℕ) {src : Bytes} {size : ℤ} (hpos : 0 ≤ size) (hle : size ≤ src.length) :
    Puts (copyIn i src size) i (src.take size.toNat) (i + size.toNat) := by
  rw [copyIn, if_neg (by omega)]
  exact Puts.write _ i hpos hle

theorem puts_copyIn_self (i : ℕ) (src : Bytes) :
    Puts (copyIn i src src.length) i src (i + src.length) := by
  refine (puts_copyIn i (Int.natCast_nonneg _) (Int.le_refl _)).congr ?_ ?_
  · rw [Int.toNat_natCast, List.take_length]
  · rw [Int.toNat_natCast]

/-- A copy succeeds inside both blocks, and only there. -/
theorem copyIn_exec_eq_ok {off : ℕ} {src b b' : Bytes} {size : ℤ} :
    (copyIn off src size).exec b = .ok b' ↔ (0 ≤ size ∧ size ≤ src.length) ∧
      off + size ≤ b.length ∧ splice b off (src.take size.toNat) = b' := by
  by_cases hsrc : src.length < size
  · rw [copyIn, if_pos hsrc]
    refine iff_of_false (fun h ↦ ?_) fun h ↦ absurd h.1.2 (Int.not_le.mpr hsrc)
    cases h
  · rw [copyIn, if_neg hsrc, exec, OnBlock.write]
    by_cases hin : Access.Inside b.length ⟨off, size⟩
    · obtain ⟨hpos, hle⟩ := hin
      rw [if_pos ⟨hpos, hle⟩, and_iff_right ⟨hpos, Int.not_lt.mp hsrc⟩, and_iff_right hle]
      show (Except.ok _ : Except Fault Bytes) = .ok b' ↔ _
      rw [Except.ok.injEq]
    · rw [if_neg hin]
      refine iff_of_false (fun h ↦ ?_) fun h ↦ hin ⟨h.1.1, h.2.1⟩
      cases h

theorem puts_putParams (params : List { p : Param // Holds p }) (i : ℕ) :
    Puts (putParams params.length i (params.map Subtype.val)) i
      ((params.map argOf).flatMap argBytes)
      (i + ((params.map argOf).flatMap argBytes).length) := by
  induction params generalizing i with
  | nil => exact Puts.pure i
  | cons p params ih =>
    have hval : (argOf p).argVal.length = p.1.psize.toInt.toNat := by
      have := (argOf p).size_eq
      show _ = (argOf p).argSize.toInt.toNat
      omega
    refine ((puts_copyIn_self i (intBytes p.1.psize)).bind ((puts_copyIn (i + 4) p.2.1 p.2.2).bind
      ((ih (i + 4 + p.1.psize.toInt.toNat)).cast (congrArg _ hval.symm)))).congr ?_ ?_
    · rw [List.map_cons, List.flatMap_cons, argBytes, List.append_assoc]
      rfl
    · rw [List.map_cons, List.flatMap_cons, argBytes]
      simp only [List.length_append, length_intBytes, hval]
      show max (i + 4) _ = _
      omega

/-- **The client writes requests**, and needs a cell more than the header for the terminator of the
name. -/
theorem puts_putCall (c : Call) :
    Puts (putCall c.procedureName c.nparams (c.params.map Subtype.val)) 0 c.request.encode
      (max (13 + c.procedureName.strlen) c.encodedLength) := by
  have hname : Puts (copyIn 12 c.procedureName.mem (c.procedureName.strlen + 1)) 12
      c.procedureName.chars (13 + c.procedureName.strlen) := by
    have h := puts_copyIn_self 12 c.procedureName.mem
    rw [CString.length_mem] at h
    exact (h.congr rfl (by omega)).of_append
  have hparams := puts_putParams c.params (12 + c.procedureName.strlen)
  rw [c.count] at hparams
  have hsize := puts_copyIn_self 4 (leBytes 8 c.procedureName.strlen)
  rw [length_leBytes] at hsize
  refine ((puts_copyIn_self 0 (intBytes c.nparams)).bind (hsize.bind (hname.bind hparams))).congr
    rfl ?_
  rw [← c.length_encode, Request.encode]
  simp only [List.length_append, length_intBytes, length_leBytes]
  show max 4 (max 12 (max _ (12 + c.procedureName.strlen + (List.flatMap argBytes _).length)))
    = max _ (4 + (8 + (c.procedureName.strlen + _)))
  simp only [Call.request]
  omega

end RemoteFs.Datagram
