import RemoteFs.Datagram.Transparency

/-!
# The sample server of the first assignment

`server.c` of the directory `1` registers three procedures.  `concat` appends its second string to the
first one, in the block the first one was received in, and that block is as large as the client has said.

* `strcat_eq`: it goes well when the block has room for both strings and the terminator.
* `concat_remotely`: the same, seen from the client.  A client that passes its first string with its
  terminator and nothing else, as `client.c` does, makes the server write past the end of the block,
  unless the second string is empty.

The globals `ret_int` and `r` are left out: each procedure writes what it returns.
-/

set_option autoImplicit false

namespace RemoteFs.Datagram
namespace Sample

open OnBlock

/-! ## The procedures -/

/-- The `i`-th node of an argument list. -/
def argAt (a : List ArgType) (i : ℕ) : Except Fault ArgType :=
  match a[i]? with
  | some x => .ok x
  | none => .error .nullDeref

/-- A reply that is one `int`. -/
def intResult (n : Int32) : ReturnType := ⟨some (intBytes n), sizeofInt⟩

/-- `nop`. -/
def nop : FpType Unit := fun nparams _ u ↦
  if nparams ≠ 0 then .ok (.null, u) else .ok (intResult 189998, u)

/-- `add`. -/
def add : FpType Unit := fun nparams a u ↦
  if nparams ≠ 2 then .ok (.null, u)
  else do
    let x ← argAt a 0
    if x.argSize ≠ sizeofInt then return (.null, u)
    let y ← argAt a 1
    if y.argSize ≠ sizeofInt then return (.null, u)
    let i ← intAt x.argVal
    let j ← intAt y.argVal
    return (intResult (i + j), u)

/-- `strcat`, of two strings that begin their blocks: the first block afterwards. -/
def strcat (i j : Bytes) : Except Fault Bytes :=
  match CString.at? i, CString.at? j with
  | some s, some t => (copyIn s.strlen t.mem t.mem.length).exec i
  | _, _ => .error .overread

/-- `concat`. -/
def concat : FpType Unit := fun nparams a u ↦
  if nparams ≠ 2 then .ok (.null, u)
  else do
    let x ← argAt a 0
    let y ← argAt a 1
    let ret ← strcat x.argVal y.argVal
    return (⟨some ret, Int32.ofNat (CString.upTo ret).strlen⟩, u)

/-- The calls of `register_procedure` in `main`. -/
def registrations : List (Registration Unit) :=
  [⟨some (.lit "addtwo"), 2, add⟩, ⟨some (.lit "concat"), 2, concat⟩, ⟨some (.lit "nop"), 0, nop⟩]

/-- The server between two datagrams. -/
def server (buf : Buf) : Server Unit := ⟨registerAll registrations, buf, .null, ()⟩

/-! ## Appending -/

section
variable {i j : Bytes} {s t : CString}

/-- A block begins with its string. -/
theorem take_strlen (hs : CString.at? i = some s) : i.take s.strlen = s.chars := by
  rw [← CString.upTo_of_at? hs]
  exact (List.prefix_iff_eq_take.mp (List.takeWhile_prefix _)).symm

/-- The strings as one. -/
def append (s t : CString) : CString :=
  ⟨s.chars ++ t.chars, fun h ↦ (List.mem_append.mp h).elim s.noNul t.noNul⟩

theorem strlen_append (s t : CString) : (append s t).strlen = s.strlen + t.strlen :=
  List.length_append

/-- **Appending needs room for both strings and the terminator**, in the block of the first. -/
theorem strcat_eq (hs : CString.at? i = some s) (ht : CString.at? j = some t) :
    strcat i j = if s.strlen + t.strlen < i.length
      then .ok ((append s t).mem ++ i.drop (s.strlen + t.strlen + 1)) else .error .overflow := by
  have hmem := CString.length_mem t
  simp only [strcat, hs, ht]
  split
  · rename_i hroom
    refine copyIn_exec_eq_ok.mpr ⟨⟨by omega, by omega⟩, by omega, ?_⟩
    rw [Int.toNat_natCast, List.take_length, splice, take_strlen hs, hmem, ← Nat.add_assoc]
    simp only [CString.mem, append, List.append_assoc]
  · rename_i hfull
    have hout : ¬ Access.Inside i.length ⟨s.strlen, t.mem.length⟩ := by
      rintro ⟨-, hle⟩
      simp only at hle
      omega
    rw [copyIn, if_neg (by omega), exec, OnBlock.write, if_neg hout]
    rfl

end

/-! ## Calls -/

section
variable {σ : Type}

/-- A call whose procedure faults. -/
theorem makeRemoteCall_eq_error {x : Call} {c : ClientMem} {m : ServerMem} {srv : Server σ} {n : Node σ}
    {f : Fault} (hfits : x.Fits) (hargs : srv.args = .null)
    (hfind : find srv.functionList x.procedureName = some n)
    (hrun : n.fp x.nparams x.request.args srv.state = .error f) :
    makeRemoteCall c m srv x.procedureName x.nparams (x.params.map Subtype.val) = .error f := by
  obtain ⟨hname, hlen⟩ := hfits
  obtain ⟨d, hput, hpre, hd⟩ := (puts_putCall x).exec_eq_ok (b := c.buf.1) (by rw [c.buf.2]; omega)
  rw [c.buf.2] at hd
  have hdecode : (decode srv.args (recvfrom srv.buf d).1).result = .ok x.request := by
    rw [hargs, recvfrom_of_eq srv.buf hd]
    exact ((parses_decode d (Nat.zero_le _)).2.2 x.request _
      ⟨Call.Fits.complete ⟨hname, hlen⟩, rfl⟩ hpre).1
  have hfunc : CString.upTo x.request.funcName = x.procedureName := CString.upTo_chars _
  have hanswer : answer srv.functionList m x.request srv.state = .error f := by
    rw [answer, hfunc, hfind]
    show n.fp x.nparams x.request.args srv.state >>= _ = _
    rw [hrun]
    rfl
  have hstep : srv.step m d = .error f := by
    rcases d with _ | ⟨b, d⟩
    · exact absurd hd (by decide)
    · simp only [Server.step, hdecode, ok_bind, hanswer]
      rfl
  rw [makeRemoteCall, hput, ok_bind, hstep]
  rfl

end

/-- `make_remote_call(…, "concat", 2, …)`. -/
def concatCall (p q : { p : Param // Datagram.Holds p }) : Call := ⟨.lit "concat", 2, [p, q], rfl⟩

section
variable {p q : { p : Param // Datagram.Holds p }} {s t : CString}

theorem find_concat (buf : Buf) :
    find (server buf).functionList (concatCall p q).procedureName = some ⟨.lit "concat", 2, concat⟩ :=
  rfl

theorem concat_eq (hs : CString.at? (argOf p).argVal = some s)
    (ht : CString.at? (argOf q).argVal = some t) :
    concat 2 (concatCall p q).request.args () =
      if s.strlen + t.strlen < (argOf p).argVal.length then
        .ok (⟨some ((append s t).mem ++ (argOf p).argVal.drop (s.strlen + t.strlen + 1)),
          Int32.ofNat (s.strlen + t.strlen)⟩, ())
      else .error .overflow := by
  have hargs : (concatCall p q).request.args = [argOf p, argOf q] := rfl
  show (strcat (argOf p).argVal (argOf q).argVal >>= fun ret ↦
    Except.ok ((⟨some ret, Int32.ofNat (CString.upTo ret).strlen⟩ : ReturnType), ())) = _
  rw [strcat_eq hs ht]
  split
  · rw [ok_bind, CString.upTo_mem_append, strlen_append]
  · rfl

/-- **Appending from afar.**  For any two blocks that begin with a string: the client gets both strings,
without a terminator, if the first block has room for both and a terminator, and otherwise the server
writes past its end. -/
theorem concat_remotely (c : ClientMem) (m : ServerMem) (buf : Buf) (hfits : (concatCall p q).Fits)
    (hs : CString.at? (argOf p).argVal = some s) (ht : CString.at? (argOf q).argVal = some t) :
    (s.strlen + t.strlen < (argOf p).argVal.length → ∃ buf',
      makeRemoteCall c m (server buf) (.lit "concat") 2 [p.1, q.1]
        = .ok ((concatCall p q).request,
          ⟨some (s.chars ++ t.chars), Int32.ofNat (s.strlen + t.strlen)⟩, server buf')) ∧
      (¬ s.strlen + t.strlen < (argOf p).argVal.length →
        makeRemoteCall c m (server buf) (.lit "concat") 2 [p.1, q.1] = .error .overflow) := by
  have hconcat := concat_eq hs ht
  constructor
  · intro hroom
    rw [if_pos hroom] at hconcat
    -- the first block fits into the request, and the result into the first block
    have hsmall : (argOf p).argVal.length + 26 ≤ bufSize := by
      have hlen := hfits.2
      have hp : p.1.psize.toInt.toNat = (argOf p).argVal.length := (argOf p).toNat_argSize
      have henc : (concatCall p q).encodedLength
          = 4 + 8 + 6 + (4 + p.1.psize.toInt.toNat + (4 + q.1.psize.toInt.toNat + 0)) := rfl
      omega
    rw [bufSize] at hsmall
    have hsize : (Int32.ofNat (s.strlen + t.strlen)).toInt = (s.strlen + t.strlen : ℕ) :=
      toInt_ofNat_of_lt (by omega)
    have hlen : ((append s t).mem ++ (argOf p).argVal.drop (s.strlen + t.strlen + 1)).length
        = (argOf p).argVal.length := by
      rw [List.length_append, CString.length_mem, strlen_append, List.length_drop]
      omega
    have hret : (⟨some ((append s t).mem ++ (argOf p).argVal.drop (s.strlen + t.strlen + 1)),
        Int32.ofNat (s.strlen + t.strlen)⟩ : ReturnType).Fits := by
      refine ⟨⟨?_, ?_⟩, ?_⟩
      · rw [hsize]
        omega
      · rw [hsize, Option.getD_some, hlen]
        omega
      · rw [hsize, bufSize]
        omega
    obtain ⟨buf', hcall⟩ := makeRemoteCall_eq hfits rfl (find_concat buf) hconcat hret
    refine ⟨buf', hcall.trans ?_⟩
    have hval : (append s t).chars = s.chars ++ t.chars := rfl
    rw [ReturnType.received, ReturnType.val, hsize, Int.toNat_natCast, Option.getD_some, CString.mem,
      ← strlen_append, CString.strlen, List.append_assoc, List.take_left, hval]
    rfl
  · intro hfull
    rw [if_neg hfull] at hconcat
    have hcall := makeRemoteCall_eq_error (c := c) (m := m) hfits rfl (find_concat buf) hconcat
    exact hcall

end

/-- The blocks that `client.c` passes, each as long as its string with the terminator. -/
def hello : { p : Param // Datagram.Holds p } :=
  ⟨⟨12, (CString.lit "Hello work!").mem⟩, ⟨by decide, by decide⟩⟩

def sentence : { p : Param // Datagram.Holds p } :=
  ⟨⟨26, (CString.lit "This sentence has 6 words").mem⟩, ⟨by decide, by decide⟩⟩

/-- The call that `client.c` makes. -/
theorem concat_remotely_of_hello :
    makeRemoteCall someClientMem someServerMem (server (.fill 9)) (.lit "concat") 2
      [hello.1, sentence.1] = .error .overflow := by
  have hs : CString.at? (argOf hello).argVal = some (.lit "Hello work!") := by decide
  have ht : CString.at? (argOf sentence).argVal = some (.lit "This sentence has 6 words") := by decide
  have hname : (concatCall hello sentence).procedureName.strlen = 6 := rfl
  have hlen : (concatCall hello sentence).encodedLength = 64 := rfl
  have hfull : ¬ (CString.lit "Hello work!").strlen + (CString.lit "This sentence has 6 words").strlen
      < (argOf hello).argVal.length := Nat.not_lt.mpr (Nat.le_add_right 12 24)
  refine (concat_remotely someClientMem someServerMem (.fill 9) ⟨?_, ?_⟩ hs ht).2 hfull
  · rw [hname, bufSize]
    omega
  · rw [hlen, bufSize]
    omega

end Sample
end RemoteFs.Datagram
