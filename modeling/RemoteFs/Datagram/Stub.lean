import RemoteFs.Lib.Block
import RemoteFs.Lib.LittleEndian
import RemoteFs.Rpc.Stub

/-!
# The stubs of the first assignment

Before there was a file system there was a remote call over datagrams: `client_stub.c`,
`server_stub.c` and `queue.c` of the directory `1`.  A call is one datagram of 4096 bytes, and so is a
result.  Both stubs put them together in a buffer on the stack, at an index they advance, and take
them apart the same way, so here they are programs on a block of memory.

Nothing is ever cleared.  The server's receive buffer is part of the `Server`, since what a datagram
does not reach stays as the one before left it.  What the other buffers hold when a call comes to
them is not known: it is a `ClientMem` and a `ServerMem`, and so are the address a result is kept at
and the padding of `return_type`, which are sent along.

The indices are natural numbers.  The `int` and the `unsigned int` of the source could wrap only
after a copy far outside the buffer, and that is a fault before.  Looking up the host, binding the
socket and printing the address are left out; sending and receiving do not fail.
-/

set_option autoImplicit false

namespace RemoteFs.Datagram

/-! ## `ece454rpc_types.h` -/

/-- `BUF_SIZE`. -/
def bufSize : ℕ := 4096

/-- `char buf[BUF_SIZE]`. -/
abbrev Buf : Type := { b : Bytes // b.length = bufSize }

/-- `arg_type` without the link: a block of memory and its size. -/
structure ArgType where
  /-- The block `arg_val` points to. -/
  argVal : Bytes
  argSize : Int32
  /-- The block is as long as announced. -/
  size_eq : (argVal.length : ℤ) = argSize.toInt

/-- `return_type`. -/
structure ReturnType where
  /-- The bytes `return_val` points to, if it is not `NULL`. -/
  returnVal : Option Bytes
  returnSize : Int32
  deriving DecidableEq

/-- `return_val = NULL; return_size = 0`. -/
def ReturnType.null : ReturnType := ⟨none, 0⟩

/-- `fp_type`, for a server whose globals are a `σ`. -/
abbrev FpType (σ : Type) : Type :=
  Int32 → List ArgType → σ → Except Fault (ReturnType × σ)

/-- `node` without the link. -/
structure Node (σ : Type) where
  name : CString
  nparams : Int32
  fp : FpType σ

/-! ## Memory -/

abbrev OnBuf (α : Type) : Type := OnBlock Fault UInt8 α

/-- `memcpy(buf + off, src, size)`. -/
def copyIn (off : ℕ) (src : Bytes) (size : ℤ) : OnBuf Unit :=
  if src.length < size then .lift (.error .overread) else .write .overflow off size src

/-- `memcpy(&n, buf + off, sizeof(int))`. -/
def readInt (off : ℕ) : OnBuf Int32 := do
  let bs ← OnBlock.read .overread off 4
  .lift (intAt bs.1)

/-- `memcpy(&n, buf + off, sizeof(size_t))`. -/
def readSize (off : ℕ) : OnBuf ℕ := do
  let bs ← OnBlock.read .overread off 8
  pure (ofLeBytes bs.1)

theorem length_recvfrom (buf : Buf) (d : Bytes) :
    (d.take bufSize ++ buf.1.drop d.length).length = bufSize := by
  rw [List.length_append, List.length_take, List.length_drop, buf.2]
  omega

/-- `recvfrom` and `recv`: the datagram, as far as it fits, is put over the front of the buffer. -/
def recvfrom (buf : Buf) (d : Bytes) : Buf :=
  ⟨d.take bufSize ++ buf.1.drop d.length, length_recvfrom buf d⟩

/-! ## `queue.c` -/

section
variable {σ : Type}

/-- `find`: by name, the parameter count is not looked at. -/
def find : List (Node σ) → CString → Option (Node σ)
  | [], _ => none
  | n :: rest, name => if name = n.name then some n else find rest name

end

/-! ## The client -/

/-- The buffers on the stack of `make_remote_call`, as it finds them. -/
structure ClientMem where
  buf : Buf
  read : Buf

/-- The loop over the variable arguments; taking one that was not passed is a fault. -/
def putParams : ℕ → ℕ → List Param → OnBuf Unit
  | 0, _, _ => pure ()
  | _ + 1, _, [] => .lift (.error .overread)
  | n + 1, i, p :: ps => do
    copyIn i (intBytes p.psize) 4
    copyIn (i + 4) p.pval p.psize.toInt
    putParams n (i + 4 + p.psize.toInt.toNat) ps

/-- The half of `make_remote_call` that fills the request buffer. -/
def putCall (procedureName : CString) (nparams : Int32) (params : List Param) : OnBuf Unit := do
  let length := procedureName.strlen
  copyIn 0 (intBytes nparams) 4
  copyIn 4 (leBytes 8 length) 8
  -- `strcpy` takes the terminator along, the index does not count it
  copyIn 12 procedureName.mem (length + 1)
  putParams nparams.toInt.toNat (12 + length) params

/-- The half of `make_remote_call` that takes the result out of the reply. -/
def takeResult : OnBuf ReturnType := do
  let ret ← OnBlock.read .overread 0 16
  let returnSize ← OnBlock.lift (intAt (ret.1.drop 8))
  let returnVal ← OnBlock.read .overread 16 returnSize.toInt
  pure ⟨some returnVal.1, returnSize⟩

/-! ## The server -/

/-- The globals `arg_list` and `current`: the list from its head, and the place of the node `current`
points to. -/
structure ArgList where
  argList : List ArgType
  current : ℕ

/-- `arg_list = current = NULL`. -/
def ArgList.null : ArgList := ⟨[], 0⟩

/-- `append`: the new node becomes the one after `current`. -/
def ArgList.append (l : ArgList) (p : ArgType) : ArgList :=
  match l.argList with
  | [] => ⟨[p], 0⟩
  | a :: as => ⟨(a :: as).take (l.current + 1) ++ [p], l.current + 1⟩

/-- What the server makes of a datagram. -/
structure Request where
  nparams : Int32
  funcName : Bytes
  args : List ArgType

/-- The loop of `launch_server` over the parameters. -/
def readParams : ℕ → ℕ → ArgList → OnBuf ArgList
  | 0, _, l => pure l
  | n + 1, i, l => do
    let paramSize ← readInt i
    let param ← OnBlock.read .overread (i + 4) paramSize.toInt
    readParams n (i + 4 + paramSize.toInt.toNat) (l.append ⟨param.1, paramSize, param.2⟩)

/-- The part of `launch_server` that takes a datagram apart. -/
def decode (l : ArgList) : OnBuf Request := do
  let nparams ← readInt 0
  let funcNameSize ← readSize 4
  let funcName ← OnBlock.read .overread 12 funcNameSize
  let args ← readParams nparams.toInt.toNat (12 + funcNameSize) l
  pure ⟨nparams, funcName.1, args.argList⟩

/-- What is not known when a request is answered. -/
structure ServerMem where
  /-- The reply buffer, as it is found. -/
  t : Buf
  /-- The bytes of the pointer to a result. -/
  address : { bs : Bytes // bs.length = 8 }
  /-- What `return_type` has after its `int`. -/
  padding : { bs : Bytes // bs.length = 4 }

/-- `return_type` in memory. -/
def ReturnType.mem (m : ServerMem) (ret : ReturnType) : Bytes :=
  (if ret.returnVal.isSome then m.address.1 else leBytes 8 0)
    ++ intBytes ret.returnSize ++ m.padding.1

/-- The copies into the reply buffer, when a procedure has returned `ret`, or when there is no procedure.
Behind `NULL` there are no bytes. -/
def putReply (m : ServerMem) : Option ReturnType → OnBuf Unit
  | some ret => do
    copyIn 0 (ret.mem m) 16
    copyIn 16 (ret.returnVal.getD []) ret.returnSize.toInt
  | none => copyIn 0 (ReturnType.null.mem m) 16

/-- The datagram sent back.  When there is no procedure the reply is a string for `sendto`, and ends at
the first NUL. -/
def reply (m : ServerMem) (ret : Option ReturnType) : Except Fault Bytes := do
  let t ← (putReply m ret).exec m.t.1
  pure (if ret.isSome then t else t.take (CString.upTo t).strlen)

section
variable {σ : Type}

/-- `register_procedure`. -/
def registerProcedure (functionList : List (Node σ)) (procedureName : Option CString)
    (nparams : Int32) (fnpointer : FpType σ) : Bool × List (Node σ) :=
  match procedureName with
  | none => (false, functionList)
  | some name => (true, ⟨name, nparams, fnpointer⟩ :: functionList)

/-- The state of the server between two datagrams. -/
structure Server (σ : Type) where
  functionList : List (Node σ)
  buf : Buf
  args : ArgList
  /-- The globals of the procedures. -/
  state : σ

/-- The procedure is found and called, or it is not; the datagram sent back, and the globals. -/
def answer (functionList : List (Node σ)) (m : ServerMem) (r : Request) (s : σ) :
    Except Fault (Bytes × σ) :=
  match find functionList (CString.upTo r.funcName) with
  | some n => do
    let (ret, s') ← n.fp r.nparams r.args s
    let d ← reply m (some ret)
    pure (d, s')
  | none => do
    let d ← reply m none
    pure (d, s)

/-- The body of the loop in `launch_server`: what became of the datagram, unless it was empty, and the
server afterwards. -/
def Server.step (m : ServerMem) (d : Bytes) (srv : Server σ) :
    Except Fault (Option (Request × Bytes) × Server σ) :=
  let buf := recvfrom srv.buf d
  match d with
  | [] => .ok (none, { srv with buf := buf })
  | _ :: _ => do
    let r ← (decode srv.args buf.1).result
    let (reply, s') ← answer srv.functionList m r srv.state
    pure (some (r, reply), { srv with buf := buf, args := .null, state := s' })

/-- `make_remote_call`, together with the server at the other end: what the server made of the call,
what the client returns, and the server afterwards.  Each datagram arrives, and arrives once. -/
def makeRemoteCall (c : ClientMem) (m : ServerMem) (srv : Server σ) (procedureName : CString)
    (nparams : Int32) (params : List Param) : Except Fault (Request × ReturnType × Server σ) := do
  let d ← (putCall procedureName nparams params).exec c.buf.1
  match ← srv.step m d with
  -- no reply is sent, and `recv` waits
  | (none, _) => throw .exit
  | (some (r, reply), srv') =>
    let ret ← (takeResult (recvfrom c.read reply).1).result
    pure (r, ret, srv')

end

end RemoteFs.Datagram
