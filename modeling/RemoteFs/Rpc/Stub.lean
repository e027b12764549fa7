import RemoteFs.Lib.Session
import RemoteFs.Rpc.Types

/-!
# The two stubs

`client_stub.c` and `server_stub.c`, as sessions over one connection.  `makeRemoteCall` runs the
client's request, the server it reaches and the client's reading of the reply, for the pieces a
`Cuts` cuts the stream into.  Opening and closing the connection is left out, and so is what the
server prints.

`malloc` succeeds.  What the C code does with sizes is kept: a length is an `int`, also where it
comes from `strlen`; a size that is not positive moves no bytes; and `calloc(fnamelen + 1)`
overflows for the largest `int`, in which case the block is `NULL` and `memset` follows it.
-/

set_option autoImplicit false

namespace RemoteFs

/-! ## `helper.c` -/

/-- A program at one end of a connection. -/
abbrev Conn (β : Type) : Type := Session Fault UInt8 β

/-- `sendbytes`. -/
def sendbytes (buf : Bytes) (count : Int32) : Conn Unit :=
  if buf.length < count.toInt.toNat then throw .overread
  else Session.sendAll (buf.take count.toInt.toNat)

/-- `recvbytes`; a connection that ends early makes it exit. -/
def recvbytes (count : Int32) : Conn { bs : Bytes // bs.length = count.toInt.toNat } :=
  Session.recvAll .exit count.toInt.toNat

/-- `sendbytes(s, &n, sizeof(int))`. -/
def sendInt (n : Int32) : Conn Unit := sendbytes (intBytes n) sizeofInt

/-- `recvbytes(s, &n, sizeof(int))`. -/
def recvInt : Conn Int32 := do
  let bs ← recvbytes sizeofInt
  liftM (intAt bs.1)

/-! ## The client -/

/-- A size and a pointer, as they follow each other in the call of `make_remote_call`. -/
structure Param where
  psize : Int32
  /-- The block `pval` points to. -/
  pval : Bytes

/-- The loop over the variable arguments; taking one that was not passed is a fault. -/
def sendParams : ℕ → List Param → Conn Unit
  | 0, _ => pure ()
  | _ + 1, [] => throw .overread
  | n + 1, p :: ps => do
    sendInt p.psize
    sendbytes p.pval p.psize
    sendParams n ps

/-- The half of `make_remote_call` that sends. -/
def sendCall (procedureName : CString) (nparams : Int32) (params : List Param) : Conn Unit := do
  let procnamelen := Int32.ofNat (procedureName.strlen + 1)
  sendInt procnamelen
  sendbytes procedureName.mem procnamelen
  sendInt nparams
  sendParams nparams.toInt.toNat params

/-- The half of `make_remote_call` that gets the result. -/
def recvResult : Conn ReturnType := do
  let size ← recvInt
  if size < 0 then throw .exit
  else if size = 0 then return .null
  else
    let val ← recvbytes size
    return ⟨some val.1, size, 0⟩

/-! ## The server -/

/-- `fp_type`, for a server whose globals are a `σ`. -/
abbrev FpType (σ : Type) : Type :=
  Int32 → List ArgType → σ → Except Fault (ReturnType × σ)

/-- `struct fn`, without the link. -/
structure Fn (σ : Type) where
  fname : CString
  fp : FpType σ
  nparams : Int32

section
variable {σ : Type}

/-- `register_procedure`. -/
def registerProcedure (fnp : List (Fn σ)) (procedureName : Option CString) (nparams : Int32)
    (fnpointer : FpType σ) : Bool × List (Fn σ) :=
  match procedureName with
  | none => (false, fnp)
  | some name => (true, ⟨name, fnpointer, nparams⟩ :: fnp)

/-- The loop of `recvCall` over the arguments, each put at the end of the list. -/
def recvArgs : ℕ → List ArgType → Conn (List ArgType)
  | 0, a => pure a
  | n + 1, a => do
    let argSize ← recvInt
    if h : 0 < argSize.toInt then do
      let argVal ← recvbytes argSize
      recvArgs n (a ++ [⟨argVal.1, argSize, h,
        by rw [argVal.2, Int.toNat_of_nonneg (Int.le_of_lt h)]⟩])
    else throw .exit

/-- `recvCall`. -/
def recvCall : Conn (CString × Int32 × List ArgType) := do
  let fnamelen ← recvInt
  if fnamelen ≤ 0 then throw .exit
  else if fnamelen + 1 < 0 then throw .nullDeref
  else
    let fname ← recvbytes fnamelen
    let nparams ← recvInt
    if nparams < 0 then throw .exit
    else
      let a ← recvArgs nparams.toInt.toNat []
      -- the block has a byte more than was received, and it is `0`
      return (CString.upTo fname.1, nparams, a)

/-- The search of `makeCall`. -/
def findFn : List (Fn σ) → CString → Int32 → Option (Fn σ)
  | [], _, _ => none
  | tmp :: rest, fname, nparams =>
    if fname = tmp.fname ∧ nparams = tmp.nparams then some tmp else findFn rest fname nparams

/-- `makeCall`. -/
def makeCall (fnp : List (Fn σ)) (fname : CString) (nparams : Int32) (a : List ArgType) (s : σ) :
    Except Fault (ReturnType × σ) :=
  match findFn fnp fname nparams with
  | none => .ok (.null, s)
  | some tmp => tmp.fp nparams a s

/-- `returnResult`; `send` from a `NULL` pointer fails, and `sendbytes` exits. -/
def returnResult (ret : ReturnType) : Conn Unit :=
  if ret.returnSize ≤ 0 then sendInt 0
  else do
    sendInt ret.returnSize
    match ret.returnVal with
    | none => throw .exit
    | some val => sendbytes val ret.returnSize

/-- What the server made of a call, and its globals afterwards. -/
structure Served (σ : Type) where
  fname : CString
  nparams : Int32
  args : List ArgType
  state : σ

/-- The body of the loop in `launch_server`. -/
def serveConnection (fnp : List (Fn σ)) (s : σ) : Conn (Served σ) := do
  let (fname, nparams, arg) ← recvCall
  let (ret, s') ← liftM (makeCall fnp fname nparams arg s)
  returnResult ret
  return ⟨fname, nparams, arg, s'⟩

/-- `make_remote_call`, together with the server at the other end: what the server made of the call,
what the client returns, and the bytes each of them has left unread. -/
def makeRemoteCall (cuts : Session.Cuts) (fnp : List (Fn σ)) (procedureName : CString)
    (nparams : Int32) (params : List Param) (s : σ) :
    Except Fault (Served σ × ReturnType × Bytes × Bytes) :=
  Session.converse cuts (sendCall procedureName nparams params) (serveConnection fnp s) recvResult

end

end RemoteFs
