import RemoteFs.Server.Handlers

/-!
# Requests and operations

A `Request` is what reaches a handler: a procedure, the argument list `recvCall` built for it, and
the garbage a fresh block happens to hold while it is served.  `serve` runs the handler.

The handlers begin by taking their argument list apart.  `Request.op` is that half on its own: it
turns the list into an `Op`, a request in terms of client ids, paths and numbers, or `Op.ignored`
when a check on counts or sizes makes the handler answer `(NULL, 0)`.  `perform` is the other half,
and `serve_eq` puts the two together again.  Everything after this file reasons about operations.

`Op.blocked` is the lock check alone, as a predicate on the table.
-/

set_option autoImplicit false

namespace RemoteFs

variable {κ : Type}

/-- The registered procedures. -/
inductive Proc where
  | fsMount | fsUnmount | fsOpenDir | fsReadDir | fsCloseDir
  | fsOpen | fsRead | fsWrite | fsClose | fsRemove
  deriving DecidableEq, Repr

/-- A request as it reaches its handler. -/
structure Request where
  proc : Proc
  args : List ArgType
  /-- What the block `fsCloseDir` allocates happens to hold. -/
  garbage : Int32 := 0

namespace Request

/-- The argument count handed to the handler. -/
def nparams (req : Request) : Int32 := Int32.ofNat req.args.length

/-- The client id a request carries: its first argument, when that is an `int`. -/
def clientId? (req : Request) : Option Int32 :=
  match req.args with
  | [] => none
  | a :: _ => if a.argSize = sizeofInt then (intAt a.argVal).toOption else none

end Request

/-- Run the handler of a request. -/
def serve (K : Kernel κ) (req : Request) (w : World κ) : Except Fault (ReturnType × World κ) :=
  match req.proc with
  | .fsMount => fsMount req.nparams req.args w
  | .fsUnmount => fsUnmount req.nparams req.args w
  | .fsOpenDir => fsOpenDir K req.nparams req.args w
  | .fsReadDir => fsReadDir K req.nparams req.args w
  | .fsCloseDir => fsCloseDir K req.garbage req.nparams req.args w
  | .fsOpen => fsOpen K req.nparams req.args w
  | .fsRead => fsRead K req.nparams req.args w
  | .fsWrite => fsWrite K req.nparams req.args w
  | .fsClose => fsClose K req.nparams req.args w
  | .fsRemove => fsRemove K req.nparams req.args w

/-- A request whose arguments have been read. -/
inductive Op where
  /-- Answered `(NULL, 0)` because of its argument count or sizes. -/
  | ignored
  | mount
  /-- The id is the one the request carries; the handler does not read it. -/
  | unmount (id : Option Int32)
  | openDir (id : Int32) (path : CString)
  | readDir (num : Int32)
  | closeDir (id num : Int32)
  | remove (id : Int32) (path : CString)
  | open_ (id mode : Int32) (path : CString)
  | close (id fd : Int32)
  | read (fd count : Int32)
  | write (id fd count : Int32) (buf : Bytes)

/-- The path an operation is about. -/
def Op.path? : Op → Option CString
  | .openDir _ p | .remove _ p | .open_ _ _ p => some p
  | _ => none

/-! ## Reading the arguments -/

/-- The first argument as a client id; `none` when its size makes the handler give up. -/
def readId (a : List ArgType) : Except Fault (Option Int32) := do
  let a₀ ← argAt a 0
  if a₀.argSize ≠ sizeofInt then return none
  else return some (← intAt a₀.argVal)

/-- What eight of the handlers begin with: the count is checked, then the size of the client id. -/
def Request.withId (req : Request) (n : Int32) (f : Int32 → Except Fault Op) : Except Fault Op :=
  if req.nparams ≠ n then .ok .ignored
  else do
    match ← readId req.args with
    | none => return .ignored
    | some id => f id

/-- The half of a handler that reads its arguments. -/
def Request.op (req : Request) : Except Fault Op :=
  match req.proc with
  | .fsMount => if req.nparams ≠ 1 then .ok .ignored else .ok .mount
  | .fsUnmount => if req.nparams ≠ 2 then .ok .ignored else .ok (.unmount req.clientId?)
  | .fsOpenDir => req.withId 2 fun id ↦ return .openDir id (← (← argAt req.args 1).cstr)
  | .fsReadDir => req.withId 2 fun _ ↦ return .readDir (← intAt (← argAt req.args 1).argVal)
  | .fsCloseDir => req.withId 2 fun id ↦ return .closeDir id (← intAt (← argAt req.args 1).argVal)
  | .fsRemove => req.withId 2 fun id ↦ return .remove id (← (← argAt req.args 1).cstr)
  | .fsOpen => req.withId 3 fun id ↦ do
    let a₁ ← argAt req.args 1
    if a₁.argSize ≠ sizeofInt then return .ignored
    else
      let path ← (← argAt req.args 2).cstr
      return .open_ id (← intAt a₁.argVal) path
  | .fsClose => req.withId 2 fun id ↦ do
    let a₁ ← argAt req.args 1
    if a₁.argSize ≠ sizeofInt then return .ignored
    else return .close id (← intAt a₁.argVal)
  | .fsRead => req.withId 4 fun _ ↦ do
    let a₁ ← argAt req.args 1
    let a₃ ← argAt req.args 3
    if a₁.argSize ≠ sizeofInt ∨ a₃.argSize ≠ sizeofInt then return .ignored
    else return .read (← intAt a₁.argVal) (← intAt a₃.argVal)
  | .fsWrite => req.withId 4 fun id ↦ do
    let a₁ ← argAt req.args 1
    let a₂ ← argAt req.args 2
    if a₁.argSize ≠ sizeofInt ∨ a₂.argSize ≠ sizeofInt then return .ignored
    else return .write id (← intAt a₁.argVal) (← intAt a₂.argVal) (← argAt req.args 3).argVal

/-! ### What a request can ask for -/

theorem clientId?_of_readId {req : Request} {id : Int32}
    (h : readId req.args = .ok (some id)) : req.clientId? = some id := by
  obtain ⟨proc, args, g⟩ := req
  cases args with
  | nil => simp [readId, argAt, bind, Except.bind] at h
  | cons a args =>
    by_cases ha : a.argSize = sizeofInt
    · obtain ⟨n, hn⟩ := ArgType.intAt_isOk ha
      simp [readId, argAt, bind, Except.bind, pure, Except.pure, ha, hn] at h
      simp [Request.clientId?, ha, hn, h, Except.toOption]
    · simp [readId, argAt, bind, Except.bind, pure, Except.pure, ha] at h

theorem withId_eq_ok {req : Request} {n : Int32} {f : Int32 → Except Fault Op} {op : Op}
    (h : req.withId n f = .ok op) :
    op = .ignored ∨ ∃ id, req.clientId? = some id ∧ f id = .ok op := by
  rw [Request.withId] at h
  split at h
  · cases h
    exact .inl rfl
  · obtain ⟨id?, hid, h⟩ := bind_eq_ok.mp h
    cases id? with
    | none =>
      cases h
      exact .inl rfl
    | some id => exact .inr ⟨id, clientId?_of_readId hid, h⟩

/-- The operations the requests of a procedure are, when they carry a client id (or none). -/
inductive Proc.Asks : Proc → Option Int32 → Op → Prop
  | mount (id? : Option Int32) : Asks .fsMount id? .mount
  | unmount (id? : Option Int32) : Asks .fsUnmount id? (.unmount id?)
  | openDir (id : Int32) (path : CString) : Asks .fsOpenDir (some id) (.openDir id path)
  | readDir (id num : Int32) : Asks .fsReadDir (some id) (.readDir num)
  | closeDir (id num : Int32) : Asks .fsCloseDir (some id) (.closeDir id num)
  | remove (id : Int32) (path : CString) : Asks .fsRemove (some id) (.remove id path)
  | open_ (id mode : Int32) (path : CString) : Asks .fsOpen (some id) (.open_ id mode path)
  | close (id fd : Int32) : Asks .fsClose (some id) (.close id fd)
  | read (id fd count : Int32) : Asks .fsRead (some id) (.read fd count)
  /-- The data is an argument, so its length is an `int`. -/
  | write (id fd count : Int32) (a : ArgType) :
    Asks .fsWrite (some id) (.write id fd count a.argVal)

theorem asks_of_withId {req : Request} {n : Int32} {f : Int32 → Except Fault Op} {op : Op}
    {proc : Proc} (h : req.withId n f = .ok op)
    (hf : ∀ id, f id = .ok op → op = .ignored ∨ proc.Asks (some id) op) :
    op = .ignored ∨ proc.Asks req.clientId? op := by
  obtain rfl | ⟨id, hid, h⟩ := withId_eq_ok h
  · exact .inl rfl
  · rw [hid]
    exact hf id h

/-- **A request is ignored, or is one of the operations of its procedure**, made with the id it
carries. -/
theorem Request.op_eq_ok {req : Request} {op : Op} (h : req.op = .ok op) :
    op = .ignored ∨ req.proc.Asks req.clientId? op := by
  rw [Request.op] at h
  generalize req.proc = proc at h ⊢
  cases proc with
  | fsMount | fsUnmount =>
    dsimp only at h
    split at h
    · cases h
      exact .inl rfl
    · cases h
      exact .inr (by constructor)
  | fsOpenDir | fsReadDir | fsCloseDir | fsRemove =>
    refine asks_of_withId h fun id h ↦ ?_
    obtain ⟨a₁, -, h⟩ := bind_eq_ok.mp h
    obtain ⟨x, -, h⟩ := bind_eq_ok.mp h
    cases h
    exact .inr (by constructor)
  | fsOpen =>
    refine asks_of_withId h fun id h ↦ ?_
    obtain ⟨a₁, -, h⟩ := bind_eq_ok.mp h
    split at h
    · cases h
      exact .inl rfl
    · obtain ⟨a₂, -, h⟩ := bind_eq_ok.mp h
      obtain ⟨path, -, h⟩ := bind_eq_ok.mp h
      obtain ⟨mode, -, h⟩ := bind_eq_ok.mp h
      cases h
      exact .inr (.open_ id mode path)
  | fsClose =>
    refine asks_of_withId h fun id h ↦ ?_
    obtain ⟨a₁, -, h⟩ := bind_eq_ok.mp h
    split at h
    · cases h
      exact .inl rfl
    · obtain ⟨fd, -, h⟩ := bind_eq_ok.mp h
      cases h
      exact .inr (.close id fd)
  | fsRead =>
    refine asks_of_withId h fun id h ↦ ?_
    obtain ⟨a₁, -, h⟩ := bind_eq_ok.mp h
    obtain ⟨a₃, -, h⟩ := bind_eq_ok.mp h
    split at h
    · cases h
      exact .inl rfl
    · obtain ⟨fd, -, h⟩ := bind_eq_ok.mp h
      obtain ⟨count, -, h⟩ := bind_eq_ok.mp h
      cases h
      exact .inr (.read id fd count)
  | fsWrite =>
    refine asks_of_withId h fun id h ↦ ?_
    obtain ⟨a₁, -, h⟩ := bind_eq_ok.mp h
    obtain ⟨a₂, -, h⟩ := bind_eq_ok.mp h
    split at h
    · cases h
      exact .inl rfl
    · obtain ⟨fd, -, h⟩ := bind_eq_ok.mp h
      obtain ⟨count, -, h⟩ := bind_eq_ok.mp h
      obtain ⟨a₃, -, h⟩ := bind_eq_ok.mp h
      cases h
      exact .inr (.write id fd count a₃)

/-! ## The lock check and what follows it -/

/-- The lock check of an operation: the table holds the path or the number for somebody else.
`fsRead`, `fsReadDir` and the two mount calls have none. -/
def Op.blocked (l : List Resource) (garbage : Int32) : Op → Bool
  | .openDir id path | .remove id path | .open_ id _ path =>
    refuses (findResource l id 0 (some path)) id
  | .close id fd | .write id fd _ _ => refuses (findResource l id fd none) id
  | .closeDir id _ => refuses (findResource l id garbage none) id
  | _ => false

/-- The half of a handler that acts. -/
def perform (K : Kernel κ) (garbage : Int32) (op : Op) (w : World κ) :
    Except Fault (ReturnType × World κ) :=
  match op with
  | .ignored | .unmount _ => .ok (.null, w)
  | .mount => mountClient w
  | .openDir id path => .ok (openDirPath K id path w)
  | .readDir num => readDirNum K num w
  | .closeDir id num => closeDirNum K id num garbage w
  | .remove id path => .ok (removePath K id path w)
  | .open_ id mode path => .ok (openPath K id mode path w)
  | .close id fd => .ok (closeFd K id fd w)
  | .read fd count => readFd K fd count w
  | .write id fd count buf =>
    if refuses (findResource w.srv.resourceList id fd none) id then .ok (refusal, w)
    else writeFd K fd count buf w

/-- An argument count of four comes with four arguments. -/
theorem le_length_of_nparams {req : Request} {n : ℕ} (hn : n < 2 ^ 31)
    (h : req.nparams = Int32.ofNat n) : n ≤ req.args.length := by
  by_contra hlt
  have h₁ := toInt_ofNat_of_lt (n := req.args.length) (by omega)
  have h₂ := toInt_ofNat_of_lt hn
  rw [Request.nparams] at h
  rw [h, h₂] at h₁
  omega

/-- The first lines of a handler are `readId`. -/
theorem readId_bind {β : Type} (a : List ArgType) (x : Except Fault β)
    (f : Int32 → Except Fault β) :
    (argAt a 0 >>= fun a₀ ↦ if a₀.argSize ≠ sizeofInt then x else intAt a₀.argVal >>= f)
      = readId a >>= fun o ↦ match o with | none => x | some id => f id := by
  rw [readId]
  cases argAt a 0 with
  | error e => rfl
  | ok a₀ =>
    by_cases h : a₀.argSize = sizeofInt
    · obtain ⟨id, hid⟩ := ArgType.intAt_isOk h
      simp [bind, Except.bind, pure, Except.pure, h, hid]
    · simp [bind, Except.bind, pure, Except.pure, h]

/-- **What eight of the handlers begin with**: what comes after the client id is all there is to
compare. -/
theorem withId_bind {K : Kernel κ} {req : Request} {w : World κ} {n : Int32}
    {f : Int32 → Except Fault Op} {g : Int32 → Except Fault (ReturnType × World κ)}
    (h : req.nparams = n → ∀ id, g id = f id >>= fun op ↦ perform K req.garbage op w) :
    (if req.nparams ≠ n then .ok (.null, w) else
      argAt req.args 0 >>= fun a₀ ↦
        if a₀.argSize ≠ sizeofInt then .ok (.null, w) else intAt a₀.argVal >>= g)
      = req.withId n f >>= fun op ↦ perform K req.garbage op w := by
  rw [Request.withId, readId_bind]
  split
  · rfl
  · rename_i hn
    rcases readId req.args with f | (_ | id)
    · rfl
    · rfl
    · exact h (not_not.mp hn) id

/-- An argument that has to be an `int` and is not makes the handler give up. -/
theorem ite_bind {K : Kernel κ} {w : World κ} {g : Int32} {c : Prop} [Decidable c]
    {x : Except Fault Op} {y : Except Fault (ReturnType × World κ)}
    (h : ¬ c → y = x >>= fun op ↦ perform K g op w) :
    (if c then .ok (.null, w) else y)
      = (if c then pure .ignored else x) >>= fun op ↦ perform K g op w := by
  split
  · rfl
  · exact h ‹_›

/-- **A handler reads its arguments and then acts.** -/
theorem serve_eq (K : Kernel κ) (req : Request) (w : World κ) :
    serve K req w = req.op >>= fun op ↦ perform K req.garbage op w := by
  have hlen : req.nparams = Int32.ofNat 4 → 4 ≤ req.args.length :=
    le_length_of_nparams (by decide)
  obtain ⟨proc, a, garbage⟩ := req
  cases proc with
  | fsMount =>
    simp only [serve, Request.op, fsMount]
    split <;> rfl
  | fsUnmount =>
    simp only [serve, Request.op, fsUnmount]
    split <;> rfl
  | fsOpenDir | fsReadDir | fsCloseDir | fsRemove =>
    refine withId_bind fun _ id ↦ ?_
    simp only [bind_assoc, pure_bind]
    rfl
  | fsOpen | fsClose =>
    refine withId_bind fun _ id ↦ ?_
    simp only [bind_assoc]
    refine bind_congr fun a₁ ↦ ite_bind fun _ ↦ ?_
    simp only [bind_assoc, pure_bind]
    rfl
  | fsRead =>
    refine withId_bind fun _ id ↦ ?_
    simp only [bind_assoc]
    refine bind_congr fun a₁ ↦ bind_congr fun a₃ ↦ ite_bind fun _ ↦ ?_
    simp only [bind_assoc, pure_bind]
    rfl
  | fsWrite =>
    refine withId_bind fun hn id ↦ ?_
    simp only [bind_assoc]
    refine bind_congr fun a₁ ↦ bind_congr fun a₂ ↦ ite_bind fun hsize ↦ ?_
    -- the handler reads the rest only after the lock check, but it is there to be read
    obtain ⟨count, hcount⟩ := ArgType.intAt_isOk (not_not.mp (not_or.mp hsize).2)
    obtain ⟨a₃, ha₃⟩ := argAt_isOk (a := a) (i := 3) (hlen hn)
    simp only [hcount, ha₃, ok_bind, bind_assoc, pure_bind]
    rfl

/-! ## The requests the client library sends

A client sends its id first, then numbers as `int`s and paths with their terminator. -/

namespace Request

variable (c : Int32) (p : CString) (hp : p.strlen + 1 < 2 ^ 31)

def openDir : Request := ⟨.fsOpenDir, [.int c, .str p hp], 0⟩

def readDir (num : Int32) : Request := ⟨.fsReadDir, [.int c, .int num], 0⟩

def closeDir (num garbage : Int32) : Request := ⟨.fsCloseDir, [.int c, .int num], garbage⟩

def open_ (mode : Int32) : Request := ⟨.fsOpen, [.int c, .int mode, .str p hp], 0⟩

def close (fd : Int32) : Request := ⟨.fsClose, [.int c, .int fd], 0⟩

def remove : Request := ⟨.fsRemove, [.int c, .str p hp], 0⟩

def unmount : Request := ⟨.fsUnmount, [.int c, .str p hp], 0⟩

/-- The buffer the client sends along is not looked at. -/
def read (fd count : Int32) (buf : ArgType) : Request :=
  ⟨.fsRead, [.int c, .int fd, buf, .int count], 0⟩

def write (fd count : Int32) (buf : ArgType) : Request :=
  ⟨.fsWrite, [.int c, .int fd, .int count, buf], 0⟩

variable {c p hp}

@[simp] theorem op_openDir : (openDir c p hp).op = .ok (.openDir c p) := by
  simp [openDir, op, withId, nparams, readId, argAt, bind, Except.bind, pure, Except.pure]

@[simp] theorem op_readDir {n : Int32} : (readDir c n).op = .ok (.readDir n) := by
  simp [readDir, op, withId, nparams, readId, argAt, bind, Except.bind, pure, Except.pure]

@[simp] theorem op_closeDir {n g : Int32} : (closeDir c n g).op = .ok (.closeDir c n) := by
  simp [closeDir, op, withId, nparams, readId, argAt, bind, Except.bind, pure, Except.pure]

@[simp] theorem op_open {mode : Int32} : (open_ c p hp mode).op = .ok (.open_ c mode p) := by
  simp [open_, op, withId, nparams, readId, argAt, bind, Except.bind, pure, Except.pure]

@[simp] theorem op_close {fd : Int32} : (close c fd).op = .ok (.close c fd) := by
  simp [close, op, withId, nparams, readId, argAt, bind, Except.bind, pure, Except.pure]

@[simp] theorem op_remove : (remove c p hp).op = .ok (.remove c p) := by
  simp [remove, op, withId, nparams, readId, argAt, bind, Except.bind, pure, Except.pure]

@[simp] theorem op_read {fd count : Int32} {buf : ArgType} :
    (read c fd count buf).op = .ok (.read fd count) := by
  simp [read, op, withId, nparams, readId, argAt, bind, Except.bind, pure, Except.pure]

@[simp] theorem op_write {fd count : Int32} {buf : ArgType} :
    (write c fd count buf).op = .ok (.write c fd count buf.argVal) := by
  simp [write, op, withId, nparams, readId, argAt, bind, Except.bind, pure, Except.pure]

end Request

end RemoteFs
