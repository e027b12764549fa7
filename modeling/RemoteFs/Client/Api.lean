import RemoteFs.Client.StrReplace
import RemoteFs.Server.Main

/-!
# The client library

The calls of `fs_client_api.c` that work on files, and `fsCloseDir`.  A call makes one remote call
or, as long as the server answers `-EAGAIN`, one after the other.  What happens in the meantime is
an `Attempt`: the requests of other clients that are served before the call arrives, the garbage
the server finds in a fresh block, and how the connection is cut.  A call is a function of the list
of attempts it gets; when the list ends while the server still refuses, the call is still going
on, and that is `Fault.hang`.

`remote_eq` reduces a remote call to the server's handler; below it there are no bytes any more.

The globals `srvIp` and `port` say which server is talked to, and there is one.  Messages to the
terminal are left out.
-/

set_option autoImplicit false

namespace RemoteFs

variable {κ : Type}

/-- The globals of the client library. -/
structure Client where
  id : Int32
  /-- The string in `alias`: the directory of the server. -/
  alias_ : CString
  /-- The name of the mount folder; `NULL` before the first mount. -/
  mountedDir : Option CString
  errno : Int32 := 0

/-- What goes on around one remote call. -/
structure Attempt where
  /-- The requests of other clients that are served before. -/
  others : List Request
  /-- What the block `fsCloseDir` allocates happens to hold. -/
  garbage : Int32
  cuts : Session.Cuts

/-- Nothing goes on. -/
def Attempt.quiet : Attempt := ⟨[], 0, ⟨[], [], [], []⟩⟩

/-- Serve requests one after the other; their replies go elsewhere. -/
def serveAll (K : Kernel κ) : List Request → World κ → Except Fault (World κ)
  | [], w => .ok w
  | req :: reqs, w => do
    let (_, w) ← serve K req w
    serveAll K reqs w

/-- A call of `make_remote_call` with the name and the parameter count of a procedure. -/
def remote (K : Kernel κ) (proc : Proc) (params : List Param) (a : Attempt) (w : World κ) :
    Except Fault (ReturnType × World κ) := do
  let w ← serveAll K a.others w
  let (served, ret, _, _) ←
    makeRemoteCall a.cuts (registerAll (procedures K a.garbage)) proc.name proc.nparams params w
  return (ret, served.state)

/-- `do { ret = make_remote_call(…); r = *(int *)ret.return_val; } while (r == -EAGAIN)` -/
def retry (call : Attempt → World κ → Except Fault (ReturnType × World κ)) :
    List Attempt → World κ → Except Fault (Int32 × ReturnType × World κ)
  | [], _ => .error .hang
  | a :: as, w => do
    let (ret, w) ← call a w
    let r ← ret.int?
    if r = -EAGAIN then retry call as w else return (r, ret, w)

/-- `sizeof(int), (void *)(&n)` -/
def Param.int (n : Int32) : Param := ⟨sizeofInt, intBytes n⟩

/-- `strlen(path)+1, (void *)(path)` -/
def Param.str (path : CString) : Param := ⟨Int32.ofNat (path.strlen + 1), path.mem⟩

/-- A path as it is sent to the server. -/
def Client.translate (cl : Client) (fname : CString) : Except Fault CString := do
  let mountedPath ← strReplace fname cl.mountedDir (some cl.alias_)
  strReplace mountedPath (some (.lit "/../")) (some (.lit "/"))

/-- What a call of the library leaves. -/
structure Outcome (κ : Type) where
  /-- What it returns. -/
  value : Int32
  /-- The last reply it got. -/
  reply : ReturnType
  /-- The globals of the library. -/
  client : Client
  /-- The server and its kernel. -/
  world : World κ

/-- `errno = -r; return -1;` -/
def Outcome.failed (cl : Client) (r : Int32) (ret : ReturnType) (w : World κ) : Outcome κ :=
  ⟨-1, ret, { cl with errno := -r }, w⟩

section
variable (K : Kernel κ) (cl : Client)

namespace Client

def fsCloseDir (folder : Int32) (as : List Attempt) (w : World κ) : Except Fault (Outcome κ) := do
  let (r, ret, w) ← retry (remote K .fsCloseDir [.int cl.id, .int folder]) as w
  if r < 0 then return .failed cl r ret w else return ⟨0, ret, cl, w⟩

def fsOpen (fname : CString) (mode : Int32) (as : List Attempt) (w : World κ) :
    Except Fault (Outcome κ) := do
  let path ← cl.translate fname
  let (fd, ret, w) ← retry (remote K .fsOpen [.int cl.id, .int mode, .str path]) as w
  if fd < 0 then return .failed cl fd ret w else return ⟨fd, ret, cl, w⟩

def fsClose (fd : Int32) (as : List Attempt) (w : World κ) : Except Fault (Outcome κ) := do
  let (r, ret, w) ← retry (remote K .fsClose [.int cl.id, .int fd]) as w
  if r < 0 then return .failed cl r ret w else return ⟨0, ret, cl, w⟩

/-- The block `buf` is sent along up to its first NUL, and comes back with what was read. -/
def fsRead (fd : Int32) (buf : Bytes) (count : UInt32) (a : Attempt) (w : World κ) :
    Except Fault (Outcome κ × Bytes) :=
  match CString.at? buf with
  | none => .error .overread
  | some s => do
    let (ret, w) ← remote K .fsRead
      [.int cl.id, .int fd, ⟨Int32.ofNat (s.strlen + 1), buf⟩, .int count.toInt32] a w
    let res ← ret.int?
    let data := (ret.returnVal.getD []).drop 4
    if buf.length < data.length then .error .overflow
    else
      let buf := data ++ buf.drop data.length
      if res = -1 then return (.failed cl res ret w, buf) else return (⟨res, ret, cl, w⟩, buf)

def fsWrite (fd : Int32) (buf : Bytes) (count : UInt32) (as : List Attempt) (w : World κ) :
    Except Fault (Outcome κ) := do
  let (res, ret, w) ← retry (remote K .fsWrite
    [.int cl.id, .int fd, .int count.toInt32, ⟨count.toInt32, buf⟩]) as w
  if res = -1 then return .failed cl res ret w else return ⟨res, ret, cl, w⟩

def fsRemove (name : CString) (as : List Attempt) (w : World κ) : Except Fault (Outcome κ) := do
  let path ← cl.translate name
  let (val, ret, w) ← retry (remote K .fsRemove [.int cl.id, .str path]) as w
  if val < 0 then return .failed cl val ret w else return ⟨0, ret, cl, w⟩

end Client

end

/-- **Every name is translated** once a folder with a name is mounted. -/
theorem translate_isOk {cl : Client} {folder : CString} (hmount : cl.mountedDir = some folder)
    (hne : folder.chars ≠ []) (fname : CString) : ∃ path, cl.translate fname = .ok path := by
  obtain ⟨mountedPath, hmounted⟩ : ∃ mountedPath,
      strReplace fname (some folder) (some cl.alias_) = .ok mountedPath :=
    strReplace_isOk_iff.mpr hne
  obtain ⟨path, hpath⟩ : ∃ path,
      strReplace mountedPath (some (.lit "/../")) (some (.lit "/")) = .ok path :=
    strReplace_isOk_iff.mpr (by decide)
  refine ⟨path, ?_⟩
  simp only [Client.translate, hmount, hmounted, bind, Except.bind]
  exact hpath

/-- A client with a mounted folder. -/
def mountedClient : Client := ⟨1, .lit "/srv", some (.lit "mnt"), 0⟩

theorem translate_mountedClient :
    mountedClient.translate (.lit "mnt/a") = .ok (.lit "/srv/a") := by
  decide

/-! ## Remote calls as requests -/

theorem Proc.strlen_name (proc : Proc) : proc.name.strlen + 2 < 2 ^ 31 := by
  cases proc <;> decide

/-- **A remote call is a request to the server**: it is served after the requests of the others,
and the client gets the handler's reply. -/
theorem remote_eq (K : Kernel κ) {proc : Proc} {params : List Param} {args : List ArgType}
    {a : Attempt} {w w₁ : World κ} (hothers : serveAll K a.others w = .ok w₁)
    (hparams : List.Forall₂ Param.Passes params args)
    (hn : (args.length : ℤ) = proc.nparams.toInt) :
    remote K proc params a w = serve K ⟨proc, args, a.garbage⟩ w₁ := by
  have hcount : (⟨proc, args, a.garbage⟩ : Request).nparams = proc.nparams := nparams_of_length hn
  have hcall := makeCall_procedures K w₁ hcount
  cases hserve : serve K ⟨proc, args, a.garbage⟩ w₁ with
  | error f =>
    rw [hserve] at hcall
    have hremote := makeRemoteCall_eq_error a.cuts proc.strlen_name hn hparams hcall
    simp only [remote, hothers, hremote, bind, Except.bind]
  | ok x =>
    obtain ⟨r, w'⟩ := x
    rw [hserve] at hcall
    have hexact := exact_of_serve hserve
    have hremote := makeRemoteCall_eq a.cuts proc.strlen_name hn hparams hcall hexact.holds
    rw [hexact.received] at hremote
    simp only [remote, hothers, hremote, bind, Except.bind, pure, Except.pure]

/-- Undisturbed, a remote call is an operation of the server. -/
theorem remote_of_op (K : Kernel κ) {proc : Proc} {params : List Param} {args : List ArgType}
    {a : Attempt} {op : Op} (w : World κ) (hothers : a.others = [])
    (hparams : List.Forall₂ Param.Passes params args)
    (hn : (args.length : ℤ) = proc.nparams.toInt)
    (hop : Request.op ⟨proc, args, a.garbage⟩ = .ok op) :
    remote K proc params a w = perform K a.garbage op w := by
  have hserve : serveAll K a.others w = .ok w := by rw [hothers]; rfl
  rw [remote_eq K hserve hparams hn, serve_of_op hop]

theorem not_neg_of_pos {n : Int32} (h : 0 < n) : ¬ n < 0 := by
  rw [Int32.lt_iff_toInt_lt] at h ⊢
  omega

/-- A reply that reports success is no refusal. -/
theorem ne_neg_EAGAIN {n : Int32} (h : ¬ n < 0) : n ≠ -EAGAIN := by
  rintro rfl
  exact h (by decide)

/-- A loop ends with the first reply that is no refusal. -/
theorem retry_done {call : Attempt → World κ → Except Fault (ReturnType × World κ)} {a : Attempt}
    {as : List Attempt} {w w' : World κ} {ret : ReturnType} {r : Int32}
    (h : call a w = .ok (ret, w')) (hr : ret.int? = .ok r) (hne : r ≠ -EAGAIN) :
    retry call (a :: as) w = .ok (r, ret, w') := by
  simp only [retry, h, hr, bind, Except.bind, if_neg hne]
  rfl

/-- And goes on after a refusal. -/
theorem retry_again {call : Attempt → World κ → Except Fault (ReturnType × World κ)} {a : Attempt}
    {as : List Attempt} {w w' : World κ} {ret : ReturnType} (h : call a w = .ok (ret, w'))
    (hr : ret.int? = .ok (-EAGAIN)) : retry call (a :: as) w = retry call as w' := by
  simp only [retry, h, hr, bind, Except.bind, if_pos]

theorem Param.passes_int (n : Int32) : (Param.int n).Passes (.int n) :=
  ⟨rfl, List.prefix_rfl⟩

theorem Param.passes_str (p : CString) (h : p.strlen + 1 < 2 ^ 31) :
    (Param.str p).Passes (.str p h) :=
  ⟨by simp [Param.str, ArgType.str, ArgType.ofBytes], List.prefix_rfl⟩

end RemoteFs
