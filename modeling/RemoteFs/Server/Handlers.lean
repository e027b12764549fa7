import RemoteFs.Rpc.Types
import RemoteFs.Server.State

/-!
# The ten handlers

The procedures `server.c` registers.  Each is a function of the argument count, the argument list
and the world, into a reply and the next world, or a `Fault`; the checks stand in the order the C
code makes them in, and a pointer is followed exactly where the C code follows it.

What a handler does once its arguments have been read is split off under a name of its own
(`openPath`, `closeFd`, …), so that the later files can reason about requests and not about
argument lists.  The `printf`s, and `printBuf`, are left out: they write to the server's terminal.

`fsCloseDir` asks `find_resource` for the number in a freshly allocated block *before* it copies
the client's number into it.  What that block happens to hold is the argument `garbage`.
-/

set_option autoImplicit false

namespace RemoteFs

variable {κ : Type}

def O_RDONLY : Int32 := 0

def O_WRONLY : Int32 := 1

def O_CREAT : Int32 := 64

/-! ## System calls as the handlers see them -/

namespace World

/-- The world after the call `c` with outcome `r`: the call is remembered, and a failure leaves
its number in `errno`. -/
def after {α : Type} (w : World κ) (c : Syscall) (r : Except Errno α × κ) : World κ where
  srv := match r.1 with
    | .ok _ => w.srv
    | .error e => { w.srv with errno := e.1 }
  kern := r.2
  calls := c :: w.calls

/-- `resource_list` replaced. -/
def setResources (w : World κ) (l : List Resource) : World κ :=
  { w with srv := { w.srv with resourceList := l } }

@[simp] theorem setResources_resourceList (w : World κ) (l : List Resource) :
    (w.setResources l).srv.resourceList = l := rfl

@[simp] theorem setResources_openDirQueue (w : World κ) (l : List Resource) :
    (w.setResources l).srv.openDirQueue = w.srv.openDirQueue := rfl

@[simp] theorem setResources_openDirId (w : World κ) (l : List Resource) :
    (w.setResources l).srv.openDirId = w.srv.openDirId := rfl

@[simp] theorem setResources_kern (w : World κ) (l : List Resource) :
    (w.setResources l).kern = w.kern := rfl

@[simp] theorem setResources_calls (w : World κ) (l : List Resource) :
    (w.setResources l).calls = w.calls := rfl

@[simp] theorem setResources_errno (w : World κ) (l : List Resource) :
    (w.setResources l).srv.errno = w.srv.errno := rfl

variable {α : Type} (w : World κ) (c : Syscall) (r : Except Errno α × κ)

@[simp] theorem after_resourceList : (w.after c r).srv.resourceList = w.srv.resourceList := by
  simp only [after]; split <;> rfl

@[simp] theorem after_openDirQueue : (w.after c r).srv.openDirQueue = w.srv.openDirQueue := by
  simp only [after]; split <;> rfl

@[simp] theorem after_openDirId : (w.after c r).srv.openDirId = w.srv.openDirId := by
  simp only [after]; split <;> rfl

@[simp] theorem after_clientId : (w.after c r).srv.clientId = w.srv.clientId := by
  simp only [after]; split <;> rfl

@[simp] theorem after_kern : (w.after c r).kern = r.2 := rfl

@[simp] theorem after_calls : (w.after c r).calls = c :: w.calls := rfl

theorem after_errno_of_error {e : Errno} (h : r.1 = .error e) :
    (w.after c r).srv.errno = e.1 := by
  simp only [after, h]

end World

/-- What a call that answers `-1` on failure stores in its `int`. -/
def intResult {α : Type} (r : Except Errno α) (ok : α → Int32) : Int32 :=
  match r with
  | .ok x => ok x
  | .error _ => -1

/-- `if (*r == -1) { *r = -errno; }` -/
def orErrno (r errno : Int32) : Int32 := if r = -1 then -errno else r

/-- The refusal: an `int` holding `-EAGAIN`. -/
def refusal : ReturnType := .int (-EAGAIN)

/-! ## What the handlers do -/

section
variable (K : Kernel κ)

/-- `fsMount` after the argument check: number the client and send it the served directory.  The
path field of `FSMOUNT` has 256 bytes. -/
def mountClient (w : World κ) : Except Fault (ReturnType × World κ) :=
  let id := w.srv.clientId + 1
  let dir := w.srv.mountedDir
  if 256 < dir.strlen + 1 then .error .overflow
  else
    let path := dir.mem ++ List.replicate (256 - dir.mem.length) 0
    .ok (⟨some (intBytes id ++ path), 260, 0⟩, { w with srv := { w.srv with clientId := id } })

/-- `add_open_dir`, for a `dir` that is not `NULL`. -/
def addOpenDir (queue : List Node) (dir : Dir) (id : Int32) : List Node := ⟨id, dir⟩ :: queue

/-- `fsOpenDir` for client `id` and `path`. -/
def openDirPath (id : Int32) (path : CString) (w : World κ) : ReturnType × World κ :=
  let res := findResource w.srv.resourceList id 0 (some path)
  if refuses res id then (refusal, w)
  else
    let dir := K.opendir w.kern path
    let w := w.after (.opendir path) dir
    match dir.1 with
    | .error _ => (.null, w)
    | .ok d =>
      -- the counter is a plain `int` and wraps
      let num := w.srv.openDirId + 1
      let queue := addOpenDir w.srv.openDirQueue d num
      let list := addResource w.srv.resourceList 1 id num path
      let list := if res.isSome then removeResource list id 0 (some path) else list
      (.int num,
        { w with srv := { w.srv with
            openDirId := num, openDirQueue := queue, resourceList := list } })

/-- `fsReadDir` for the directory number `num`. -/
def readDirNum (num : Int32) (w : World κ) : Except Fault (ReturnType × World κ) :=
  match findNode w.srv.openDirQueue num with
  | none => .error .nullDeref
  | some found =>
    let er := w.srv.errno
    let ent := K.readdir w.kern found.dir
    let w := w.after (.readdir found.dir) ent
    match ent.1 with
    | .ok (some ent) => .ok (⟨some ent.bytes, 280, 0⟩, w)
    -- end of the stream or failure: told apart by whether `errno` changed
    | _ => if w.srv.errno ≠ er then .ok (.int w.srv.errno, w) else .ok (.null, w)

/-- `fsCloseDir` for client `id` and the directory number `num`; the lock check sees `garbage`. -/
def closeDirNum (id num garbage : Int32) (w : World κ) : Except Fault (ReturnType × World κ) :=
  let res := findResource w.srv.resourceList id garbage none
  if refuses res id then .ok (refusal, w)
  else
    match findNode w.srv.openDirQueue num with
    | none => .error .nullDeref
    | some found =>
      let r := K.closedir w.kern found.dir
      let w := w.after (.closedir found.dir) r
      let reply := orErrno (intResult r.1 fun _ ↦ 0) w.srv.errno
      .ok (.int reply, w.setResources (removeResource w.srv.resourceList id num none))

/-- `fsRemove` for client `id` and `path`. -/
def removePath (id : Int32) (path : CString) (w : World κ) : ReturnType × World κ :=
  let res := findResource w.srv.resourceList id 0 (some path)
  if refuses res id then (refusal, w)
  else
    let r := K.remove w.kern path
    let w := w.after (.remove path) r
    let reply := orErrno (intResult r.1 fun _ ↦ 0) w.srv.errno
    (.int reply, w.setResources (removeResource w.srv.resourceList id 0 (some path)))

/-- The flags `fsOpen` passes on for a mode. -/
def openFlags (mode : Int32) : Int32 := if mode = 0 then O_RDONLY else O_WRONLY ||| O_CREAT

/-- `fsOpen` for client `id`, `mode` and `fname`. -/
def openPath (id mode : Int32) (fname : CString) (w : World κ) : ReturnType × World κ :=
  let res := findResource w.srv.resourceList id 0 (some fname)
  if refuses res id then (refusal, w)
  else
    let r := K.open_ w.kern fname (openFlags mode)
    let w := w.after (.open_ fname (openFlags mode)) r
    let fd := intResult r.1 fun fd ↦ fd.1
    let list := addResource w.srv.resourceList mode id fd fname
    -- "remove the old one"
    let list := if res.isSome then removeResource list id 0 (some fname) else list
    (.int (orErrno fd w.srv.errno), w.setResources list)

/-- `fsClose` for client `id` and descriptor `fd`. -/
def closeFd (id fd : Int32) (w : World κ) : ReturnType × World κ :=
  let res := findResource w.srv.resourceList id fd none
  if refuses res id then (refusal, w)
  else
    let r := K.close w.kern fd
    let w := w.after (.close fd) r
    let reply := orErrno (intResult r.1 fun _ ↦ 0) w.srv.errno
    (.int reply, w.setResources (removeResource w.srv.resourceList id fd none))

/-- `(size_t)count`. -/
def sizeT (count : Int32) : ℕ := (count.toInt % 2 ^ 64).toNat

/-- `fsRead` of `count` bytes from descriptor `fd`. -/
def readFd (fd count : Int32) (w : World κ) : Except Fault (ReturnType × World κ) :=
  let got := K.read w.kern fd (sizeT count)
  let w := w.after (.read fd (sizeT count)) got
  let buf : Bytes := match got.1 with
    | .ok bs => bs.1
    | .error _ => []
  let r := intResult got.1 fun bs ↦ Int32.ofNat bs.1.length
  let size := sizeofInt + r
  -- for a negative `count` the buffer is `NULL`
  if count < 0 ∧ buf ≠ [] then .error .overflow
  -- the reply buffer has `size` bytes, and `sizeof(int) + r` are copied into it
  else if size.toInt < 4 + buf.length then .error .overflow
  else .ok (⟨some (intBytes r ++ buf), size, 0⟩, w)

/-- `fsWrite` of `count` bytes of `buf` to descriptor `fd`, after the lock check. -/
def writeFd (fd count : Int32) (buf : Bytes) (w : World κ) :
    Except Fault (ReturnType × World κ) :=
  if buf.length < sizeT count then .error .overread
  else
    let data := buf.take (sizeT count)
    let r := K.write w.kern fd data
    let w := w.after (.write fd data) r
    .ok (.int (orErrno (intResult r.1 fun n ↦ Int32.ofNat n.1) w.srv.errno), w)

/-! ## The handlers -/

def fsMount (nparams : Int32) (_a : List ArgType) (w : World κ) :
    Except Fault (ReturnType × World κ) :=
  if nparams ≠ 1 then .ok (.null, w) else mountClient w

/-- Nothing is released. -/
def fsUnmount (nparams : Int32) (_a : List ArgType) (w : World κ) :
    Except Fault (ReturnType × World κ) :=
  if nparams ≠ 2 then .ok (.null, w) else .ok (.null, w)

def fsOpenDir (nparams : Int32) (a : List ArgType) (w : World κ) :
    Except Fault (ReturnType × World κ) :=
  if nparams ≠ 2 then .ok (.null, w)
  else do
    let a₀ ← argAt a 0
    if a₀.argSize ≠ sizeofInt then .ok (.null, w)
    else do
      let id ← intAt a₀.argVal
      let a₁ ← argAt a 1
      let path ← a₁.cstr
      .ok (openDirPath K id path w)

def fsReadDir (nparams : Int32) (a : List ArgType) (w : World κ) :
    Except Fault (ReturnType × World κ) :=
  if nparams ≠ 2 then .ok (.null, w)
  else do
    let a₀ ← argAt a 0
    if a₀.argSize ≠ sizeofInt then .ok (.null, w)
    else do
      let _id ← intAt a₀.argVal
      let a₁ ← argAt a 1
      let num ← intAt a₁.argVal
      readDirNum K num w

def fsCloseDir (garbage nparams : Int32) (a : List ArgType) (w : World κ) :
    Except Fault (ReturnType × World κ) :=
  if nparams ≠ 2 then .ok (.null, w)
  else do
    let a₀ ← argAt a 0
    if a₀.argSize ≠ sizeofInt then .ok (.null, w)
    else do
      let id ← intAt a₀.argVal
      let a₁ ← argAt a 1
      -- `dir_id` has `arg_size` bytes, before and after the client's are copied into it
      let num ← intAt a₁.argVal
      closeDirNum K id num garbage w

def fsRemove (nparams : Int32) (a : List ArgType) (w : World κ) :
    Except Fault (ReturnType × World κ) :=
  if nparams ≠ 2 then .ok (.null, w)
  else do
    let a₀ ← argAt a 0
    if a₀.argSize ≠ sizeofInt then .ok (.null, w)
    else do
      let id ← intAt a₀.argVal
      let a₁ ← argAt a 1
      let path ← a₁.cstr
      .ok (removePath K id path w)

def fsOpen (nparams : Int32) (a : List ArgType) (w : World κ) :
    Except Fault (ReturnType × World κ) :=
  if nparams ≠ 3 then .ok (.null, w)
  else do
    let a₀ ← argAt a 0
    if a₀.argSize ≠ sizeofInt then .ok (.null, w)
    else do
      let id ← intAt a₀.argVal
      let a₁ ← argAt a 1
      if a₁.argSize ≠ sizeofInt then .ok (.null, w)
      else do
        let a₂ ← argAt a 2
        let fname ← a₂.cstr
        let mode ← intAt a₁.argVal
        .ok (openPath K id mode fname w)

def fsClose (nparams : Int32) (a : List ArgType) (w : World κ) :
    Except Fault (ReturnType × World κ) :=
  if nparams ≠ 2 then .ok (.null, w)
  else do
    let a₀ ← argAt a 0
    if a₀.argSize ≠ sizeofInt then .ok (.null, w)
    else do
      let id ← intAt a₀.argVal
      let a₁ ← argAt a 1
      if a₁.argSize ≠ sizeofInt then .ok (.null, w)
      else do
        let fd ← intAt a₁.argVal
        .ok (closeFd K id fd w)

def fsRead (nparams : Int32) (a : List ArgType) (w : World κ) :
    Except Fault (ReturnType × World κ) :=
  if nparams ≠ 4 then .ok (.null, w)
  else do
    let a₀ ← argAt a 0
    if a₀.argSize ≠ sizeofInt then .ok (.null, w)
    else do
      let _id ← intAt a₀.argVal
      let a₁ ← argAt a 1
      let a₃ ← argAt a 3
      if a₁.argSize ≠ sizeofInt ∨ a₃.argSize ≠ sizeofInt then .ok (.null, w)
      else do
        let fd ← intAt a₁.argVal
        let count ← intAt a₃.argVal
        readFd K fd count w

def fsWrite (nparams : Int32) (a : List ArgType) (w : World κ) :
    Except Fault (ReturnType × World κ) :=
  if nparams ≠ 4 then .ok (.null, w)
  else do
    let a₀ ← argAt a 0
    if a₀.argSize ≠ sizeofInt then .ok (.null, w)
    else do
      let id ← intAt a₀.argVal
      let a₁ ← argAt a 1
      let a₂ ← argAt a 2
      if a₁.argSize ≠ sizeofInt ∨ a₂.argSize ≠ sizeofInt then .ok (.null, w)
      else do
        let fd ← intAt a₁.argVal
        let res := findResource w.srv.resourceList id fd none
        if refuses res id then .ok (refusal, w)
        else do
          let count ← intAt a₂.argVal
          let a₃ ← argAt a 3
          writeFd K fd count a₃.argVal w

end

end RemoteFs
