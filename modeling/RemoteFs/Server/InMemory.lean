import Mathlib.Order.Filter.AtTopBot.Basic
import RemoteFs.Server.FileSystem
import RemoteFs.Server.History
import RemoteFs.Server.ResourceList

/-!
# The server with its lists in memory

The handlers of `Server.Handlers` keep the lock table and the directories that are open in lists.  The
program keeps them in two linked lists, which are searched and changed through pointers.  Here are the
handlers as they are written: `find_resource` returns an address, `res->id` is read through it,
`add_resource` puts an entry into a block fresh from `malloc`, `remove_resource` frees one, and `find` of
`queue.c` follows the links of the other list.

`MemWorld.Rep m w` says that the memory of `m` holds the lists of `w`, and that nothing else is allocated
for entries.

* `memory_run_iff`: the histories of the two servers are the same, and so are the states they lead to.
  No run follows a pointer to a block that is not allocated, frees one twice, or loses one.
* `memory_fault_iff`: a request that faults does so in the other model too, in the same way, wherever
  `malloc` puts what it allocates.

A loop runs for so many `turns`; what it does is what it does for every number that is large enough.
-/

set_option autoImplicit false

namespace RemoteFs

open Linked

variable {κ : Type}

/-! ## The program -/

/-- The nodes that are allocated, and the global `open_dir_queue`. -/
structure Queue where
  heap : Heap Node
  openDirQueue : Link

/-- The loop of `find`, for so many turns. -/
def findNodeLoop (heap : Heap Node) (id : Int32) : ℕ → Link → Except Fault Link
  | 0, _ => .error .hang
  | _ + 1, none => .ok none
  | turns + 1, some n =>
    match heap n with
    | none => .error .overread
    | some c => if c.val.id = id then .ok (some n) else findNodeLoop heap id turns c.next

/-- `add_open_dir`, for a `dir` that is not `NULL`, where `malloc` returns `b`. -/
def Queue.addOpenDir (q : Queue) (b : ℕ) (dir : Dir) (id : Int32) : Queue :=
  ⟨q.heap.store b ⟨⟨id, dir⟩, q.openDirQueue⟩, some b⟩

/-- `found->dir`. -/
def Queue.dir (q : Queue) (found : Link) : Except Fault Dir :=
  match found with
  | none => .error .nullDeref
  | some n =>
    match q.heap n with
    | none => .error .overread
    | some c => .ok c.val.dir

/-- `res != NULL && res->id != id`. -/
def Memory.refuses (mem : Memory) (res : Link) (id : Int32) : Except Fault Bool :=
  match res with
  | none => .ok false
  | some a =>
    match mem.heap a with
    | none => .error .overread
    | some c => .ok (decide (c.val.id ≠ id))

/-- The globals of `server.c`, the kernel, and the calls made so far. -/
structure MemWorld (κ : Type) where
  mountedDir : CString
  openDirId : Int32 := 1
  clientId : Int32 := 0
  errno : Int32 := 0
  queue : Queue := ⟨fun _ ↦ none, none⟩
  table : Memory := ⟨fun _ ↦ none, none⟩
  kern : κ
  calls : List Syscall := []

/-- The world after the call `c` with outcome `r`. -/
def MemWorld.after {α : Type} (m : MemWorld κ) (c : Syscall) (r : Except Errno α × κ) :
    MemWorld κ :=
  { m with
    errno := match r.1 with
      | .ok _ => m.errno
      | .error e => e.1
    kern := r.2
    calls := c :: m.calls }

/-- Where `malloc` puts the next entry and the next node, and how long the loops may take. -/
structure Blocks where
  entry : ℕ
  node : ℕ
  turns : ℕ

section
variable (K : Kernel κ) (at_ : Blocks)

/-- Every handler that takes the lock: the check, and what is done when it is passed. -/
def MemWorld.locked (m : MemWorld κ) (id fd : Int32) (path : Option CString)
    (act : Link → Except Fault (ReturnType × MemWorld κ)) : Except Fault (ReturnType × MemWorld κ) :=
  m.table.findResource at_.turns id fd path >>= fun res ↦
    m.table.refuses res id >>= fun refused ↦ if refused then .ok (refusal, m) else act res

/-- `remove_resource(&resource_list, id, fd, path)` and the reply. -/
def MemWorld.releasing (m : MemWorld κ) (id fd : Int32) (path : Option CString)
    (reply : ReturnType) : Except Fault (ReturnType × MemWorld κ) :=
  m.table.removeResource at_.turns id fd path >>= fun table ↦ .ok (reply, { m with table := table })

/-- `add_resource`, and "remove the old one" if there was one. -/
def Memory.replace (mem : Memory) (res : Link) (lock id fd : Int32) (path : CString) :
    Except Fault Memory :=
  let mem := mem.addResource at_.entry lock id fd (some path)
  if res.isSome then mem.removeResource at_.turns id 0 (some path) else .ok mem

/-- `fsMount` after the argument check. -/
def mountMem (m : MemWorld κ) : Except Fault (ReturnType × MemWorld κ) :=
  let id := m.clientId + 1
  let dir := m.mountedDir
  if 256 < dir.strlen + 1 then .error .overflow
  else
    let path := dir.mem ++ List.replicate (256 - dir.mem.length) 0
    .ok (⟨some (intBytes id ++ path), 260, 0⟩, { m with clientId := id })

/-- `fsOpenDir`. -/
def openDirMem (id : Int32) (path : CString) (m : MemWorld κ) :
    Except Fault (ReturnType × MemWorld κ) :=
  m.locked at_ id 0 (some path) fun res ↦
    let dir := K.opendir m.kern path
    let m := m.after (.opendir path) dir
    match dir.1 with
    | .error _ => .ok (.null, m)
    | .ok d =>
      let num := m.openDirId + 1
      let m := { m with openDirId := num, queue := m.queue.addOpenDir at_.node d num }
      m.table.replace at_ res 1 id num path >>= fun table ↦ .ok (.int num, { m with table := table })

/-- `fsReadDir`. -/
def readDirMem (num : Int32) (m : MemWorld κ) : Except Fault (ReturnType × MemWorld κ) :=
  findNodeLoop m.queue.heap num at_.turns m.queue.openDirQueue >>= fun found ↦
    m.queue.dir found >>= fun dir ↦
      let er := m.errno
      let ent := K.readdir m.kern dir
      let m := m.after (.readdir dir) ent
      match ent.1 with
      | .ok (some ent) => .ok (⟨some ent.bytes, 280, 0⟩, m)
      | _ => if m.errno ≠ er then .ok (.int m.errno, m) else .ok (.null, m)

/-- `fsCloseDir`; the lock check sees `garbage`. -/
def closeDirMem (id num garbage : Int32) (m : MemWorld κ) : Except Fault (ReturnType × MemWorld κ) :=
  m.locked at_ id garbage none fun _ ↦
    findNodeLoop m.queue.heap num at_.turns m.queue.openDirQueue >>= fun found ↦
      m.queue.dir found >>= fun dir ↦
        let r := K.closedir m.kern dir
        let m := m.after (.closedir dir) r
        m.releasing at_ id num none (.int (orErrno (intResult r.1 fun _ ↦ 0) m.errno))

/-- `fsRemove`. -/
def removeMem (id : Int32) (path : CString) (m : MemWorld κ) :
    Except Fault (ReturnType × MemWorld κ) :=
  m.locked at_ id 0 (some path) fun _ ↦
    let r := K.remove m.kern path
    let m := m.after (.remove path) r
    m.releasing at_ id 0 (some path) (.int (orErrno (intResult r.1 fun _ ↦ 0) m.errno))

/-- `fsOpen`. -/
def openMem (id mode : Int32) (fname : CString) (m : MemWorld κ) :
    Except Fault (ReturnType × MemWorld κ) :=
  m.locked at_ id 0 (some fname) fun res ↦
    let r := K.open_ m.kern fname (openFlags mode)
    let m := m.after (.open_ fname (openFlags mode)) r
    let fd := intResult r.1 fun fd ↦ fd.1
    m.table.replace at_ res mode id fd fname >>= fun table ↦
      .ok (.int (orErrno fd m.errno), { m with table := table })

/-- `fsClose`. -/
def closeMem (id fd : Int32) (m : MemWorld κ) : Except Fault (ReturnType × MemWorld κ) :=
  m.locked at_ id fd none fun _ ↦
    let r := K.close m.kern fd
    let m := m.after (.close fd) r
    m.releasing at_ id fd none (.int (orErrno (intResult r.1 fun _ ↦ 0) m.errno))

/-- `fsRead`. -/
def readMem (fd count : Int32) (m : MemWorld κ) : Except Fault (ReturnType × MemWorld κ) :=
  let got := K.read m.kern fd (sizeT count)
  let m := m.after (.read fd (sizeT count)) got
  let buf : Bytes := match got.1 with
    | .ok bs => bs.1
    | .error _ => []
  let r := intResult got.1 fun bs ↦ Int32.ofNat bs.1.length
  let size := sizeofInt + r
  if count < 0 ∧ buf ≠ [] then .error .overflow
  else if size.toInt < 4 + buf.length then .error .overflow
  else .ok (⟨some (intBytes r ++ buf), size, 0⟩, m)

/-- `fsWrite`. -/
def writeMem (id fd count : Int32) (buf : Bytes) (m : MemWorld κ) :
    Except Fault (ReturnType × MemWorld κ) :=
  m.locked at_ id fd none fun _ ↦
    if buf.length < sizeT count then .error .overread
    else
      let data := buf.take (sizeT count)
      let r := K.write m.kern fd data
      let m := m.after (.write fd data) r
      .ok (.int (orErrno (intResult r.1 fun n ↦ Int32.ofNat n.1) m.errno), m)

/-- The half of a handler that acts. -/
def performMem (garbage : Int32) (op : Op) (m : MemWorld κ) : Except Fault (ReturnType × MemWorld κ) :=
  match op with
  | .ignored | .unmount _ => .ok (.null, m)
  | .mount => mountMem m
  | .openDir id path => openDirMem K at_ id path m
  | .readDir num => readDirMem K at_ num m
  | .closeDir id num => closeDirMem K at_ id num garbage m
  | .remove id path => removeMem K at_ id path m
  | .open_ id mode path => openMem K at_ id mode path m
  | .close id fd => closeMem K at_ id fd m
  | .read fd count => readMem K fd count m
  | .write id fd count buf => writeMem K at_ id fd count buf m

/-- Run the handler of a request. -/
def serveMem (req : Request) (m : MemWorld κ) : Except Fault (ReturnType × MemWorld κ) :=
  req.op >>= fun op ↦ performMem K at_ req.garbage op m

end

/-! ## The lists it holds -/

/-- The memory of `m` holds the lists of `w` and nothing else, and the rest is the same. -/
structure MemWorld.Rep (m : MemWorld κ) (w : World κ) : Prop where
  mountedDir : m.mountedDir = w.srv.mountedDir
  openDirId : m.openDirId = w.srv.openDirId
  clientId : m.clientId = w.srv.clientId
  errno : m.errno = w.srv.errno
  kern : m.kern = w.kern
  calls : m.calls = w.calls
  table : ∃ l, Owns m.table.heap m.table.resourceList l ∧ l.map Prod.snd = w.srv.resourceList
  queue : ∃ l, Owns m.queue.heap m.queue.openDirQueue l ∧ l.map Prod.snd = w.srv.openDirQueue

section
variable {m : MemWorld κ} {w : World κ}

/-- A memory holds one world. -/
theorem MemWorld.Rep.unique {w' : World κ} (h : m.Rep w) (h' : m.Rep w') : w = w' := by
  obtain ⟨l, hl, hlist⟩ := h.table
  obtain ⟨l', hl', hlist'⟩ := h'.table
  obtain ⟨q, hq, hqueue⟩ := h.queue
  obtain ⟨q', hq', hqueue'⟩ := h'.queue
  rw [hl'.seg.unique hl.seg, hlist] at hlist'
  rw [hq'.seg.unique hq.seg, hqueue] at hqueue'
  obtain ⟨⟨dir, num, queue, list, id, errno⟩, kern, calls⟩ := w
  obtain ⟨⟨dir', num', queue', list', id', errno'⟩, kern', calls'⟩ := w'
  simp only at hlist' hqueue'
  rw [hlist', hqueue', show dir = dir' from h.mountedDir.symm.trans h'.mountedDir,
    show num = num' from h.openDirId.symm.trans h'.openDirId,
    show id = id' from h.clientId.symm.trans h'.clientId,
    show errno = errno' from h.errno.symm.trans h'.errno,
    show kern = kern' from h.kern.symm.trans h'.kern,
    show calls = calls' from h.calls.symm.trans h'.calls]

theorem MemWorld.Rep.after (h : m.Rep w) {α : Type} (c : Syscall) (r : Except Errno α × κ) :
    (m.after c r).Rep (w.after c r) where
  mountedDir := by
    rw [World.after]
    cases r.1 <;> exact h.mountedDir
  openDirId := h.openDirId.trans (World.after_openDirId w c r).symm
  clientId := h.clientId.trans (World.after_clientId w c r).symm
  errno := by
    rw [World.after, MemWorld.after]
    cases r.1 with
    | ok x => exact h.errno
    | error e => rfl
  kern := rfl
  calls := congrArg (c :: ·) h.calls
  table := by
    rw [World.after_resourceList]
    exact h.table
  queue := by
    rw [World.after_openDirQueue]
    exact h.queue

theorem MemWorld.Rep.setTable (h : m.Rep w) {table : Memory} {l : List (ℕ × Resource)}
    (hl : Owns table.heap table.resourceList l) :
    ({ m with table := table } : MemWorld κ).Rep (w.setResources (l.map Prod.snd)) :=
  ⟨h.mountedDir, h.openDirId, h.clientId, h.errno, h.kern, h.calls, ⟨l, hl, rfl⟩, h.queue⟩

end

/-! ## What the loops come to -/

section
variable {id fd : Int32} {path : Option CString}

theorem findNodeLoop_eq {heap : Heap Node} {p : Link} {l : List (ℕ × Node)} {turns : ℕ}
    (hl : Seg heap p l none) (hturns : l.length < turns) :
    findNodeLoop heap id turns p
      = .ok ((l.find? fun x ↦ decide (x.2.id = id)).map Prod.fst) := by
  induction turns generalizing p l with
  | zero => exact absurd hturns (Nat.not_lt_zero _)
  | succ turns ih =>
    rcases hl with _ | ⟨cell, rest⟩
    · rfl
    · rw [List.length_cons] at hturns
      rw [findNodeLoop, cell, List.find?_cons]
      rename_i a n next l
      by_cases hn : n.id = id
      · simp [hn]
      · simp only [if_neg hn, decide_eq_false hn]
        exact ih rest (by omega)

theorem findNode_eq_find? (l : List Node) (id : Int32) :
    findNode l id = l.find? fun n ↦ decide (n.id = id) := by
  induction l with
  | nil => rfl
  | cons n l ih =>
    rw [findNode, List.find?_cons, ih]
    by_cases hn : n.id = id <;> simp [hn]

/-- More turns do not change what a removal has come to. -/
theorem removeLoop_mono {mem mem' : Memory} {prev cur : Link} {turns turns' : ℕ}
    (hle : turns ≤ turns') (h : removeLoop mem id fd path turns prev cur = .ok mem') :
    removeLoop mem id fd path turns' prev cur = .ok mem' := by
  induction turns generalizing prev cur turns' with
  | zero => cases h
  | succ turns ih =>
    obtain ⟨more, rfl⟩ : ∃ more, turns' = more + 1 := ⟨turns' - 1, by omega⟩
    rcases cur with _ | cur
    · exact h
    · rw [removeLoop] at h ⊢
      split at h
      · cases h
      · split at h
        · rename_i hmatch
          rw [if_pos hmatch]
          exact h
        · rename_i hmatch
          rw [if_neg hmatch]
          exact ih (Nat.le_of_succ_le_succ hle) h

/-- A removal changes nothing, or frees a cell and allocates none. -/
theorem removeLoop_frees {mem mem' : Memory} {prev cur : Link} {turns : ℕ}
    (h : removeLoop mem id fd path turns prev cur = .ok mem') :
    mem' = mem ∨ ∃ a, mem.heap a ≠ none ∧ mem'.heap a = none ∧
      ∀ b, mem'.heap b ≠ none → mem.heap b ≠ none := by
  induction turns generalizing prev cur with
  | zero => cases h
  | succ turns ih =>
    rcases cur with _ | cur
    · cases h
      exact .inl rfl
    · rw [removeLoop] at h
      split at h
      · cases h
      · rename_i c hc
        have hallocated : mem.heap cur ≠ none := by
          rw [hc]
          exact Option.some_ne_none c
        split at h
        · right
          refine ⟨cur, hallocated, ?_⟩
          split at h
          · cases h
            refine ⟨Heap.free_self _ _, fun b hb hnone ↦ hb ?_⟩
            by_cases hbc : b = cur
            · rw [hbc]
              exact Heap.free_self _ _
            · exact (Heap.free_of_ne _ hbc).trans hnone
          · rename_i p
            split at h
            · cases h
            · rename_i before hbefore
              cases h
              refine ⟨Heap.free_self _ _, fun b hb hnone ↦ hb ?_⟩
              by_cases hbc : b = cur
              · rw [hbc]
                exact Heap.free_self _ _
              · have hbp : b ≠ p := by
                  rintro rfl
                  rw [hbefore] at hnone
                  cases hnone
                exact (Heap.free_of_ne _ hbc).trans ((Heap.store_of_ne _ _ hbp).trans hnone)
        · exact ih h

end

open Filter

section
variable {mem : Memory} {l : List (ℕ × Resource)} (id fd : Int32) (path : Option CString)

/-- **The check**: the address that is found, and whether it is somebody else's. -/
theorem Memory.findResource_eventually (hl : Owns mem.heap mem.resourceList l) :
    ∃ res : Link, res.isSome = (RemoteFs.findResource (l.map Prod.snd) id fd path).isSome ∧
      mem.refuses res id
        = .ok (RemoteFs.refuses (RemoteFs.findResource (l.map Prod.snd) id fd path) id) ∧
      ∀ᶠ turns in atTop, mem.findResource turns id fd path = .ok res := by
  have hlist : RemoteFs.findResource (l.map Prod.snd) id fd path
      = (l.find? fun x ↦ x.2.hasKey fd path).map Prod.snd := by
    rw [findResource_eq_find?, List.find?_map]
    rfl
  refine ⟨(l.find? fun x ↦ x.2.hasKey fd path).map Prod.fst, ?_, ?_, ?_⟩
  · rw [hlist, Option.isSome_map, Option.isSome_map]
  · rw [hlist]
    rcases hfind : l.find? fun x ↦ x.2.hasKey fd path with _ | ⟨a, r⟩ <;> rw [hfind]
    · rfl
    · obtain ⟨next, hcell⟩ := hl.seg.exists_cell (List.mem_of_find?_eq_some hfind)
      simp [Memory.refuses, hcell, RemoteFs.refuses]
  · exact (eventually_gt_atTop l.length).mono fun turns hturns ↦
      Memory.findResource_eq id fd path hl.seg hturns

/-- **The removal**: it comes to an end, and keeps account of what is allocated. -/
theorem Memory.removeResource_eventually (hl : Owns mem.heap mem.resourceList l) :
    ∃ (mem' : Memory) (l' : List (ℕ × Resource)), Owns mem'.heap mem'.resourceList l' ∧
      l'.map Prod.snd = RemoteFs.removeResource (l.map Prod.snd) id fd path ∧
      ∀ᶠ turns in atTop, mem.removeResource turns id fd path = .ok mem' := by
  obtain ⟨mem', hremove, hholds, -⟩ :=
    Memory.removeResource_holds id fd path hl.seg (Nat.lt_succ_self _)
  refine ⟨mem', _, hl.eraseP hholds ?_, ?_, ?_⟩
  · rcases removeLoop_frees hremove with rfl | hfreed
    · exact .inl ⟨rfl, rfl⟩
    · exact .inr hfreed
  · rw [removeResource_eq_eraseP, List.eraseP_map]
    rfl
  · exact (eventually_ge_atTop _).mono fun turns hturns ↦ removeLoop_mono hturns hremove

end

section
variable {m : MemWorld κ} {w : World κ} {a b : ℕ}

/-- A handler that takes the lock is refused, or does what it does then. -/
theorem MemWorld.Rep.locked (h : m.Rep w) (id fd : Int32) (path : Option CString)
    (act : ℕ → Link → Except Fault (ReturnType × MemWorld κ)) :
    ∃ res : Link, res.isSome = (findResource w.srv.resourceList id fd path).isSome ∧
      ∀ᶠ turns in atTop, m.locked ⟨a, b, turns⟩ id fd path (act turns)
        = if refuses (findResource w.srv.resourceList id fd path) id then .ok (refusal, m)
          else act turns res := by
  obtain ⟨l, hl, hlist⟩ := h.table
  rw [← hlist]
  obtain ⟨res, hsome, hrefuses, hfind⟩ := Memory.findResource_eventually id fd path hl
  refine ⟨res, hsome, hfind.mono fun turns hturns ↦ ?_⟩
  rw [MemWorld.locked, hturns, ok_bind, hrefuses, ok_bind]

/-- The entry is given back. -/
theorem MemWorld.Rep.releasing (h : m.Rep w) (id fd : Int32) (path : Option CString)
    (reply : ReturnType) :
    ∃ m' : MemWorld κ, m'.Rep (w.setResources (removeResource w.srv.resourceList id fd path)) ∧
      ∀ᶠ turns in atTop, m.releasing ⟨a, b, turns⟩ id fd path reply = .ok (reply, m') := by
  obtain ⟨l, hl, hlist⟩ := h.table
  obtain ⟨table, l', hl', hlist', hremove⟩ := Memory.removeResource_eventually id fd path hl
  refine ⟨{ m with table := table }, ?_, hremove.mono fun turns hturns ↦ ?_⟩
  · rw [← hlist, ← hlist']
    exact h.setTable hl'
  · rw [MemWorld.releasing, hturns]
    rfl

/-- An entry takes the place of another. -/
theorem MemWorld.Rep.replace (h : m.Rep w) (ha : m.table.heap a = none) {res : Link} {bool : Bool}
    (hres : res.isSome = bool) (lock id fd : Int32) (path : CString) :
    ∃ table : Memory, ({ m with table := table } : MemWorld κ).Rep (w.setResources
        (if bool then
          removeResource (addResource w.srv.resourceList lock id fd path) id 0 (some path)
        else addResource w.srv.resourceList lock id fd path)) ∧
      ∀ᶠ turns in atTop, m.table.replace ⟨a, b, turns⟩ res lock id fd path = .ok table := by
  obtain ⟨l, hl, hlist⟩ := h.table
  have hadd : Owns (m.table.addResource a lock id fd (some path)).heap
      (m.table.addResource a lock id fd (some path)).resourceList
      ((a, ⟨lock, id, fd, path⟩) :: l) := hl.store_head ha _
  rw [← hlist]
  cases bool with
  | false =>
    refine ⟨m.table.addResource a lock id fd (some path), ?_, .of_forall fun turns ↦ ?_⟩
    · exact h.setTable hadd
    · rw [Memory.replace, hres]
      rfl
  | true =>
    obtain ⟨table, l', hl', hlist', hremove⟩ :=
      Memory.removeResource_eventually id 0 (some path) hadd
    refine ⟨table, ?_, hremove.mono fun turns hturns ↦ ?_⟩
    · rw [if_pos rfl]
      have hrep := h.setTable hl'
      rw [hlist'] at hrep
      exact hrep
    · rw [Memory.replace, hres]
      exact hturns

/-- **The directory**: what is found, and where its stream is. -/
theorem MemWorld.Rep.findDir (h : m.Rep w) (num : Int32) :
    ∃ found : Link,
      (∀ᶠ turns in atTop, findNodeLoop m.queue.heap num turns m.queue.openDirQueue = .ok found) ∧
      m.queue.dir found = match findNode w.srv.openDirQueue num with
        | none => .error .nullDeref
        | some d => .ok d.dir := by
  obtain ⟨l, hl, hlist⟩ := h.queue
  refine ⟨_, (eventually_gt_atTop l.length).mono fun turns hturns ↦ findNodeLoop_eq hl.seg hturns, ?_⟩
  have hfind : findNode w.srv.openDirQueue num
      = (l.find? fun x ↦ decide (x.2.id = num)).map Prod.snd := by
    rw [← hlist, findNode_eq_find?, List.find?_map]
    rfl
  rw [hfind]
  rcases hx : l.find? fun x ↦ decide (x.2.id = num) with _ | ⟨c, n⟩ <;> rw [hx]
  · rfl
  · obtain ⟨next, hcell⟩ := hl.seg.exists_cell (List.mem_of_find?_eq_some hx)
    simp [Queue.dir, hcell]

end

/-! ## What the handlers come to -/

/-- The same fault, or the same reply and a memory that holds the world. -/
inductive Matches : Except Fault (ReturnType × World κ) →
    Except Fault (ReturnType × MemWorld κ) → Prop
  | error (f : Fault) : Matches (.error f) (.error f)
  | ok (r : ReturnType) {w : World κ} {m : MemWorld κ} (h : m.Rep w) :
    Matches (.ok (r, w)) (.ok (r, m))

/-- Given enough turns, `f` does the same as `x`. -/
def ComesTo (f : ℕ → Except Fault (ReturnType × MemWorld κ))
    (x : Except Fault (ReturnType × World κ)) : Prop :=
  ∃ y, Matches x y ∧ ∀ᶠ turns in atTop, f turns = y

section
variable {m : MemWorld κ} {w : World κ} {a b : ℕ}

theorem ComesTo.of_matches {x : Except Fault (ReturnType × World κ)}
    {y : Except Fault (ReturnType × MemWorld κ)} (h : Matches x y) : ComesTo (fun _ ↦ y) x :=
  ⟨y, h, .of_forall fun _ ↦ rfl⟩

theorem ComesTo.congr {f f' : ℕ → Except Fault (ReturnType × MemWorld κ)}
    {x : Except Fault (ReturnType × World κ)} (h : ComesTo f x)
    (heq : ∀ᶠ turns in atTop, f' turns = f turns) : ComesTo f' x := by
  obtain ⟨y, hy, hf⟩ := h
  refine ⟨y, hy, ?_⟩
  filter_upwards [hf, heq] with turns h₁ h₂
  exact h₂.trans h₁

/-- **The rule for the lock check.** -/
theorem ComesTo.locked (h : m.Rep w) {id fd : Int32} {path : Option CString}
    {act : ℕ → Link → Except Fault (ReturnType × MemWorld κ)}
    {x : Except Fault (ReturnType × World κ)}
    (hact : ∀ res : Link, res.isSome = (findResource w.srv.resourceList id fd path).isSome →
      ComesTo (fun turns ↦ act turns res) x) :
    ComesTo (fun turns ↦ m.locked ⟨a, b, turns⟩ id fd path (act turns))
      (if refuses (findResource w.srv.resourceList id fd path) id then .ok (refusal, w) else x) := by
  obtain ⟨res, hsome, hlocked⟩ := h.locked (a := a) (b := b) id fd path act
  split
  · rename_i hrefused
    refine (ComesTo.of_matches (.ok refusal h)).congr (hlocked.mono fun turns hturns ↦ ?_)
    rw [hturns, if_pos hrefused]
  · rename_i hadmitted
    refine (hact res hsome).congr (hlocked.mono fun turns hturns ↦ ?_)
    rw [hturns, if_neg hadmitted]

/-- The rule for giving an entry back. -/
theorem ComesTo.releasing (h : m.Rep w) (id fd : Int32) (path : Option CString)
    (reply : ReturnType) :
    ComesTo (fun turns ↦ m.releasing ⟨a, b, turns⟩ id fd path reply)
      (.ok (reply, w.setResources (removeResource w.srv.resourceList id fd path))) := by
  obtain ⟨m', hrep, hm'⟩ := h.releasing (a := a) (b := b) id fd path reply
  exact ⟨_, .ok reply hrep, hm'⟩

/-- The rule for a call that goes through an open directory. -/
theorem ComesTo.findDir (h : m.Rep w) {num : Int32}
    {act : ℕ → Dir → Except Fault (ReturnType × MemWorld κ)}
    {x : Node → Except Fault (ReturnType × World κ)}
    (hact : ∀ d : Node, ComesTo (fun turns ↦ act turns d.dir) (x d)) :
    ComesTo (fun turns ↦ findNodeLoop m.queue.heap num turns m.queue.openDirQueue >>= fun found ↦
        m.queue.dir found >>= act turns)
      (match findNode w.srv.openDirQueue num with
        | none => .error .nullDeref
        | some d => x d) := by
  obtain ⟨found, hloop, hdir⟩ := h.findDir num
  rcases hfind : findNode w.srv.openDirQueue num with _ | d <;> rw [hfind] at hdir
  · refine (ComesTo.of_matches (.error .nullDeref)).congr (hloop.mono fun turns hturns ↦ ?_)
    rw [hturns, ok_bind, hdir]
    rfl
  · refine (hact d).congr (hloop.mono fun turns hturns ↦ ?_)
    rw [hturns, ok_bind, hdir, ok_bind]

variable (K : Kernel κ)

theorem mountMem_matches (h : m.Rep w) : Matches (mountClient w) (mountMem m) := by
  have hid : m.clientId + 1 = w.srv.clientId + 1 := congrArg (· + 1) h.clientId
  by_cases hlong : 256 < w.srv.mountedDir.strlen + 1
  · have hclient : mountClient w = .error .overflow := if_pos hlong
    have hmem : mountMem m = .error .overflow := by
      rw [mountMem, h.mountedDir]
      exact if_pos hlong
    rw [hclient, hmem]
    exact .error _
  · have hclient : mountClient w = .ok _ := if_neg hlong
    have hmem : mountMem m = .ok (⟨some (intBytes (w.srv.clientId + 1) ++ (w.srv.mountedDir.mem
        ++ List.replicate (256 - w.srv.mountedDir.mem.length) 0)), 260, 0⟩,
        { m with clientId := w.srv.clientId + 1 }) := by
      rw [mountMem, h.mountedDir, hid]
      exact if_neg hlong
    rw [hclient, hmem]
    exact .ok _ ⟨h.mountedDir, h.openDirId, rfl, h.errno, h.kern, h.calls, h.table, h.queue⟩

theorem readMem_matches (h : m.Rep w) (fd count : Int32) :
    Matches (readFd K fd count w) (readMem K fd count m) := by
  rw [readFd, readMem, h.kern]
  have hafter := h.after (.read fd (sizeT count)) (K.read w.kern fd (sizeT count))
  generalize K.read w.kern fd (sizeT count) = got at hafter ⊢
  obtain ⟨e | bs, k⟩ := got <;> dsimp only <;> split
  · exact .error _
  · split
    · exact .error _
    · exact .ok _ hafter
  · exact .error _
  · split
    · exact .error _
    · exact .ok _ hafter

theorem readDirMem_comesTo (h : m.Rep w) (num : Int32) :
    ComesTo (fun turns ↦ readDirMem K ⟨a, b, turns⟩ num m) (readDirNum K num w) := by
  refine ComesTo.findDir h fun d ↦ .of_matches ?_
  rw [h.kern]
  have hafter := h.after (.readdir d.dir) (K.readdir w.kern d.dir)
  have herrno := hafter.errno
  dsimp only
  rw [h.errno, herrno]
  generalize K.readdir w.kern d.dir = ent at hafter ⊢
  obtain ⟨e | (_ | ent), k⟩ := ent <;> dsimp only
  · split <;> exact .ok _ hafter
  · split <;> exact .ok _ hafter
  · exact .ok _ hafter

theorem closeDirMem_comesTo (h : m.Rep w) (id num g : Int32) :
    ComesTo (fun turns ↦ closeDirMem K ⟨a, b, turns⟩ id num g m) (closeDirNum K id num g w) := by
  refine ComesTo.locked h fun res _ ↦ ComesTo.findDir h fun d ↦ ?_
  rw [h.kern]
  have hafter := h.after (.closedir d.dir) (K.closedir w.kern d.dir)
  dsimp only
  rw [← hafter.errno]
  exact ComesTo.releasing hafter id num none _

theorem removeMem_comesTo (h : m.Rep w) (id : Int32) (path : CString) :
    ComesTo (fun turns ↦ removeMem K ⟨a, b, turns⟩ id path m) (.ok (removePath K id path w)) := by
  rw [removePath]
  dsimp only
  rw [apply_ite Except.ok]
  refine ComesTo.locked h fun res _ ↦ ?_
  rw [h.kern]
  have hafter := h.after (.remove path) (K.remove w.kern path)
  rw [← hafter.errno]
  exact ComesTo.releasing hafter id 0 (some path) _

theorem closeMem_comesTo (h : m.Rep w) (id fd : Int32) :
    ComesTo (fun turns ↦ closeMem K ⟨a, b, turns⟩ id fd m) (.ok (closeFd K id fd w)) := by
  rw [closeFd]
  dsimp only
  rw [apply_ite Except.ok]
  refine ComesTo.locked h fun res _ ↦ ?_
  rw [h.kern]
  have hafter := h.after (.close fd) (K.close w.kern fd)
  rw [← hafter.errno]
  exact ComesTo.releasing hafter id fd none _

theorem writeMem_comesTo (h : m.Rep w) (id fd count : Int32) (buf : Bytes) :
    ComesTo (fun turns ↦ writeMem K ⟨a, b, turns⟩ id fd count buf m)
      (if refuses (findResource w.srv.resourceList id fd none) id then .ok (refusal, w)
        else writeFd K fd count buf w) := by
  refine ComesTo.locked h fun res _ ↦ .of_matches ?_
  rw [writeFd, h.kern]
  have hafter := h.after (.write fd (buf.take (sizeT count)))
    (K.write w.kern fd (buf.take (sizeT count)))
  split
  · exact .error _
  · dsimp only
    rw [← hafter.errno]
    exact .ok _ hafter

theorem openMem_comesTo (h : m.Rep w) (ha : m.table.heap a = none) (id mode : Int32)
    (path : CString) :
    ComesTo (fun turns ↦ openMem K ⟨a, b, turns⟩ id mode path m) (.ok (openPath K id mode path w)) := by
  rw [openPath]
  dsimp only
  rw [apply_ite Except.ok]
  refine ComesTo.locked h fun res hres ↦ ?_
  rw [h.kern]
  have hafter := h.after (.open_ path (openFlags mode)) (K.open_ w.kern path (openFlags mode))
  obtain ⟨table, hrep, htable⟩ := hafter.replace (a := a) (b := b) ha hres mode id
    (intResult (K.open_ w.kern path (openFlags mode)).1 fun fd ↦ fd.1) path
  rw [← hafter.errno]
  refine ⟨_, .ok _ hrep, htable.mono fun turns hturns ↦ ?_⟩
  dsimp only
  rw [hturns, ok_bind]

/-- A directory has been opened and put into the queue. -/
theorem MemWorld.Rep.addOpenDir (h : m.Rep w) (hb : m.queue.heap b = none) (d : Dir) (num : Int32) :
    ({ m with openDirId := num, queue := m.queue.addOpenDir b d num } : MemWorld κ).Rep
      { w with srv := { w.srv with
          openDirId := num, openDirQueue := RemoteFs.addOpenDir w.srv.openDirQueue d num } } := by
  obtain ⟨l, hl, hqueue⟩ := h.queue
  refine ⟨h.mountedDir, rfl, h.clientId, h.errno, h.kern, h.calls, h.table, _,
    hl.store_head hb ⟨num, d⟩, ?_⟩
  rw [List.map_cons, hqueue]
  rfl

theorem openDirMem_comesTo (h : m.Rep w) (ha : m.table.heap a = none)
    (hb : m.queue.heap b = none) (id : Int32) (path : CString) :
    ComesTo (fun turns ↦ openDirMem K ⟨a, b, turns⟩ id path m)
      (.ok (openDirPath K id path w)) := by
  rw [openDirPath]
  dsimp only
  rw [apply_ite Except.ok]
  refine ComesTo.locked h fun res hres ↦ ?_
  rw [h.kern]
  have hafter := h.after (.opendir path) (K.opendir w.kern path)
  generalize K.opendir w.kern path = dir at hafter ⊢
  obtain ⟨e | d, k⟩ := dir <;> dsimp only
  · exact .of_matches (.ok _ hafter)
  · have hopened := hafter.addOpenDir hb d (w.srv.openDirId + 1)
    obtain ⟨table, hrep, htable⟩ := hopened.replace (a := a) (b := b) ha hres 1 id
      (w.srv.openDirId + 1) path
    have hnum : (m.after (.opendir path) ((.ok d, k) : Except Errno Dir × κ)).openDirId + 1
        = w.srv.openDirId + 1 := congrArg (· + 1) h.openDirId
    rw [hnum]
    refine ⟨_, .ok _ hrep, htable.mono fun turns hturns ↦ ?_⟩
    dsimp only at hturns ⊢
    rw [hturns, ok_bind]
    rfl

/-- **Every operation comes to the same.** -/
theorem performMem_comesTo (h : m.Rep w) (ha : m.table.heap a = none) (hb : m.queue.heap b = none)
    (g : Int32) (op : Op) :
    ComesTo (fun turns ↦ performMem K ⟨a, b, turns⟩ g op m) (perform K g op w) := by
  cases op with
  | ignored | unmount => exact .of_matches (.ok _ h)
  | mount => exact .of_matches (mountMem_matches h)
  | openDir id path => exact openDirMem_comesTo K h ha hb id path
  | readDir num => exact readDirMem_comesTo K h num
  | closeDir id num => exact closeDirMem_comesTo K h id num g
  | remove id path => exact removeMem_comesTo K h id path
  | open_ id mode path => exact openMem_comesTo K h ha id mode path
  | close id fd => exact closeMem_comesTo K h id fd
  | read fd count => exact .of_matches (readMem_matches K h fd count)
  | write id fd count buf => exact writeMem_comesTo K h id fd count buf

end

/-! ## Runs -/

/-- What a request comes to, if `malloc` returns `a` for an entry and `b` for a node. -/
def MemWorld.ServesAt (K : Kernel κ) (m : MemWorld κ) (a b : ℕ) (req : Request)
    (y : Except Fault (ReturnType × MemWorld κ)) : Prop :=
  ∀ᶠ turns in atTop, serveMem K ⟨a, b, turns⟩ req m = y

/-- What a request may come to: `malloc` returns some blocks that are not allocated. -/
def MemWorld.Serves (K : Kernel κ) (m : MemWorld κ) (req : Request)
    (y : Except Fault (ReturnType × MemWorld κ)) : Prop :=
  ∃ a b, m.table.heap a = none ∧ m.queue.heap b = none ∧ m.ServesAt K a b req y

/-- A request is served and its event recorded. -/
def memStep (K : Kernel κ) (m : MemWorld κ) (e : Event) (m' : MemWorld κ) : Prop :=
  m.Serves K e.req (.ok (e.reply, m')) ∧ m'.calls = e.calls ++ m.calls

/-- The world when `main` enters `launch_server`: both lists are empty. -/
def MemWorld.start (dir : CString) (k : κ) : MemWorld κ where
  mountedDir := dir
  kern := k

section
variable {K : Kernel κ} {m : MemWorld κ} {w : World κ}

theorem serveMem_comesTo (h : m.Rep w) {a b : ℕ} (ha : m.table.heap a = none)
    (hb : m.queue.heap b = none) (req : Request) :
    ComesTo (fun turns ↦ serveMem K ⟨a, b, turns⟩ req m) (serve K req w) := by
  rw [serve_eq]
  rcases hop : req.op with f | op
  · refine (ComesTo.of_matches (.error f)).congr (.of_forall fun turns ↦ ?_)
    rw [serveMem, hop]
    rfl
  · refine (performMem_comesTo K h ha hb req.garbage op).congr (.of_forall fun turns ↦ ?_)
    rw [serveMem, hop]
    rfl

/-- There is one outcome. -/
theorem eventually_unique {α : Type} {f : ℕ → α} {x y : α} (hx : ∀ᶠ turns in atTop, f turns = x)
    (hy : ∀ᶠ turns in atTop, f turns = y) : x = y := by
  obtain ⟨turns, h₁, h₂⟩ := (hx.and hy).exists
  exact h₁.symm.trans h₂

/-- **What a request comes to in memory is what it comes to on lists.** -/
theorem MemWorld.Rep.matches_of_serves (h : m.Rep w) {req : Request}
    {y : Except Fault (ReturnType × MemWorld κ)} (hy : m.Serves K req y) :
    Matches (serve K req w) y := by
  obtain ⟨a, b, ha, hb, hserve⟩ := hy
  obtain ⟨y', hmatches, hserve'⟩ := serveMem_comesTo h ha hb req
  rw [eventually_unique hserve hserve']
  exact hmatches

/-- **And it does come to something**, wherever `malloc` puts what it allocates. -/
theorem MemWorld.Rep.exists_servesAt (h : m.Rep w) {a b : ℕ} (ha : m.table.heap a = none)
    (hb : m.queue.heap b = none) (req : Request) :
    ∃ y, m.ServesAt K a b req y ∧ Matches (serve K req w) y := by
  obtain ⟨y, hmatches, hserve⟩ := serveMem_comesTo h ha hb req
  exact ⟨y, hserve, hmatches⟩

/-- There is always a block that is not allocated. -/
theorem MemWorld.Rep.exists_fresh (h : m.Rep w) :
    ∃ a b, m.table.heap a = none ∧ m.queue.heap b = none := by
  obtain ⟨l, hl, -⟩ := h.table
  obtain ⟨q, hq, -⟩ := h.queue
  obtain ⟨a, ha⟩ := hl.exists_fresh
  obtain ⟨b, hb⟩ := hq.exists_fresh
  exact ⟨a, b, ha, hb⟩

theorem MemWorld.Rep.exists_serves (h : m.Rep w) (req : Request) :
    ∃ y, m.Serves K req y ∧ Matches (serve K req w) y := by
  obtain ⟨a, b, ha, hb⟩ := h.exists_fresh
  obtain ⟨y, hserve, hmatches⟩ := h.exists_servesAt (K := K) ha hb req
  exact ⟨y, ⟨a, b, ha, hb, hserve⟩, hmatches⟩

/-- A fault is the same fault on lists. -/
theorem MemWorld.Rep.fault_of_serves (h : m.Rep w) {req : Request} {f : Fault}
    (hserves : m.Serves K req (.error f)) : serve K req w = .error f := by
  have hmatches := h.matches_of_serves hserves
  generalize serve K req w = x at hmatches ⊢
  cases hmatches
  rfl

/-- And a fault on lists is one wherever `malloc` puts what it allocates. -/
theorem MemWorld.Rep.servesAt_of_fault (h : m.Rep w) {req : Request} {f : Fault}
    (hserve : serve K req w = .error f) {a b : ℕ} (ha : m.table.heap a = none)
    (hb : m.queue.heap b = none) : m.ServesAt K a b req (.error f) := by
  obtain ⟨y, hserves, hmatches⟩ := h.exists_servesAt (K := K) ha hb req
  rw [hserve] at hmatches
  cases hmatches
  exact hserves

theorem MemWorld.rep_start (dir : CString) (k : κ) : (start dir k).Rep (.start dir k) :=
  ⟨rfl, rfl, rfl, rfl, rfl, rfl, ⟨[], .empty, rfl⟩, ⟨[], .empty, rfl⟩⟩

theorem MemWorld.Rep.step (h : m.Rep w) {e : Event} {m' : MemWorld κ} (hstep : memStep K m e m') :
    ∃ w', serverStep K w e w' ∧ m'.Rep w' := by
  obtain ⟨hserves, hcalls⟩ := hstep
  have hmatches := h.matches_of_serves hserves
  generalize hx : serve K e.req w = x at hmatches
  rcases hmatches with _ | @⟨_, w', _, hrep⟩
  refine ⟨w', ⟨hx, ?_⟩, hrep⟩
  rw [← hrep.calls, ← h.calls]
  exact hcalls

theorem MemWorld.Rep.step_back (h : m.Rep w) {e : Event} {w' : World κ}
    (hstep : serverStep K w e w') : ∃ m', memStep K m e m' ∧ m'.Rep w' := by
  obtain ⟨hserve, hcalls⟩ := hstep
  obtain ⟨y, hserves, hmatches⟩ := h.exists_serves (K := K) e.req
  rw [hserve] at hmatches
  rcases hmatches with _ | @⟨_, _, m', hrep⟩
  refine ⟨m', ⟨hserves, ?_⟩, hrep⟩
  rw [hrep.calls, h.calls]
  exact hcalls

end

/-- **The lists of the model are the lists in memory.**  A history leads the server to a state if and only
if it leads the server with its lists in memory to a memory that holds that state, with the same replies
and the same calls. -/
theorem memory_run_iff (K : Kernel κ) (dir : CString) (k : κ) (es : List Event) (w : World κ) :
    ServerRun K Run.free dir k es w ↔
      ∃ m, Run (memStep K) Run.free (MemWorld.start dir k) es m ∧ m.Rep w := by
  constructor
  · intro h
    exact h.simulate (R := fun w (m : MemWorld κ) ↦ m.Rep w) (MemWorld.rep_start dir k)
      fun hrep hstep ↦ hrep.step_back hstep
  · rintro ⟨m, h, hrep⟩
    obtain ⟨w', hrun, hrep'⟩ := h.simulate (R := fun m w ↦ m.Rep w) (MemWorld.rep_start dir k)
      fun hrep hstep ↦ hrep.step hstep
    rw [hrep.unique hrep']
    exact hrun

/-- **No fault of its own.**  In every state that is reached, a request faults in memory if and only if it
does on lists, and in the same way; and wherever `malloc` puts what it allocates, it comes to the same. -/
theorem memory_fault_iff (K : Kernel κ) {dir : CString} {k : κ} {es : List Event} {m : MemWorld κ}
    (h : Run (memStep K) Run.free (MemWorld.start dir k) es m) :
    ∃ w, ServerRun K Run.free dir k es w ∧ m.Rep w ∧ ∀ req f,
      (m.Serves K req (.error f) ↔ serve K req w = .error f) ∧
      ∀ a b, m.table.heap a = none → m.queue.heap b = none →
        (m.ServesAt K a b req (.error f) ↔ serve K req w = .error f) := by
  obtain ⟨w, hrun, hrep⟩ := h.simulate (R := fun m w ↦ m.Rep w) (MemWorld.rep_start dir k)
    fun hrep hstep ↦ hrep.step hstep
  refine ⟨w, hrun, hrep, fun req f ↦ ⟨⟨hrep.fault_of_serves, fun hserve ↦ ?_⟩, fun a b ha hb ↦ ?_⟩⟩
  · obtain ⟨a, b, ha, hb⟩ := hrep.exists_fresh
    exact ⟨a, b, ha, hb, hrep.servesAt_of_fault hserve ha hb⟩
  · exact ⟨fun hserves ↦ hrep.fault_of_serves ⟨a, b, ha, hb, hserves⟩,
      fun hserve ↦ hrep.servesAt_of_fault hserve ha hb⟩

/-- With a directory and a file open, reading a directory that was never opened follows a null pointer. -/
theorem memory_fault_of_unknown_dir :
    ∃ es m w, Run (memStep (FileSystem.kernel .lowest)) Run.free
        (MemWorld.start (.lit "/srv") emptyDir) es m ∧ m.Rep w ∧
      w.srv.resourceList.length = 2 ∧ w.srv.openDirQueue.length = 1 ∧
      m.Serves (FileSystem.kernel .lowest) (.readDir 1 5) (.error .nullDeref) := by
  obtain ⟨es, w, hrun, hw⟩ := exists_run (FileSystem.kernel .lowest) Run.free (.lit "/srv") emptyDir
    [.openDir 1 (.lit "/srv") (by decide), .open_ 1 (.lit "/srv/a") (by decide) 1]
    (fun _ w ↦ decide (w.srv.resourceList.length = 2 ∧ w.srv.openDirQueue.length = 1 ∧
      (findNode w.srv.openDirQueue 5).isNone = true)) (by decide)
  obtain ⟨htable, hqueue, hnone⟩ := of_decide_eq_true hw
  obtain ⟨m, hmem, hrep⟩ := hrun.simulate (R := fun w (m : MemWorld FileSystem) ↦ m.Rep w)
    (MemWorld.rep_start _ _) fun hrep hstep ↦ hrep.step_back hstep
  obtain ⟨w', -, hrep', hfault⟩ := memory_fault_iff (FileSystem.kernel .lowest) hmem
  obtain rfl : w' = w := hrep'.unique hrep
  refine ⟨es, m, w', hmem, hrep, htable, hqueue, (hfault _ _).1.mpr ?_⟩
  rw [serve_of_op Request.op_readDir, perform, readDirNum, Option.isNone_iff_eq_none.mp hnone]

end RemoteFs
