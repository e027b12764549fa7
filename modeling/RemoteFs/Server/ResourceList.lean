import RemoteFs.Lib.FirstMatch
import RemoteFs.Lib.Linked
import RemoteFs.Server.State

/-!
# The lock table in memory

`resource_list` is a linked list: `find_resource` follows the links and stops at the first entry with the
key, whoever it belongs to, and `remove_resource` follows them with a second pointer one entry behind,
and unlinks the first entry with the key that belongs to the client.  Here both are loops over a heap
of cells, with the two ways to unlink that the source has, at the front of the list and behind another
entry.

`Memory.Holds` says what list a memory holds.  On it the loops do what `findResource`, `removeResource`
and `addResource` do with lists, which is what the handlers are modelled with, and they find and remove
the same cell (`check_agrees_with_removal`).
-/

set_option autoImplicit false

namespace RemoteFs

open FirstMatch Linked

/-! ## The loops -/

/-- The entries that are allocated, and the global `resource_list`. -/
structure Memory where
  heap : Heap Resource
  resourceList : Link

/-- The loop of `find_resource`, for so many turns.  An address that is not allocated is a fault. -/
def findLoop (heap : Heap Resource) (fd : Int32) (path : Option CString) :
    ℕ → Link → Except Fault Link
  | 0, _ => .error .hang
  | _ + 1, none => .ok none
  | turns + 1, some res =>
    match heap res with
    | none => .error .overread
    | some c =>
      if path = some c.val.path then .ok (some res)
      else if fd ≠ 0 ∧ c.val.fd = fd then .ok (some res)
      else findLoop heap fd path turns c.next

/-- The loop of `remove_resource`, for so many turns. -/
def removeLoop (mem : Memory) (id fd : Int32) (path : Option CString) :
    ℕ → (prev cur : Link) → Except Fault Memory
  | 0, _, _ => .error .hang
  | _ + 1, _, none => .ok mem
  | turns + 1, prev, some cur =>
    match mem.heap cur with
    | none => .error .overread
    | some c =>
      if (path = some c.val.path ∧ c.val.id = id) ∨ (fd ≠ 0 ∧ c.val.fd = fd ∧ c.val.id = id) then
        match prev with
        | none => .ok ⟨mem.heap.free cur, c.next⟩
        | some p =>
          match mem.heap p with
          | none => .error .overflow
          | some b => .ok ⟨(mem.heap.store p ⟨b.val, c.next⟩).free cur, mem.resourceList⟩
      else removeLoop mem id fd path turns (some cur) c.next

namespace Memory

/-- `find_resource(resource_list, id, fd, path)`; the client's number is not looked at. -/
def findResource (mem : Memory) (turns : ℕ) (_id fd : Int32) (path : Option CString) :
    Except Fault Link :=
  findLoop mem.heap fd path turns mem.resourceList

/-- `remove_resource(&resource_list, id, fd, path)`. -/
def removeResource (mem : Memory) (turns : ℕ) (id fd : Int32) (path : Option CString) :
    Except Fault Memory :=
  removeLoop mem id fd path turns none mem.resourceList

/-- `add_resource`, where `malloc` returns `a`. -/
def addResource (mem : Memory) (a : ℕ) (lock id fd : Int32) (path : Option CString) : Memory :=
  match path with
  | none => mem
  | some path => ⟨mem.heap.store a ⟨⟨lock, id, fd, path⟩, mem.resourceList⟩, some a⟩

/-- The entries from `resource_list` to `NULL`, each with its address. -/
def Holds (mem : Memory) (l : List (ℕ × Resource)) : Prop := Seg mem.heap mem.resourceList l none

end Memory

/-! ## What they do -/

/-- The entry has the key: the path, or the descriptor. -/
def Resource.hasKey (fd : Int32) (path : Option CString) (r : Resource) : Bool :=
  decide (path = some r.path) || decide (fd ≠ 0 ∧ r.fd = fd)

section
variable {id fd : Int32} {path : Option CString}

theorem findLoop_eq {heap : Heap Resource} {p : Link} {l : List (ℕ × Resource)} {turns : ℕ}
    (hl : Seg heap p l none) (hturns : l.length < turns) :
    findLoop heap fd path turns p
      = .ok ((l.find? fun x ↦ x.2.hasKey fd path).map Prod.fst) := by
  induction turns generalizing p l with
  | zero => exact absurd hturns (Nat.not_lt_zero _)
  | succ turns ih =>
    cases hl with
    | nil => rfl
    | @cons a r next _ l cell rest =>
      rw [List.length_cons] at hturns
      rw [findLoop, cell, List.find?_cons]
      by_cases hpath : path = some r.path
      · simp [hpath, Resource.hasKey]
      · by_cases hfd : fd ≠ 0 ∧ r.fd = fd
        · simp [hpath, hfd, Resource.hasKey]
        · have hkey : r.hasKey fd path = false := by simp [hpath, hfd, Resource.hasKey]
          simp only [if_neg hpath, if_neg hfd, hkey]
          exact ih rest (by omega)

/-- **The loop of `remove_resource`**, when it has come past the entries `pre`: it takes out the first
entry with the key that is the client's, and touches nothing when there is none. -/
theorem removeLoop_holds {mem : Memory} {prev cur : Link} {pre l : List (ℕ × Resource)} {turns : ℕ}
    (hpre : Seg mem.heap mem.resourceList pre cur) (hprev : prev = pre.getLast?.map Prod.fst)
    (hl : Seg mem.heap cur l none) (hturns : l.length < turns) :
    ∃ mem', removeLoop mem id fd path turns prev cur = .ok mem' ∧
      mem'.Holds (pre ++ l.eraseP fun x ↦ x.2.hasKey fd path && decide (x.2.id = id)) ∧
      ((∀ x ∈ l, (x.2.hasKey fd path && decide (x.2.id = id)) = false) → mem' = mem) := by
  induction turns generalizing prev cur pre l with
  | zero => exact absurd hturns (Nat.not_lt_zero _)
  | succ turns ih =>
    cases hl with
    | nil => exact ⟨mem, rfl, hpre.append (.nil none), fun _ ↦ rfl⟩
    | @cons a r next _ l cell rest =>
      rw [List.length_cons] at hturns
      have htest : ((path = some r.path ∧ r.id = id) ∨ (fd ≠ 0 ∧ r.fd = fd ∧ r.id = id)) ↔
          (r.hasKey fd path && decide (r.id = id)) = true := by
        simp only [Resource.hasKey, Bool.and_eq_true, Bool.or_eq_true, decide_eq_true_eq]
        tauto
      rw [removeLoop, cell]
      simp only [htest, List.eraseP_cons]
      cases hmatch : r.hasKey fd path && decide (r.id = id) with
      | false =>
        have hpre' : Seg mem.heap mem.resourceList (pre ++ [(a, r)]) next :=
          hpre.append (.cons cell (.nil next))
        have hlast : some a = (pre ++ [(a, r)]).getLast?.map Prod.fst := by simp
        obtain ⟨mem', hloop, hholds, hsame⟩ := ih hpre' hlast rest (by omega)
        refine ⟨mem', hloop, by simpa using hholds, fun hnone ↦ hsame fun x hx ↦ ?_⟩
        exact hnone x (List.mem_cons_of_mem _ hx)
      | true =>
        have hlist : Seg mem.heap (some a) ((a, r) :: l) none := .cons cell rest
        have hnone (h : ∀ x ∈ (a, r) :: l, (x.2.hasKey fd path && decide (x.2.id = id)) = false) :
            False := by
          rw [h (a, r) (List.mem_cons_self ..)] at hmatch
          cases hmatch
        rcases List.eq_nil_or_concat pre with rfl | ⟨front, ⟨b, w⟩, rfl⟩
        · -- the entry is the first of the list
          rw [hprev]
          exact ⟨_, rfl, hlist.free_head cell, fun h ↦ (hnone h).elim⟩
        · rw [List.concat_eq_append] at hpre hprev ⊢
          obtain ⟨next', hcell⟩ := hpre.exists_cell (x := (b, w)) (by simp)
          have hlast : prev = some b := by simpa using hprev
          simp only [hlast, hcell, if_true]
          exact ⟨_, rfl, hpre.unlink_after hlist cell, fun h ↦ (hnone h).elim⟩

end

/-! ## The lists -/

section
variable {mem : Memory} {l : List (ℕ × Resource)} {turns : ℕ} (id fd : Int32) (path : Option CString)

theorem Memory.findResource_eq (hl : mem.Holds l) (hturns : l.length < turns) :
    mem.findResource turns id fd path
      = .ok ((l.find? fun x ↦ x.2.hasKey fd path).map Prod.fst) :=
  findLoop_eq hl hturns

theorem Memory.removeResource_holds (hl : mem.Holds l) (hturns : l.length < turns) :
    ∃ mem', mem.removeResource turns id fd path = .ok mem' ∧
      mem'.Holds (l.eraseP fun x ↦ x.2.hasKey fd path && decide (x.2.id = id)) ∧
      ((∀ x ∈ l, (x.2.hasKey fd path && decide (x.2.id = id)) = false) → mem' = mem) :=
  removeLoop_holds (.nil _) rfl hl hturns

/-- **The search is `findResource`**, which returns the entry in place of its address. -/
theorem Memory.findResource_refines (hl : mem.Holds l) (hturns : l.length < turns) :
    ∃ x : Option (ℕ × Resource), mem.findResource turns id fd path = .ok (x.map Prod.fst) ∧
      (∀ y ∈ x, y ∈ l) ∧
      RemoteFs.findResource (l.map Prod.snd) id fd path = x.map Prod.snd := by
  refine ⟨_, Memory.findResource_eq id fd path hl hturns, fun y hy ↦ List.mem_of_find?_eq_some hy, ?_⟩
  rw [findResource_eq_find?, List.find?_map]
  rfl

/-- **The removal is `removeResource`.** -/
theorem Memory.removeResource_refines (hl : mem.Holds l) (hturns : l.length < turns) :
    ∃ mem' l', mem.removeResource turns id fd path = .ok mem' ∧ mem'.Holds l' ∧
      l'.map Prod.snd = RemoteFs.removeResource (l.map Prod.snd) id fd path := by
  obtain ⟨mem', hremove, hholds, -⟩ := Memory.removeResource_holds id fd path hl hturns
  refine ⟨mem', _, hremove, hholds, ?_⟩
  rw [removeResource_eq_eraseP, List.eraseP_map]
  rfl

/-- **And a new entry stands in front.** -/
theorem Memory.addResource_refines (hl : mem.Holds l) {a : ℕ} (hfresh : mem.heap a = none)
    (lock : Int32) (path : CString) :
    ∃ l', (mem.addResource a lock id fd (some path)).Holds l' ∧
      l'.map Prod.snd = RemoteFs.addResource (l.map Prod.snd) lock id fd path :=
  ⟨_, hl.store_head hfresh _, rfl⟩

end

/-! ## The same entry -/

/-- **Check and removal agree on the entry.**  For every list in memory, every client and every key: both
loops come to an end; if the entry that is found is the client's, then the removal takes out the cell
at that address and leaves all the others, in order and with what is in them; and if none is found, it
leaves everything as it is. -/
theorem check_agrees_with_removal {mem : Memory} {l : List (ℕ × Resource)} (hl : mem.Holds l)
    (id fd : Int32) (path : Option CString) {turns : ℕ} (hturns : l.length < turns) :
    ∃ found, mem.findResource turns id fd path = .ok found ∧
      (∀ a, found = some a → ∃ r, (a, r) ∈ l ∧ (r.id = id →
        ∃ pre post mem', l = pre ++ (a, r) :: post ∧
          mem.removeResource turns id fd path = .ok mem' ∧ mem'.Holds (pre ++ post))) ∧
      (found = none → mem.removeResource turns id fd path = .ok mem) := by
  obtain ⟨mem', hremove, hholds, hsame⟩ :=
    Memory.removeResource_holds id fd path hl hturns
  refine ⟨_, Memory.findResource_eq id fd path hl hturns, fun a ha ↦ ?_, fun hnone ↦ ?_⟩
  · obtain ⟨⟨_, r⟩, hfind, rfl⟩ := Option.map_eq_some_iff.mp ha
    refine ⟨r, List.mem_of_find?_eq_some hfind, fun hid ↦ ?_⟩
    obtain ⟨pre, post, hl', herase⟩ := eraseP_of_find? (c := fun x ↦ decide (x.2.id = id)) hfind
      (decide_eq_true hid)
    exact ⟨pre, post, mem', hl', hremove, herase ▸ hholds⟩
  · rw [Option.map_eq_none_iff, List.find?_eq_none] at hnone
    rw [hremove, hsame fun x hx ↦ by simp [Bool.eq_false_iff.mpr (hnone x hx)]]

/-- Two clients have the number `4`. -/
def sharedNumber : List (ℕ × Resource) :=
  [(10, ⟨1, 1, 3, .lit "/a"⟩), (30, ⟨2, 2, 4, .lit "/b"⟩), (20, ⟨1, 1, 4, .lit "/c"⟩)]

/-- They lie in memory. -/
def sharedMemory : Memory where
  heap
    | 10 => some ⟨⟨1, 1, 3, .lit "/a"⟩, some 30⟩
    | 20 => some ⟨⟨1, 1, 4, .lit "/c"⟩, none⟩
    | 30 => some ⟨⟨2, 2, 4, .lit "/b"⟩, some 20⟩
    | _ => none
  resourceList := some 10

theorem sharedMemory_holds : sharedMemory.Holds sharedNumber :=
  .cons rfl (.cons rfl (.cons rfl (.nil none)))

/-- The check for client 2 finds its entry in the middle of the list, and that is the one removed. -/
theorem check_agrees_with_removal_of_shared :
    sharedMemory.findResource 4 2 4 none = .ok (some 30) ∧
      ∃ pre post mem', sharedNumber = pre ++ (30, ⟨2, 2, 4, .lit "/b"⟩) :: post ∧
        sharedMemory.removeResource 4 2 4 none = .ok mem' ∧ mem'.Holds (pre ++ post) := by
  have hturns : sharedNumber.length < 4 := by decide
  obtain ⟨found, hfound, hsome, -⟩ := check_agrees_with_removal sharedMemory_holds 2 4 none hturns
  have hthirty : sharedMemory.findResource 4 2 4 none = .ok (some 30) := rfl
  have heq : found = some 30 := Except.ok.inj (hfound.symm.trans hthirty)
  obtain ⟨r, hr, hremove⟩ := hsome 30 heq
  have hentry : r = ⟨2, 2, 4, .lit "/b"⟩ := by simpa [sharedNumber] using hr
  rw [hentry] at hremove
  exact ⟨hthirty, hremove rfl⟩

end RemoteFs
