import RemoteFs.Client.Retry
import RemoteFs.Lib.WaitFor
import RemoteFs.Lock.Ownership

/-!
# Clients that wait for each other

Five calls of the client library are repeated until they are no longer refused, and a client that
repeats a call does nothing else.  `Clients` is the server together with the call every client is
repeating, and `Clients.Step` is one exchange between a client and the server, so a run of it is any
number of clients in any order.

A client waits for as long as somebody else has the path or the number it asks for, and whoever has
it may be waiting as well.  `Clients.core` are the clients that are refused on account of each other.
`deadlock_permanent` says that these are refused for ever, with no system call made for them and no
entry of theirs changed, whatever the other clients do.  That nobody else is, is shown in
`Lock/Progress.lean`, and that the loops of the library do what a run says, in `Lock/Loops.lean`.
-/

set_option autoImplicit false

namespace RemoteFs

open WaitFor

variable {κ : Type}

/-- The calls that the library repeats. -/
def Proc.retries : Proc → Bool
  | .fsCloseDir | .fsOpen | .fsClose | .fsWrite | .fsRemove => true
  | _ => false

/-- The server, and the request each client is repeating. -/
structure Clients (κ : Type) where
  world : World κ
  pending : Int32 → Option Request

namespace Clients

/-- Nobody is waiting when the server starts. -/
def start (dir : CString) (k : κ) : Clients κ := ⟨World.start dir k, fun _ ↦ none⟩

/-- The lock table. -/
def table (s : Clients κ) : List Resource := s.world.srv.resourceList

/-- What a client repeats after a reply. -/
def repeated (e : Event) : Option Request :=
  if e.req.proc.retries = true ∧ e.reply.int? = .ok (-EAGAIN) then some e.req else none

/-- Client `x.1` sends a request and gets its reply. -/
structure Step (K : Kernel κ) (s : Clients κ) (x : Int32 × Event) (s' : Clients κ) : Prop where
  /-- The id in the request is its own. -/
  own : ∀ op d, x.2.req.op = .ok op → op.client? = some d → d = x.1
  /-- A client that is repeating a request sends that one. -/
  again : ∀ req, s.pending x.1 = some req → x.2.req.proc = req.proc ∧ x.2.req.args = req.args
  served : serverStep K s.world x.2 s'.world
  waits : s'.pending = Function.update s.pending x.1 (repeated x.2)

/-- The clients that are repeating a request. -/
def waiting (s : Clients κ) : Set Int32 := {c | s.pending c ≠ none}

/-- With this table the request client `c` is repeating is refused.  The check of `fsCloseDir` is made
on garbage, and is passed when that is `0`. -/
def refused (s : Clients κ) (c : Int32) (l : List Resource) : Bool :=
  match s.pending c with
  | none => false
  | some req =>
    match req.op with
    | .ok op => op.client? = some c && op.blocked l 0
    | .error _ => false

/-- The clients that are refused on account of each other. -/
def core (s : Clients κ) : Set Int32 :=
  WaitFor.core Resource.id (fun c l ↦ s.refused c l = true) s.waiting s.table

theorem refused_eq_true_iff {s : Clients κ} {c : Int32} {l : List Resource} :
    s.refused c l = true ↔ ∃ req op, s.pending c = some req ∧ req.op = .ok op ∧
      op.client? = some c ∧ op.blocked l 0 = true := by
  rw [refused]
  split
  · simp_all
  · split <;> simp_all

end Clients

/-! ## Being refused by part of the table -/

/-- Only the procedure and the arguments say what a request asks for. -/
theorem Request.op_congr {req req' : Request} (hproc : req.proc = req'.proc)
    (hargs : req.args = req'.args) : req.op = req'.op := by
  obtain ⟨proc, args, g⟩ := req
  obtain ⟨proc', args', g'⟩ := req'
  obtain rfl : proc = proc' := hproc
  obtain rfl : args = args' := hargs
  cases proc <;> rfl

/-- The lock check of an operation that can be blocked is a search, for a client. -/
theorem Op.blocked_eq_refuses {op : Op} {c : Int32} (hc : op.client? = some c) :
    ∃ q, ∀ l, op.blocked l 0 = refuses (l.find? q) c := by
  cases op with
  | openDir d p | remove d p | open_ d m p =>
    obtain rfl := Option.some.inj hc
    exact ⟨_, fun l ↦ by rw [Op.blocked, findResource_path]⟩
  | close d n | write d n m buf =>
    obtain rfl := Option.some.inj hc
    exact ⟨_, fun l ↦ by rw [Op.blocked, findResource_fd]⟩
  | closeDir d n =>
    obtain rfl := Option.some.inj hc
    exact ⟨_, fun l ↦ by rw [Op.blocked, findResource_fd]⟩
  | unmount d =>
    refine ⟨fun _ ↦ false, fun l ↦ ?_⟩
    rw [List.find?_eq_none.mpr (by simp)]
    rfl
  | ignored | mount | readDir | read => cases hc

/-- A request that is refused whatever the garbage. -/
theorem Op.blocked_of_blocked_zero {op : Op} {l : List Resource} (h : op.blocked l 0 = true)
    (g : Int32) : op.blocked l g = true := by
  cases op with
  | closeDir d n =>
    rw [Op.blocked, findResource_fd, List.find?_eq_none.mpr (by simp)] at h
    cases h
  | _ => exact h

/-- What the members of a set hold refuses a member also when the rest of the table is there. -/
theorem refuses_of_within {S : Set Int32} {c : Int32} (hc : c ∈ S) {l : List Resource}
    {q : Resource → Bool} (h : refuses ((within Resource.id S l).find? q) c = true) :
    refuses (l.find? q) c = true := by
  rw [refuses_eq_true_iff] at h ⊢
  obtain ⟨r, hr, hne⟩ := h
  obtain ⟨hq, -⟩ := List.find?_eq_some_iff_append.mp hr
  obtain ⟨hrl, hrS⟩ := mem_within.mp (List.mem_of_find?_eq_some hr)
  obtain ⟨r', hr'⟩ : ∃ r', l.find? q = some r' := by
    rw [← Option.isSome_iff_exists, List.find?_isSome]
    exact ⟨r, hrl, hq⟩
  refine ⟨r', hr', ?_⟩
  by_cases hS : r'.id ∈ S
  · -- the first match overall is then the first match among the members
    obtain rfl : r' = r := by
      have hfind : (within Resource.id S l).find? q = some r' := by
        obtain ⟨hq', pre, post, rfl, hpre⟩ := List.find?_eq_some_iff_append.mp hr'
        refine List.find?_eq_some_iff_append.mpr
          ⟨hq', within Resource.id S pre, within Resource.id S post, ?_, ?_⟩
        · simp [within, hS]
        · exact fun x hx ↦ hpre x (mem_within.mp hx).1
      exact Option.some.inj (hfind.symm.trans hr)
    exact hne
  · rintro rfl
    exact hS hc

theorem Clients.refused_upward (s : Clients κ) :
    Upward Resource.id fun c l ↦ s.refused c l = true := by
  intro c S l hc h
  obtain ⟨req, op, hreq, hop, hclient, hb⟩ := refused_eq_true_iff.mp h
  obtain ⟨q, hq⟩ := Op.blocked_eq_refuses hclient
  refine refused_eq_true_iff.mpr ⟨req, op, hreq, hop, hclient, ?_⟩
  rw [hq] at hb ⊢
  exact refuses_of_within hc hb

/-- The entries of others are all of what a set holds that somebody is not in. -/
theorem within_others {S : Set Int32} {c : Int32} (hc : c ∉ S) (l : List Resource) :
    within Resource.id S (others c l) = within Resource.id S l := by
  rw [within, within, others, List.filter_filter]
  refine List.filter_congr fun r _ ↦ ?_
  by_cases hr : r.id = c
  · simp [hr, hc]
  · simp [hr]

/-! ## What every exchange keeps -/

/-- The invariants of the clients. -/
structure Clients.Sound (s : Clients κ) : Prop where
  /-- What is repeated is one of the calls that are. -/
  retries : ∀ c req, s.pending c = some req → req.proc.retries = true
  /-- It was sent by the client itself. -/
  signed : ∀ c req op d, s.pending c = some req → req.op = .ok op → op.client? = some d → d = c
  /-- No path is locked twice. -/
  nodup : PathsNodup s.table
  /-- The paths in the table have come as arguments. -/
  short : ∀ r ∈ s.table, r.path.strlen + 1 < 2 ^ 31

/-- A path that has come as an argument fits into one. -/
theorem strlen_of_cstr {a : ArgType} {p : CString} (h : a.cstr = .ok p) : p.strlen + 1 < 2 ^ 31 := by
  rw [ArgType.cstr] at h
  split at h
  · rename_i s hs
    cases h
    have hlt := CString.strlen_lt_of_at? hs
    have hsize := a.size_eq
    have hmax := Int32.toInt_lt a.argSize
    omega
  · cases h

/-- Three of the requests have a path. -/
theorem Proc.Asks.proc_of_path {proc : Proc} {id? : Option Int32} {op : Op} {p : CString}
    (h : proc.Asks id? op) (hp : op.path? = some p) :
    proc = .fsOpenDir ∨ proc = .fsRemove ∨ proc = .fsOpen := by
  cases h with
  | openDir | remove | open_ => simp
  | _ => cases hp

theorem strlen_of_op {req : Request} {op : Op} {p : CString} (h : req.op = .ok op)
    (hp : op.path? = some p) : p.strlen + 1 < 2 ^ 31 := by
  obtain rfl | hasks := Request.op_eq_ok h
  · cases hp
  have key {n : Int32} {f : Int32 → Except Fault Op} (hid : req.withId n f = .ok op)
      (hf : ∀ id, f id = .ok op → op = .ignored ∨ ∃ a : ArgType, a.cstr = .ok p) :
      p.strlen + 1 < 2 ^ 31 := by
    obtain rfl | ⟨id, -, hid⟩ := withId_eq_ok hid
    · cases hp
    · obtain rfl | ⟨a, ha⟩ := hf id hid
      · cases hp
      · exact strlen_of_cstr ha
  rcases hasks.proc_of_path hp with hproc | hproc | hproc <;> rw [Request.op, hproc] at h
  · refine key h fun id h ↦ ?_
    obtain ⟨a, -, h⟩ := bind_eq_ok.mp h
    obtain ⟨path, hpath, h⟩ := bind_eq_ok.mp h
    cases h
    cases hp
    exact .inr ⟨a, hpath⟩
  · refine key h fun id h ↦ ?_
    obtain ⟨a, -, h⟩ := bind_eq_ok.mp h
    obtain ⟨path, hpath, h⟩ := bind_eq_ok.mp h
    cases h
    cases hp
    exact .inr ⟨a, hpath⟩
  · refine key h fun id h ↦ ?_
    obtain ⟨a₁, -, h⟩ := bind_eq_ok.mp h
    split at h
    · cases h
      exact .inl rfl
    · obtain ⟨a₂, -, h⟩ := bind_eq_ok.mp h
      obtain ⟨path, hpath, h⟩ := bind_eq_ok.mp h
      obtain ⟨mode, -, h⟩ := bind_eq_ok.mp h
      cases h
      cases hp
      exact .inr ⟨a₂, hpath⟩

/-- What an admitted request amounts to is said by its operation. -/
theorem exists_op_of_action {K : Kernel κ} {w : World κ} {req : Request} {a : Action}
    (h : action K w req = a) (hquiet : a ≠ .quiet) :
    ∃ op, req.op = .ok op ∧ op.action K w = a := by
  rw [action] at h
  split at h
  · rename_i op hop
    split at h
    · exact absurd h.symm hquiet
    · exact ⟨op, hop, h⟩
  · exact absurd h.symm hquiet

/-- An action belongs to the client of the operation. -/
theorem Op.client?_of_action {K : Kernel κ} {w : World κ} {op : Op} {d : Int32}
    (h : (op.action K w).client? = some d) : op.client? = some d := by
  cases op with
  | openDir c p | closeDir c n =>
    rw [Op.action] at h
    split at h
    · exact h
    · cases h
  | unmount c =>
    cases c with
    | none => cases h
    | some c => exact h
  | open_ | close | remove => exact h
  | ignored | mount | readDir | read | write => cases h

/-- An action that opens a path is asked for with that path. -/
theorem Op.path?_of_action {K : Kernel κ} {w : World κ} {op : Op} {kind : Kind} {lock c : Int32}
    {p : CString} {num : Option Int32} (h : op.action K w = .open_ kind lock c p num) :
    op.path? = some p := by
  cases op with
  | openDir d q =>
    rw [Op.action] at h
    split at h <;> cases h
    rfl
  | closeDir d n =>
    rw [Op.action] at h
    split at h <;> cases h
  | unmount d => cases d <;> cases h
  | open_ => cases h; rfl
  | _ => cases h

section
variable {K : Kernel κ} {s s' : Clients κ} {x : Int32 × Event}

theorem Clients.Step.action_client (h : Clients.Step K s x s') {d : Int32}
    (hd : (action K s.world x.2.req).client? = some d) : d = x.1 := by
  have hquiet : action K s.world x.2.req ≠ .quiet := by
    intro hquiet
    rw [hquiet] at hd
    cases hd
  obtain ⟨op, hop, ha⟩ := exists_op_of_action rfl hquiet
  rw [← ha] at hd
  exact h.own op d hop (Op.client?_of_action hd)

/-- An exchange touches only the entries of its client. -/
theorem Clients.Step.others (h : Clients.Step K s x s') :
    others x.1 s'.table = others x.1 s.table := by
  show RemoteFs.others x.1 s'.world.srv.resourceList = _
  rw [(serverStep_action h.served).next]
  exact others_next (fun d hd ↦ h.action_client hd) _

theorem Clients.Step.pending_of_ne (h : Clients.Step K s x s') {c : Int32} (hc : c ≠ x.1) :
    s'.pending c = s.pending c := by
  rw [h.waits, Function.update_of_ne hc]

theorem Clients.Step.pending_self (h : Clients.Step K s x s') :
    s'.pending x.1 = repeated x.2 := by
  rw [h.waits, Function.update_self]

theorem Clients.repeated_eq_some_iff {e : Event} {req : Request} :
    repeated e = some req ↔
      e.req.proc.retries = true ∧ e.reply.int? = .ok (-EAGAIN) ∧ e.req = req := by
  rw [repeated]
  split <;> simp_all

theorem Clients.Sound.step (h : s.Sound) (hstep : Clients.Step K s x s') : s'.Sound where
  retries c req hreq := by
    by_cases hc : c = x.1
    · rw [hc, hstep.pending_self, Clients.repeated_eq_some_iff] at hreq
      obtain ⟨hretries, -, rfl⟩ := hreq
      exact hretries
    · rw [hstep.pending_of_ne hc] at hreq
      exact h.retries c req hreq
  signed c req op d hreq hop hd := by
    by_cases hc : c = x.1
    · rw [hc, hstep.pending_self, Clients.repeated_eq_some_iff] at hreq
      obtain ⟨-, -, rfl⟩ := hreq
      exact (hstep.own op d hop hd).trans hc.symm
    · rw [hstep.pending_of_ne hc] at hreq
      exact h.signed c req op d hreq hop hd
  nodup := by
    show PathsNodup s'.world.srv.resourceList
    rw [(serverStep_action hstep.served).next]
    exact h.nodup.next _
  short := by
    intro r hr
    have hnext : r ∈ (action K s.world x.2.req).next s.world.srv.resourceList := by
      rw [← (serverStep_action hstep.served).next]
      exact hr
    rcases mem_of_mem_next hnext with hr | ⟨kind, lock, c, p, num, ha, -, rfl⟩
    · exact h.short r hr
    · obtain ⟨op, hop, hact⟩ := exists_op_of_action ha nofun
      exact strlen_of_op hop (Op.path?_of_action hact)

theorem Clients.sound_of_run {dir : CString} {k : κ} {es : List (Int32 × Event)}
    (h : Run (Clients.Step K) Run.free (Clients.start dir k) es s) : s.Sound := by
  refine Run.invariant (I := fun _ s ↦ s.Sound) ?_ ?_ h
  · exact ⟨by simp [Clients.start], by simp [Clients.start], List.nodup_nil, by simp [Clients.start,
      Clients.table, World.start]⟩
  · exact fun _ hI _ hstep ↦ hI.step hstep

end

/-! ## Deadlock -/

/-- Being refused comes from the lock check, and shows. -/
theorem Clients.Step.of_refused {K : Kernel κ} {s s' : Clients κ} {x : Int32 × Event}
    (h : Clients.Step K s x s') (hsound : s.Sound) (hrefused : s.refused x.1 s.table = true) :
    x.2.reply = refusal ∧ x.2.calls = [] ∧ s'.world = s.world ∧ s'.pending x.1 = some x.2.req := by
  obtain ⟨req, op, hreq, hop, -, hb⟩ := Clients.refused_eq_true_iff.mp hrefused
  obtain ⟨hproc, hargs⟩ := h.again req hreq
  have hop' : x.2.req.op = .ok op := (Request.op_congr hproc hargs).trans hop
  have hserve := h.served.1
  rw [serve_of_op hop', perform_of_blocked K (Op.blocked_of_blocked_zero hb _), Except.ok.injEq,
    Prod.mk.injEq] at hserve
  obtain ⟨hreply, hworld⟩ := hserve
  have hcalls := h.served.2
  rw [← hworld, List.self_eq_append_left] at hcalls
  refine ⟨hreply.symm, hcalls, hworld.symm, ?_⟩
  rw [h.pending_self, Clients.repeated_eq_some_iff]
  refine ⟨?_, by rw [← hreply]; rfl, rfl⟩
  rw [hproc]
  exact hsound.retries x.1 req hreq

/-- Two states in which the members of a set repeat the same and hold the same. -/
structure Clients.Agree (S : Set Int32) (s s' : Clients κ) : Prop where
  pending : ∀ c ∈ S, ∀ req, s.pending c = some req →
    ∃ req', s'.pending c = some req' ∧ req'.proc = req.proc ∧ req'.args = req.args
  holds : within Resource.id S s'.table = within Resource.id S s.table

/-- Then the same members are refused. -/
theorem Clients.Agree.deadlocked {S : Set Int32} {s s' : Clients κ} (h : s.Agree S s')
    (hdead : Deadlocked Resource.id (fun c l ↦ s.refused c l = true) S s.table) :
    Deadlocked Resource.id (fun c l ↦ s'.refused c l = true) S s'.table := by
  intro c hc
  obtain ⟨req, op, hreq, hop, hclient, hb⟩ := Clients.refused_eq_true_iff.mp (hdead c hc)
  obtain ⟨req', hreq', hproc, hargs⟩ := h.pending c hc req hreq
  rw [h.holds]
  exact Clients.refused_eq_true_iff.mpr
    ⟨req', op, hreq', (Request.op_congr hproc hargs).trans hop, hclient, hb⟩

/-- What keeps a deadlock up. -/
theorem agree_of_deadlocked {K : Kernel κ} {s : Clients κ} (hsound : s.Sound) {S : Set Int32}
    (hdead : Deadlocked Resource.id (fun c l ↦ s.refused c l = true) S s.table)
    {later : List (Int32 × Event)} {s' : Clients κ}
    (hlater : Run (Clients.Step K) Run.free s later s') :
    s.Agree S s' ∧ ∀ x ∈ later, x.1 ∈ S → x.2.reply = refusal ∧ x.2.calls = [] := by
  have key := Run.invariant (I := fun later s' ↦ s'.Sound ∧ s.Agree S s' ∧
      ∀ x ∈ later, x.1 ∈ S → x.2.reply = refusal ∧ x.2.calls = [])
    ⟨hsound, ⟨fun c _ req hreq ↦ ⟨req, hreq, rfl, rfl⟩, rfl⟩, by simp⟩ ?_ hlater
  · exact key.2
  · intro later s₁ x s₂ _ ⟨hsound₁, hagree, hevents⟩ _ hstep
    refine ⟨hsound₁.step hstep, ?_⟩
    by_cases hx : x.1 ∈ S
    · -- a member is refused
      have hrefused := Clients.refused_upward s₁ x.1 S s₁.table hx (hagree.deadlocked hdead x.1 hx)
      obtain ⟨hreply, hcalls, hworld, hpending⟩ := hstep.of_refused hsound₁ hrefused
      refine ⟨⟨fun c hc req hreq ↦ ?_, ?_⟩, ?_⟩
      · obtain ⟨req₁, hreq₁, hproc, hargs⟩ := hagree.pending c hc req hreq
        by_cases hcx : c = x.1
        · subst hcx
          obtain ⟨hproc', hargs'⟩ := hstep.again req₁ hreq₁
          exact ⟨x.2.req, hpending, hproc'.trans hproc, hargs'.trans hargs⟩
        · exact ⟨req₁, (hstep.pending_of_ne hcx).trans hreq₁, hproc, hargs⟩
      · rw [Clients.table, hworld]
        exact hagree.holds
      · rintro y hy hyS
        rcases List.mem_cons.mp hy with rfl | hy
        · exact ⟨hreply, hcalls⟩
        · exact hevents y hy hyS
    · -- and anybody else changes only its own entries
      refine ⟨⟨fun c hc req hreq ↦ ?_, ?_⟩, ?_⟩
      · obtain ⟨req₁, hreq₁, hproc, hargs⟩ := hagree.pending c hc req hreq
        have hcx : c ≠ x.1 := fun h ↦ hx (h ▸ hc)
        exact ⟨req₁, (hstep.pending_of_ne hcx).trans hreq₁, hproc, hargs⟩
      · rw [← hagree.holds, ← within_others hx, hstep.others, within_others hx]
      · rintro y hy hyS
        rcases List.mem_cons.mp hy with rfl | hy
        · exact absurd hyS hx
        · exact hevents y hy hyS

/-- **A deadlock is for ever.**  In every reachable state: when some waiting clients are refused on
account of each other, then in every continuation, whatever the others do, they go on repeating the
same requests, each of their attempts is answered `-EAGAIN` without a system call, and what they hold
stays in the table, in the same order. -/
theorem deadlock_permanent (K : Kernel κ) {dir : CString} {k : κ} {es : List (Int32 × Event)}
    {s : Clients κ} (hrun : Run (Clients.Step K) Run.free (Clients.start dir k) es s)
    {S : Set Int32}
    (hdead : Deadlocked Resource.id (fun c l ↦ s.refused c l = true) S s.table)
    {later : List (Int32 × Event)} {s' : Clients κ}
    (hlater : Run (Clients.Step K) Run.free s later s') :
    s.Agree S s' ∧ ∀ x ∈ later, x.1 ∈ S → x.2.reply = refusal ∧ x.2.calls = [] :=
  agree_of_deadlocked (Clients.sound_of_run hrun) hdead hlater

/-! ## Runs -/

section
variable {K : Kernel κ} {guard : List (Int32 × Event) → Clients κ → Int32 × Event → Prop}
  [∀ es s x, Decidable (guard es s x)]

/-- A client that is not waiting signs and sends a request. -/
def Clients.send (K : Kernel κ) (guard : List (Int32 × Event) → Clients κ → Int32 × Event → Prop)
    [∀ es s x, Decidable (guard es s x)] (a : List (Int32 × Event) × Clients κ)
    (x : Int32 × Request) : Option (List (Int32 × Event) × Clients κ) :=
  match serve K x.2 a.2.world with
  | .error _ => none
  | .ok (reply, w) =>
    let y := (x.1, ⟨x.2, w.calls.take (w.calls.length - a.2.world.calls.length), reply⟩)
    if (a.2.pending x.1).isNone ∧ (x.2.op.toOption.all fun op ↦ op.client?.all (· = x.1)) ∧
      guard a.1 a.2 y then
      some (y :: a.1, ⟨w, Function.update a.2.pending x.1 (Clients.repeated y.2)⟩)
    else none

theorem Clients.run_of_send {dir : CString} {k : κ} {a b : List (Int32 × Event) × Clients κ}
    {x : Int32 × Request} (ha : Run (Clients.Step K) guard (Clients.start dir k) a.1 a.2)
    (h : Clients.send K guard a x = some b) :
    Run (Clients.Step K) guard (Clients.start dir k) b.1 b.2 := by
  rw [Clients.send] at h
  split at h
  · cases h
  · rename_i reply w hserve
    simp only [Option.ite_none_right_eq_some] at h
    obtain ⟨⟨hidle, hown, hg⟩, h⟩ := h
    cases h
    obtain ⟨calls, hstep, hcalls⟩ := exists_serverStep hserve
    refine .next ha hg ⟨fun op d hop hd ↦ ?_, fun req hreq ↦ ?_, ⟨hstep, by simp [hcalls]⟩, rfl⟩
    · simpa [hop, Except.toOption, hd] using hown
    · rw [Option.isNone_iff_eq_none.mp hidle] at hreq
      cases hreq

/-- A run in which each request is sent by a client that is not waiting, with a property that can be
checked by computing it. -/
theorem Clients.exists_run (K : Kernel κ)
    (guard : List (Int32 × Event) → Clients κ → Int32 × Event → Prop)
    [∀ es s x, Decidable (guard es s x)] (dir : CString) (k : κ) (reqs : List (Int32 × Request))
    (p : Clients κ → Bool)
    (h : ((reqs.foldlM (Clients.send K guard) ([], Clients.start dir k)).any fun a ↦ p a.2) = true) :
    ∃ es s, Run (Clients.Step K) guard (Clients.start dir k) es s ∧ p s = true := by
  have key : ∀ (reqs : List (Int32 × Request)) (a b : List (Int32 × Event) × Clients κ),
      Run (Clients.Step K) guard (Clients.start dir k) a.1 a.2 →
      reqs.foldlM (Clients.send K guard) a = some b →
        Run (Clients.Step K) guard (Clients.start dir k) b.1 b.2 := by
    intro reqs
    induction reqs with
    | nil =>
      intro a b ha hfold
      cases hfold
      exact ha
    | cons x reqs ih =>
      intro a b ha hfold
      rw [List.foldlM_cons] at hfold
      obtain ⟨a₁, h₁, hrest⟩ := Option.bind_eq_some_iff.mp hfold
      exact ih a₁ b (Clients.run_of_send ha h₁) hrest
  rcases hb : reqs.foldlM (Clients.send K guard) ([], Clients.start dir k) with _ | b
  · rw [hb] at h
    cases h
  · rw [hb] at h
    exact ⟨b.1, b.2, key reqs _ b .start hb, h⟩

end

/-- Clients 1 and 2 have a file each and want the other's. -/
def crossed : List (Int32 × Request) :=
  [(1, .open_ 1 (.lit "/srv/a") (by decide) 1), (2, .open_ 2 (.lit "/srv/b") (by decide) 1),
    (1, .open_ 1 (.lit "/srv/b") (by decide) 1), (2, .open_ 2 (.lit "/srv/a") (by decide) 1)]

/-- Each has the first of its requests admitted and the second refused, for ever. -/
theorem deadlock_permanent_of_crossed :
    ∃ es s, Run (Clients.Step (FileSystem.kernel .lowest)) Run.free
        (Clients.start (.lit "/srv") {}) es s ∧
      s.refused 1 s.table = true ∧ s.refused 2 s.table = true ∧
      ∀ later s', Run (Clients.Step (FileSystem.kernel .lowest)) Run.free s later s' →
        s.Agree {1, 2} s' ∧
          ∀ x ∈ later, x.1 ∈ ({1, 2} : Set Int32) → x.2.reply = refusal ∧ x.2.calls = [] := by
  obtain ⟨es, s, hrun, hs⟩ := Clients.exists_run (FileSystem.kernel .lowest) Run.free (.lit "/srv") {}
    crossed (fun s ↦ s.refused 1 s.table && s.refused 2 s.table &&
      s.table.all fun r ↦ r.id = 1 ∨ r.id = 2) (by decide)
  obtain ⟨⟨h₁, h₂⟩, hall⟩ := by simpa only [Bool.and_eq_true] using hs
  have hown : within Resource.id {1, 2} s.table = s.table :=
    within_eq_self fun r hr ↦ by simpa using List.all_eq_true.mp hall r hr
  have hdead : Deadlocked Resource.id (fun c l ↦ s.refused c l = true) {1, 2} s.table := by
    rintro c (rfl | rfl)
    · rw [hown]
      exact h₁
    · rw [hown]
      exact h₂
  exact ⟨es, s, hrun, h₁, h₂, fun later s' hlater ↦
    deadlock_permanent (FileSystem.kernel .lowest) hrun hdead hlater⟩

end RemoteFs
