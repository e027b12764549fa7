import RemoteFs.Server.FileSystem
import RemoteFs.Server.History

/-!
# Who owns what in the lock table

The three facts that make the list of resources a lock table, in every state a run reaches:

* a path has at most one entry (`paths_nodup`).  Nothing checks this.  It holds because an entry is
  pushed for good only when the path has none;
* a request of client `c` touches no entry of another client (`frame_of_serve`);
* the lock check decides exactly by the entry of the path: somebody else's entry means refusal
  without any effect, no entry or one's own means that the system call is made.

`lock_ownership` puts the three together.
-/

set_option autoImplicit false

namespace RemoteFs

variable {κ : Type}

/-! ## One entry for each path -/

/-- No two entries have the same path. -/
def PathsNodup (l : List Resource) : Prop := (l.map Resource.path).Nodup

theorem PathsNodup.next {l : List Resource} (h : PathsNodup l) (a : Action) :
    PathsNodup (a.next l) := by
  cases a with
  | quiet => exact h
  | open_ kind lock c p num =>
    rw [Action.next]
    split
    · exact h
    · rename_i hp
      have hnone : pathEntry l p = none := by simpa using hp
      rw [PathsNodup, List.map_cons, List.nodup_cons]
      refine ⟨?_, h⟩
      intro hmem
      obtain ⟨r, hr, hrp⟩ := List.mem_map.mp hmem
      exact pathEntry_eq_none_iff.mp hnone r hr hrp
  | close kind c n ok => exact h.sublist (List.eraseP_sublist.map _)
  | remove c p ok => exact h.sublist (List.eraseP_sublist.map _)
  | unmount c => exact h

/-- **No two entries of the table ever have the same path.** -/
theorem paths_nodup {K : Kernel κ} {guard : List Event → World κ → Event → Prop} {dir : CString}
    {k : κ} {es : List Event} {w : World κ} (h : ServerRun K guard dir k es w) :
    PathsNodup w.srv.resourceList := by
  refine Run.invariant (I := fun _ w ↦ PathsNodup w.srv.resourceList) ?_ ?_ h
  · exact List.nodup_nil
  · intro es w e w' _ hI _ hstep
    rw [(serverStep_action hstep).next]
    exact hI.next _

/-- With one entry for each path, being in the table is being found. -/
theorem PathsNodup.pathEntry {l : List Resource} (h : PathsNodup l) {r : Resource} (hr : r ∈ l) :
    pathEntry l r.path = some r :=
  FirstMatch.find?_of_nodup h hr

/-! ## The frame -/

/-- The client an action belongs to. -/
def Action.client? : Action → Option Int32
  | .quiet => none
  | .open_ _ _ c _ _ | .close _ c _ _ | .remove c _ _ | .unmount c => some c

/-- The entries of everybody but `c`. -/
def others (c : Int32) (l : List Resource) : List Resource := l.filter fun r ↦ decide (r.id ≠ c)

/-- **An action touches only its own client's entries.** -/
theorem others_next {a : Action} {c : Int32} (h : ∀ d, a.client? = some d → d = c)
    (l : List Resource) : others c (a.next l) = others c l := by
  cases a with
  | quiet => rfl
  | open_ kind lock d p num =>
    obtain rfl := h d rfl
    rw [Action.next]
    split
    · rfl
    · simp [others]
  | close kind d n ok =>
    obtain rfl := h d rfl
    exact FirstMatch.filter_eraseP fun r _ hr ↦ by simp_all
  | remove d p ok =>
    obtain rfl := h d rfl
    exact FirstMatch.filter_eraseP fun r _ hr ↦ by simp_all
  | unmount d => rfl

/-- There is somebody else. -/
theorem exists_ne_client (c : Int32) : ∃ d : Int32, d ≠ c := by
  by_cases hc : c = 0
  · exact ⟨1, by rw [hc]; decide⟩
  · exact ⟨0, Ne.symm hc⟩

/-! ## The client of a request -/

/-- The client id an operation was made with. -/
def Op.client? : Op → Option Int32
  | .openDir c _ | .closeDir c _ | .remove c _ | .open_ c _ _ | .close c _ => some c
  | .write c _ _ _ => some c
  | .unmount c => c
  | _ => none

/-- The id an operation was made with is the one the request carries. -/
theorem clientId?_of_op {req : Request} {op : Op} {c : Int32} (h : req.op = .ok op)
    (hc : op.client? = some c) : req.clientId? = some c := by
  obtain rfl | hasks := Request.op_eq_ok h
  · cases hc
  · generalize req.proc = proc, req.clientId? = id? at hasks ⊢
    cases hasks <;> first | exact hc | cases hc

theorem client?_action {K : Kernel κ} {w : World κ} {req : Request} {c d : Int32}
    (hreq : req.clientId? = some c) (h : (action K w req).client? = some d) : d = c := by
  cases hop : req.op with
  | error f => simp [action, hop, Action.client?] at h
  | ok op =>
    rw [action_of_op hop] at h
    split at h
    · simp [Action.client?] at h
    · have hd : op.client? = some d := by
        cases op with
        | openDir c p =>
          rw [Op.action] at h
          split at h
          · exact h
          · simp [Action.client?] at h
        | closeDir c n =>
          rw [Op.action] at h
          split at h
          · exact h
          · simp [Action.client?] at h
        | unmount c =>
          cases c with
          | none => simp [Op.action, Action.client?] at h
          | some c => exact h
        | open_ c mode p => exact h
        | close c n => exact h
        | remove c p => exact h
        | _ => simp [Op.action, Action.client?] at h
      have hreq' := clientId?_of_op hop hd
      rw [hreq] at hreq'
      exact (Option.some.inj hreq').symm

/-- **A request carrying id `c` leaves the entries of every other client as they are.** -/
theorem frame_of_serve {K : Kernel κ} {w w' : World κ} {req : Request} {c : Int32}
    {r : ReturnType} (hreq : req.clientId? = some c) (h : serve K req w = .ok (r, w')) :
    others c w'.srv.resourceList = others c w.srv.resourceList := by
  obtain ⟨calls, hstep⟩ := exists_serverStep h
  rw [(serverStep_action hstep).next]
  exact others_next (fun d hd ↦ client?_action hreq hd) _

/-! ## The lock check on a path -/

/-- A request on a path with the registered argument count, an `int`-sized client id (and mode)
and a NUL-terminated path: the id, the path, and the system call the handler is there to make. -/
inductive PathRequest : Request → Int32 → CString → Syscall → Prop
  | openDir {a₀ a₁ : ArgType} {g c : Int32} {p : CString} (h₀ : a₀.argSize = sizeofInt)
      (hc : intAt a₀.argVal = .ok c) (hp : a₁.cstr = .ok p) :
      PathRequest ⟨.fsOpenDir, [a₀, a₁], g⟩ c p (.opendir p)
  | remove {a₀ a₁ : ArgType} {g c : Int32} {p : CString} (h₀ : a₀.argSize = sizeofInt)
      (hc : intAt a₀.argVal = .ok c) (hp : a₁.cstr = .ok p) :
      PathRequest ⟨.fsRemove, [a₀, a₁], g⟩ c p (.remove p)
  | open_ {a₀ a₁ a₂ : ArgType} {g c mode : Int32} {p : CString} (h₀ : a₀.argSize = sizeofInt)
      (hc : intAt a₀.argVal = .ok c) (h₁ : a₁.argSize = sizeofInt)
      (hmode : intAt a₁.argVal = .ok mode) (hp : a₂.cstr = .ok p) :
      PathRequest ⟨.fsOpen, [a₀, a₁, a₂], g⟩ c p (.open_ p (openFlags mode))

/-- The operation such a request is. -/
theorem PathRequest.op {req : Request} {c : Int32} {p : CString} {call : Syscall}
    (h : PathRequest req c p call) :
    (req.op = .ok (.openDir c p) ∧ call = .opendir p) ∨
      (req.op = .ok (.remove c p) ∧ call = .remove p) ∨
      ∃ mode, req.op = .ok (.open_ c mode p) ∧ call = .open_ p (openFlags mode) := by
  cases h with
  | openDir h₀ hc hp =>
    left
    simp [Request.op, Request.withId, Request.nparams, readId, argAt, bind, Except.bind, pure,
      Except.pure, h₀, hc, hp]
  | remove h₀ hc hp =>
    right; left
    simp [Request.op, Request.withId, Request.nparams, readId, argAt, bind, Except.bind, pure,
      Except.pure, h₀, hc, hp]
  | @open_ _ _ _ _ _ mode _ h₀ hc h₁ hmode hp =>
    right; right
    refine ⟨mode, ?_, rfl⟩
    simp [Request.op, Request.withId, Request.nparams, readId, argAt, bind, Except.bind, pure,
      Except.pure, h₀, hc, h₁, hmode, hp]

/-- Somebody else's entry: refused without any effect. -/
theorem PathRequest.refused {K : Kernel κ} {w : World κ} {req : Request} {c : Int32} {p : CString}
    {call : Syscall} (h : PathRequest req c p call)
    (hb : refuses (pathEntry w.srv.resourceList p) c = true) :
    serve K req w = .ok (refusal, w) := by
  rcases h.op with ⟨hop, -⟩ | ⟨hop, -⟩ | ⟨mode, hop, -⟩ <;>
  · rw [serve_of_op hop]
    exact perform_of_blocked K (by simpa [Op.blocked, findResource_eq_pathEntry] using hb)

/-- No entry, or one's own: the system call is made. -/
theorem PathRequest.admitted {K : Kernel κ} {w : World κ} {req : Request} {c : Int32} {p : CString}
    {call : Syscall} (h : PathRequest req c p call)
    (hb : refuses (pathEntry w.srv.resourceList p) c = false) :
    ∃ r w', serve K req w = .ok (r, w') ∧ w'.calls = call :: w.calls := by
  rcases h.op with ⟨hop, rfl⟩ | ⟨hop, rfl⟩ | ⟨mode, hop, rfl⟩ <;>
    have hserve := serve_of_op (K := K) (w := w) hop
  · cases hd : (K.opendir w.kern p).1 with
    | error e =>
      rw [perform, openDirPath_of_error K w hb hd] at hserve
      exact ⟨_, _, hserve, rfl⟩
    | ok d =>
      obtain ⟨w', hw, hopened⟩ := openDirPath_of_ok K w hb hd
      rw [perform, hw] at hserve
      exact ⟨_, w', hserve, hopened.calls⟩
  · rw [perform, removePath_of_admitted K w hb] at hserve
    exact ⟨_, _, hserve, rfl⟩
  · rw [perform, openPath_of_admitted K w hb] at hserve
    exact ⟨_, _, hserve, rfl⟩

/-! ## The lock check on a descriptor -/

/-- The descriptor an operation is about. -/
def Op.fd? : Op → Option Int32
  | .read n _ | .write _ n _ _ | .close _ n => some n
  | _ => none

/-- A call that was made shows. -/
theorem World.after_ne {α : Type} (w : World κ) (c : Syscall) (r : Except Errno α × κ) :
    w.after c r ≠ w := by
  intro h
  have hcalls := congrArg World.calls h
  simp at hcalls

/-- The lock check of `fsWrite` and `fsClose` stops everybody but the owner of the entry. -/
theorem refused_of_fdEntry {K : Kernel κ} {w : World κ} {req : Request} {op : Op} {c n : Int32}
    {r : Resource} (hop : req.op = .ok op) (hc : req.clientId? = some c) (hn : op.fd? = some n)
    (hread : ∀ count, op ≠ .read n count) (hr : fdEntry w.srv.resourceList n = some r)
    (hne : r.id ≠ c) : serve K req w = .ok (refusal, w) := by
  rw [serve_of_op hop]
  apply perform_of_blocked
  cases op with
  | read m count =>
    cases hn
    exact absurd rfl (hread count)
  | write d m count buf =>
    cases hn
    obtain rfl : c = d := Option.some.inj (hc.symm.trans (clientId?_of_op hop rfl))
    simpa [Op.blocked, findResource_eq_fdEntry, hr, refuses] using hne
  | close d m =>
    cases hn
    obtain rfl : c = d := Option.some.inj (hc.symm.trans (clientId?_of_op hop rfl))
    simpa [Op.blocked, findResource_eq_fdEntry, hr, refuses] using hne
  | _ => cases hn

/-- A read is never refused. -/
theorem read_not_refused {K : Kernel κ} {w : World κ} {req : Request} {n count : Int32}
    (hop : req.op = .ok (.read n count)) : serve K req w ≠ .ok (refusal, w) := by
  intro h
  rw [serve_of_op hop] at h
  exact World.after_ne _ _ _ (readFd_world h).symm

/-- It lets the owner of the entry through. -/
theorem not_refused_of_fdEntry {K : Kernel κ} {w : World κ} {req : Request} {op : Op} {c n : Int32}
    (hop : req.op = .ok op) (hc : req.clientId? = some c) (hn : op.fd? = some n)
    (hown : ∀ r, fdEntry w.srv.resourceList n = some r → r.id = c) :
    serve K req w ≠ .ok (refusal, w) := by
  have hadm := refuses_eq_false_iff.mpr hown
  cases op with
  | read m count => exact read_not_refused hop
  | write d m count buf =>
    cases hn
    obtain rfl : c = d := Option.some.inj (hc.symm.trans (clientId?_of_op hop rfl))
    intro h
    rw [serve_of_op hop, perform, findResource_eq_fdEntry,
      if_neg (by simpa using hadm)] at h
    exact World.after_ne _ _ _ (writeFd_world h).symm
  | close d m =>
    cases hn
    obtain rfl : c = d := Option.some.inj (hc.symm.trans (clientId?_of_op hop rfl))
    intro h
    rw [serve_of_op hop, perform, closeFd_of_admitted K w hadm] at h
    have hcalls := congrArg (fun x ↦ x.2.calls) (Except.ok.inj h)
    simp at hcalls
  | _ => cases hn

/-! ## The theorem -/

/-- **Lock ownership.**  In every state a run reaches from the empty table: no two entries have the
same path; a request leaves the entries of all other clients as they are; and a request on a path
is refused without any effect when the entry of the path is another client's, and makes its system
call when there is none or it is the client's own. -/
theorem lock_ownership (K : Kernel κ) {dir : CString} {k : κ} {es : List Event} {w : World κ}
    (run : ServerRun K Run.free dir k es w) :
    PathsNodup w.srv.resourceList ∧
    (∀ (req : Request) (c : Int32) (r : ReturnType) (w' : World κ), req.clientId? = some c →
      serve K req w = .ok (r, w') →
      others c w'.srv.resourceList = others c w.srv.resourceList) ∧
    ∀ (req : Request) (c : Int32) (p : CString) (call : Syscall), PathRequest req c p call →
      (∀ e ∈ w.srv.resourceList, e.path = p → e.id ≠ c →
        serve K req w = .ok (refusal, w)) ∧
      ((∀ e ∈ w.srv.resourceList, e.path = p → e.id = c) →
        ∃ r w', serve K req w = .ok (r, w') ∧ w'.calls = call :: w.calls) := by
  have hnodup := paths_nodup run
  refine ⟨hnodup, fun req c r w' hreq h ↦ frame_of_serve hreq h, ?_⟩
  intro req c p call hreq
  constructor
  · rintro e he rfl hne
    exact hreq.refused (refuses_eq_true_iff.mpr ⟨e, hnodup.pathEntry he, hne⟩)
  · intro hown
    refine hreq.admitted (refuses_eq_false_iff.mpr fun e he ↦ ?_)
    obtain ⟨hmem, hpath⟩ := pathEntry_some he
    exact hown e hmem hpath

/-- Once client 1 has opened a path, client 2 is refused there. -/
theorem lock_ownership_after_open :
    ∃ es w, ServerRun (FileSystem.kernel .lowest) Run.free (.lit "/srv") {} es w ∧
      serve (FileSystem.kernel .lowest) (.open_ 2 (.lit "/srv/a") (by decide) 0) w
        = .ok (refusal, w) := by
  obtain ⟨es, w, hrun, htable⟩ := exists_run (FileSystem.kernel .lowest)
    Run.free (.lit "/srv") {}
    [.open_ 1 (.lit "/srv/a") (by decide) 1]
    (fun _ w ↦ decide (w.srv.resourceList = [⟨1, 1, 3, .lit "/srv/a"⟩])) (by decide)
  have hentry : ⟨1, 1, 3, .lit "/srv/a"⟩ ∈ w.srv.resourceList := by
    rw [of_decide_eq_true htable]
    exact List.mem_singleton_self _
  have hreq : PathRequest (.open_ 2 (.lit "/srv/a") (by decide) 0) 2 (.lit "/srv/a")
      (.open_ (.lit "/srv/a") (openFlags 0)) :=
    .open_ rfl (intAt_intBytes 2) rfl (intAt_intBytes 0) (ArgType.cstr_str _ _)
  refine ⟨es, w, hrun, ?_⟩
  exact ((lock_ownership _ hrun).2.2 _ _ _ _ hreq).1 _ hentry rfl (by decide)

end RemoteFs
