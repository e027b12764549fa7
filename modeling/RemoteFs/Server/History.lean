import RemoteFs.Lib.Run
import RemoteFs.Server.LockTable

/-!
# Runs of the server, and the handles that are out

A run of the file server is a run of `serverStep` from `World.start`: the globals as the program
starts with them, over any kernel.  Nothing is said about who sends which request: any number of
clients, in any order, with any arguments, is just a list of events.

`held ends es` are the handles issued in the history `es` and not ended since, where `ends` says
which label ends which handle; different questions end a handle differently, and the three ways
that are asked about stand here side by side.
-/

set_option autoImplicit false

namespace RemoteFs

variable {κ : Type}

/-- The world when `main` enters `launch_server`. -/
def World.start (dir : CString) (k : κ) : World κ where
  srv := { mountedDir := dir }
  kern := k

/-- The runs of the server that serve directory `dir` on a kernel in state `k`. -/
abbrev ServerRun (K : Kernel κ) (guard : List Event → World κ → Event → Prop) (dir : CString)
    (k : κ) : List Event → World κ → Prop :=
  Run (serverStep K) guard (World.start dir k)

/-! ## Handles that are out -/

/-- The handle a label issues. -/
def Label.issued? : Label → Option Handle
  | .issued h => some h
  | _ => none

/-- The handles issued in a history (newest event first) and not ended since. -/
def held (ends : Label → Handle → Bool) : List Event → List Handle
  | [] => []
  | e :: es => e.label.issued?.toList ++ (held ends es).filter fun h ↦ !ends e.label h

/-- A successful `fsClose`, by whomever, closes a file descriptor. -/
def closesFd : Label → Handle → Bool
  | .closed .file _ n, h => h.kind = .file ∧ h.num = n
  | _, _ => false

/-- A handle stops counting as one on its path when it is closed, and when the path is removed:
what is opened under that name afterwards is another file. -/
def leavesPath : Label → Handle → Bool
  | .closed .file _ n, h => h.kind = .file ∧ h.num = n
  | .removed _ p, h => h.path = p
  | _, _ => false

/-- A client gives back a handle by closing its number, with either call, or by unmounting. -/
def givesBack : Label → Handle → Bool
  | .closed _ c n, h => h.client = c ∧ h.num = n
  | .unmounted c, h => h.client = c
  | _, _ => false

theorem closesFd_eq_true_iff {l : Label} {h : Handle} :
    closesFd l h = true ↔ h.kind = .file ∧ ∃ c, l = .closed .file c h.num := by
  constructor
  · intro hends
    cases l with
    | closed kind c n =>
      cases kind with
      | dir => cases hends
      | file =>
        obtain ⟨hkind, rfl⟩ := of_decide_eq_true hends
        exact ⟨hkind, c, rfl⟩
    | quiet | issued | removed | unmounted => cases hends
  · rintro ⟨hkind, c, rfl⟩
    exact decide_eq_true ⟨hkind, rfl⟩

theorem givesBack_eq_true_iff {l : Label} {h : Handle} :
    givesBack l h = true ↔
      (∃ kind, l = .closed kind h.client h.num) ∨ l = .unmounted h.client := by
  constructor
  · intro hends
    cases l with
    | closed kind c n =>
      obtain ⟨rfl, rfl⟩ := of_decide_eq_true hends
      exact .inl ⟨kind, rfl⟩
    | unmounted c =>
      obtain rfl := of_decide_eq_true hends
      exact .inr rfl
    | quiet | issued | removed => cases hends
  · rintro (⟨kind, rfl⟩ | rfl)
    · exact decide_eq_true ⟨rfl, rfl⟩
    · exact decide_eq_true rfl

theorem mem_held_cons {ends : Label → Handle → Bool} {e : Event} {es : List Event} {h : Handle} :
    h ∈ held ends (e :: es) ↔ e.label = .issued h ∨ h ∈ held ends es ∧ ends e.label h = false := by
  have hissued : h ∈ e.label.issued?.toList ↔ e.label = .issued h := by
    cases e.label <;> simp [Label.issued?, eq_comm]
  simp [held, hissued]

/-- The file handles among them. -/
def heldFiles (ends : Label → Handle → Bool) (es : List Event) : List Handle :=
  (held ends es).filter fun h ↦ h.kind = .file

theorem mem_heldFiles_cons {ends : Label → Handle → Bool} {e : Event} {es : List Event}
    {h : Handle} : h ∈ heldFiles ends (e :: es) ↔
      (h.kind = .file ∧ e.label = .issued h) ∨
        (h ∈ heldFiles ends es ∧ ends e.label h = false) := by
  simp only [heldFiles, List.mem_filter, mem_held_cons, decide_eq_true_eq]
  tauto

/-- The file handles that are open: issued by a successful `fsOpen` and not closed since. -/
def openFiles (es : List Event) : List Handle := heldFiles closesFd es

/-- What `open` promises: the descriptor it returns is positive and not open already. -/
def FreshOpen (K : Kernel κ) (es : List Event) (w : World κ) (e : Event) : Prop :=
  match action K w e.req with
  | .open_ .file _ _ _ (some n) => 0 < n ∧ ∀ h ∈ openFiles es, h.num ≠ n
  | _ => True

instance (K : Kernel κ) (es : List Event) (w : World κ) (e : Event) :
    Decidable (FreshOpen K es w e) := by
  unfold FreshOpen
  rcases action K w e.req with _ | ⟨_ | _, _, _, _, _ | _⟩ | _ | _ | _ <;> exact inferInstance

theorem FreshOpen.of_action {K : Kernel κ} {es : List Event} {w : World κ} {e : Event}
    {lock c n : Int32} {p : CString} (h : FreshOpen K es w e)
    (ha : action K w e.req = .open_ .file lock c p (some n)) :
    0 < n ∧ ∀ h ∈ openFiles es, h.num ≠ n := by
  simpa only [FreshOpen, ha] using h

/-! ## Runs on given requests

`exec` serves a list of requests one after the other, as long as the guard is met and nothing
faults: the run exists because it can be computed. -/

section
variable {K : Kernel κ} {guard : List Event → World κ → Event → Prop}
  [∀ es w e, Decidable (guard es w e)] {dir : CString} {k : κ}

/-- Serve one more request. -/
def execStep (K : Kernel κ) (guard : List Event → World κ → Event → Prop)
    [∀ es w e, Decidable (guard es w e)] (s : List Event × World κ) (req : Request) :
    Option (List Event × World κ) :=
  match serve K req s.2 with
  | .error _ => none
  | .ok (reply, w) =>
    let e : Event := ⟨req, w.calls.take (w.calls.length - s.2.calls.length), reply⟩
    if guard s.1 s.2 e then some (e :: s.1, w) else none

/-- Serve a list of requests from the start. -/
def exec (K : Kernel κ) (guard : List Event → World κ → Event → Prop)
    [∀ es w e, Decidable (guard es w e)] (dir : CString) (k : κ) (reqs : List Request) :
    Option (List Event × World κ) :=
  reqs.foldlM (execStep K guard) ([], World.start dir k)

theorem run_of_execStep {w₀ : World κ} {s s' : List Event × World κ} {req : Request}
    (hs : Run (serverStep K) guard w₀ s.1 s.2) (h : execStep K guard s req = some s') :
    Run (serverStep K) guard w₀ s'.1 s'.2 := by
  rw [execStep] at h
  split at h
  · cases h
  · rename_i reply w hserve
    simp only [Option.ite_none_right_eq_some] at h
    obtain ⟨hg, h⟩ := h
    cases h
    obtain ⟨calls, hstep, hcalls⟩ := exists_serverStep hserve
    refine .next hs hg ⟨hstep, ?_⟩
    simp [hcalls]

theorem run_of_foldlM {w₀ : World κ} {reqs : List Request} {s₀ s : List Event × World κ}
    (hs₀ : Run (serverStep K) guard w₀ s₀.1 s₀.2)
    (h : reqs.foldlM (execStep K guard) s₀ = some s) : Run (serverStep K) guard w₀ s.1 s.2 := by
  induction reqs generalizing s₀ with
  | nil =>
    cases h
    exact hs₀
  | cons req reqs ih =>
    rw [List.foldlM_cons] at h
    obtain ⟨s₁, h₁, hrest⟩ := Option.bind_eq_some_iff.mp h
    exact ih (run_of_execStep hs₀ h₁) hrest

/-- **What `exec` computes is a run.** -/
theorem run_of_exec {reqs : List Request} {s : List Event × World κ}
    (h : exec K guard dir k reqs = some s) : ServerRun K guard dir k s.1 s.2 :=
  run_of_foldlM .start h

end

/-- A run from anywhere with a property that can be checked by computing it. -/
theorem exists_run_from (K : Kernel κ) (guard : List Event → World κ → Event → Prop)
    [∀ es w e, Decidable (guard es w e)] (w₀ : World κ) (reqs : List Request)
    (p : List Event → World κ → Bool)
    (h : ((reqs.foldlM (execStep K guard) ([], w₀)).any fun s ↦ p s.1 s.2) = true) :
    ∃ es w, Run (serverStep K) guard w₀ es w ∧ p es w = true := by
  cases hs : reqs.foldlM (execStep K guard) ([], w₀) with
  | none => simp [hs] at h
  | some s => exact ⟨s.1, s.2, run_of_foldlM .start hs, by simpa [hs] using h⟩

/-- A run with a property that can be checked by computing it. -/
theorem exists_run (K : Kernel κ) (guard : List Event → World κ → Event → Prop)
    [∀ es w e, Decidable (guard es w e)] (dir : CString) (k : κ) (reqs : List Request)
    (p : List Event → World κ → Bool)
    (h : ((exec K guard dir k reqs).any fun s ↦ p s.1 s.2) = true) :
    ∃ es w, ServerRun K guard dir k es w ∧ p es w = true := by
  cases hs : exec K guard dir k reqs with
  | none => simp [hs] at h
  | some s => exact ⟨s.1, s.2, run_of_exec hs, by simpa [hs] using h⟩

/-- And a run with one more request, which is answered `ret`; `p` compares the worlds around it. -/
theorem exists_run_serve (K : Kernel κ) (guard : List Event → World κ → Event → Prop)
    [∀ es w e, Decidable (guard es w e)] (dir : CString) (k : κ) (reqs : List Request)
    (req : Request) (ret : ReturnType) (p : World κ → World κ → Bool)
    (h : ((exec K guard dir k reqs).any fun s ↦
      (serve K req s.2).toOption.any fun x ↦ decide (x.1 = ret) && p s.2 x.2) = true) :
    ∃ es w w', ServerRun K guard dir k es w ∧ serve K req w = .ok (ret, w') ∧ p w w' = true := by
  obtain ⟨es, w, hrun, hw⟩ : ∃ es w, ServerRun K guard dir k es w ∧
      ((serve K req w).toOption.any fun x ↦ decide (x.1 = ret) && p w x.2) = true :=
    exists_run K guard dir k reqs _ h
  cases hserve : serve K req w with
  | error f =>
    rw [hserve] at hw
    cases hw
  | ok x =>
    obtain ⟨reply, w'⟩ := x
    rw [hserve] at hw
    obtain ⟨rfl, hp⟩ : reply = ret ∧ p w w' = true := by simpa [Except.toOption] using hw
    exact ⟨es, w, w', hrun, hserve, hp⟩

end RemoteFs
