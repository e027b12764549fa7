import RemoteFs.Lock.Ownership
import RemoteFs.Server.Confinement

/-!
# Locks and spellings

The lock table is searched for a path with `strcmp`.  To the operating system `/srv/a`, `/srv//a`
and `/srv/./a` are one file; to the table they are three, each with a lock of its own.

* `SameFile` says that two absolute paths differ in empty components and `.` only, and
  `SameFile.resolve` that they lead to the same place.
* `other_spelling_admitted`: a client that is refused for one spelling is admitted for another.
* `lock_on_spelling`: two spellings are treated alike if and only if the two locks happen to be; and
  in a state with an entry for an absolute path, some spelling of it is not.
-/

set_option autoImplicit false

namespace RemoteFs

variable {κ : Type}

/-! ## Spellings -/

/-- The components of a path, the empty ones and `.` left out. -/
def CString.components (p : CString) : List Bytes :=
  (p.chars.splitOn 47).filter fun name ↦ decide (name ≠ [] ∧ name ≠ [46])

/-- The path begins at the root. -/
def CString.IsAbsolute (p : CString) : Prop := p.chars.head? = some 47

instance (p : CString) : Decidable p.IsAbsolute := by
  unfold CString.IsAbsolute; infer_instance

/-- Two spellings of one absolute path. -/
structure SameFile (p q : CString) : Prop where
  left : p.IsAbsolute
  right : q.IsAbsolute
  components : p.components = q.components

/-- Only these components matter to `resolve`. -/
theorem resolve_eq (p : CString) :
    resolve p = p.components.foldl Lexical.enter ⟨p.chars.head? = some 47, 0, []⟩ := by
  have hskip : ∀ (names : List Bytes) (x : Lexical), names.foldl Lexical.enter x
      = (names.filter fun n ↦ decide (n ≠ [] ∧ n ≠ [46])).foldl Lexical.enter x := by
    intro names
    induction names with
    | nil => exact fun _ ↦ rfl
    | cons n names ih =>
      intro x
      rw [List.foldl_cons, ih, List.filter_cons]
      by_cases hn : n ≠ [] ∧ n ≠ [46]
      · rw [if_pos (decide_eq_true hn)]
        rfl
      · have hstay : x.enter n = x := if_pos (by tauto)
        rw [if_neg (by simpa using hn), hstay]
  rw [resolve, hskip]
  rfl

/-- **Two spellings lead to the same place.** -/
theorem SameFile.resolve {p q : CString} (h : SameFile p q) :
    RemoteFs.resolve p = RemoteFs.resolve q := by
  rw [resolve_eq, resolve_eq, h.components, show p.chars.head? = some 47 from h.left,
    show q.chars.head? = some 47 from h.right]

/-- More slashes in front. -/
def CString.slashed (p : CString) (n : ℕ) : CString :=
  ⟨List.replicate n 47 ++ p.chars, by
    rw [List.mem_append, not_or]
    exact ⟨fun h ↦ absurd (List.eq_of_mem_replicate h) (by decide), p.noNul⟩⟩

theorem components_slashed (p : CString) (n : ℕ) : (p.slashed n).components = p.components := by
  induction n with
  | zero => rfl
  | succ n ih =>
    rw [← ih]
    show ((47 :: (p.slashed n).chars).splitOn 47).filter _ = _
    rw [List.splitOn_cons_eq_if_modifyHead, if_pos (by decide)]
    rfl

theorem SameFile.slashed {p : CString} (h : p.IsAbsolute) (n : ℕ) : SameFile p (p.slashed n) := by
  refine ⟨h, ?_, (components_slashed p n).symm⟩
  cases n with
  | zero => exact h
  | succ n => rfl

/-- There are more spellings than entries. -/
theorem exists_slashed (l : List Resource) (p : CString) :
    ∃ n, ∀ r ∈ l, r.path ≠ p.slashed n := by
  obtain ⟨n, hn⟩ : ∃ n, ∀ r ∈ l, r.path.strlen < n := by
    induction l with
    | nil => exact ⟨0, nofun⟩
    | cons r l ih =>
      obtain ⟨n, hn⟩ := ih
      refine ⟨n + r.path.strlen + 1, fun s hs ↦ ?_⟩
      rcases List.mem_cons.mp hs with rfl | hs
      · omega
      · have hlt := hn s hs
        omega
  refine ⟨n, fun r hr heq ↦ ?_⟩
  have hlt := hn r hr
  have hlen : (p.slashed n).strlen = n + p.strlen := by
    simp [CString.strlen, CString.slashed]
  rw [heq, hlen] at hlt
  omega

/-! ## Verdicts -/

/-- The operation is an `fsOpen`, an `fsOpenDir` or an `fsRemove` of client `c` on the path `p`. -/
structure Op.On (op : Op) (c : Int32) (p : CString) : Prop where
  client : op.client? = some c
  path : op.path? = some p

/-- Somebody but `c` has an entry for exactly this path. -/
def HeldByOther (l : List Resource) (c : Int32) (p : CString) : Prop :=
  ∃ r ∈ l, r.path = p ∧ r.id ≠ c

/-- What is let in on a path makes a call. -/
theorem calls_ne_of_performed {K : Kernel κ} {w w' : World κ} {op : Op} {ret : ReturnType}
    {p : CString} (hp : op.path? = some p) (h : Performed K w op ret w') : w'.calls ≠ w.calls := by
  cases h with
  | open_ | remove | noDir => simp
  | openDir _ _ hopened =>
    rw [hopened.calls]
    simp
  | _ => cases hp

theorem blocked_of_on {op : Op} {c : Int32} {p : CString} (h : op.On c p) (l : List Resource)
    (g : Int32) : op.blocked l g = refuses (pathEntry l p) c := by
  obtain ⟨hc, hp⟩ := h
  cases op with
  | openDir | remove | open_ =>
    cases hc
    cases hp
    rw [Op.blocked, findResource_eq_pathEntry]
  | _ => cases hp

/-- **The verdict is on the spelling.** -/
theorem refused_iff {K : Kernel κ} {w : World κ} {op : Op} {c g : Int32} {p : CString}
    (hnodup : PathsNodup w.srv.resourceList) (h : op.On c p) :
    perform K g op w = .ok (refusal, w) ↔ HeldByOther w.srv.resourceList c p := by
  constructor
  · intro hrefused
    have hb : op.blocked w.srv.resourceList g = true := by
      by_contra hadm
      exact calls_ne_of_performed h.path (performed_of_perform (by simpa using hadm) hrefused) rfl
    rw [blocked_of_on h] at hb
    obtain ⟨r, hr, hne⟩ := refuses_eq_true_iff.mp hb
    obtain ⟨hmem, hpath⟩ := pathEntry_some hr
    exact ⟨r, hmem, hpath, hne⟩
  · rintro ⟨r, hr, rfl, hne⟩
    apply perform_of_blocked
    rw [blocked_of_on h]
    exact refuses_eq_true_iff.mpr ⟨r, hnodup.pathEntry hr, hne⟩

/-! ## The theorem -/

/-- **The lock is on the spelling.**  In every state a run reaches, and for any two spellings of an
absolute path: requests of one client on the two get the same verdict if and only if somebody else
has an entry for the one spelling exactly if somebody else has an entry for the other.  All clients
get the same verdict for all spellings of all absolute paths, whatever the handler, if and only if
the table has no entry for an absolute path. -/
theorem lock_on_spelling (K : Kernel κ) {dir : CString} {k : κ} {es : List Event} {w : World κ}
    (run : ServerRun K Run.free dir k es w) :
    (∀ (req req' : Request) (op op' : Op) (c : Int32) (p q : CString), req.op = .ok op →
      op.On c p → req'.op = .ok op' → op'.On c q → SameFile p q →
      ((serve K req w = .ok (refusal, w) ↔ serve K req' w = .ok (refusal, w)) ↔
        (HeldByOther w.srv.resourceList c p ↔ HeldByOther w.srv.resourceList c q))) ∧
    ((∀ (op op' : Op) (c g g' : Int32) (p q : CString), op.On c p → op'.On c q → SameFile p q →
      (perform K g op w = .ok (refusal, w) ↔ perform K g' op' w = .ok (refusal, w))) ↔
        ∀ r ∈ w.srv.resourceList, ¬ r.path.IsAbsolute) := by
  have hnodup := paths_nodup run
  refine ⟨fun req req' op op' c p q hop hon hop' hon' hsame ↦ ?_, ?_⟩
  · rw [serve_of_op hop, serve_of_op hop', refused_iff hnodup hon, refused_iff hnodup hon']
  · constructor
    · intro h r hr habs
      obtain ⟨n, hn⟩ := exists_slashed w.srv.resourceList r.path
      obtain ⟨c, hc⟩ := exists_ne_client r.id
      have hon : (Op.remove c r.path).On c r.path := ⟨rfl, rfl⟩
      have hon' : (Op.remove c (r.path.slashed n)).On c (r.path.slashed n) := ⟨rfl, rfl⟩
      have hverdict := h _ _ c 0 0 _ _ hon hon' (.slashed habs n)
      rw [refused_iff hnodup hon, refused_iff hnodup hon'] at hverdict
      obtain ⟨s, hs, hpath, -⟩ := hverdict.mp ⟨r, hr, rfl, Ne.symm hc⟩
      exact hn s hs hpath
    · intro h op op' c g g' p q hon hon' hsame
      rw [refused_iff hnodup hon, refused_iff hnodup hon']
      refine iff_of_false ?_ ?_
      · rintro ⟨r, hr, rfl, -⟩
        exact h r hr hsame.left
      · rintro ⟨r, hr, rfl, -⟩
        exact h r hr hsame.right

/-- The client that has an entry is let in under both spellings. -/
theorem lock_on_spelling_of_owner :
    ∃ es w, ServerRun (FileSystem.kernel .lowest) Run.free (.lit "/srv") {} es w ∧
      (serve (FileSystem.kernel .lowest) (.open_ 1 (.lit "/srv/a") (by decide) 1) w
          = .ok (refusal, w) ↔
        serve (FileSystem.kernel .lowest) (.open_ 1 (.lit "/srv//a") (by decide) 1) w
          = .ok (refusal, w)) := by
  obtain ⟨es, w, hrun, htable⟩ := exists_run (FileSystem.kernel .lowest) Run.free (.lit "/srv") {}
    [.open_ 1 (.lit "/srv/a") (by decide) 1]
    (fun _ w ↦ w.srv.resourceList.all fun r ↦ decide (r.id = 1)) (by decide)
  have hown : ∀ p, ¬ HeldByOther w.srv.resourceList 1 p := by
    rintro p ⟨r, hr, -, hne⟩
    exact hne (of_decide_eq_true (List.all_eq_true.mp htable r hr))
  refine ⟨es, w, hrun, ?_⟩
  exact ((lock_on_spelling _ hrun).1 _ _ _ _ 1 (.lit "/srv/a") (.lit "/srv//a")
    Request.op_open ⟨rfl, rfl⟩ Request.op_open ⟨rfl, rfl⟩ ⟨by decide, by decide, by decide⟩).mpr
    (iff_of_false (hown _) (hown _))

/-- Client 1 has a file open.  Client 2 is refused for the same path, and opens it with another
slash. -/
theorem other_spelling_admitted :
    SameFile (.lit "/srv/a") (.lit "/srv//a") ∧
    ∃ es w w', ServerRun (FileSystem.kernel .lowest) Run.free (.lit "/srv") {} es w ∧
      serve (FileSystem.kernel .lowest) (.open_ 2 (.lit "/srv/a") (by decide) 1) w
        = .ok (refusal, w) ∧
      serve (FileSystem.kernel .lowest) (.open_ 2 (.lit "/srv//a") (by decide) 1) w
        = .ok (.int 4, w') ∧
      w'.srv.resourceList = [⟨1, 2, 4, .lit "/srv//a"⟩, ⟨1, 1, 3, .lit "/srv/a"⟩] := by
  refine ⟨⟨by decide, by decide, by decide⟩, ?_⟩
  obtain ⟨es, w, w', hrun, hserve, hw⟩ := exists_run_serve (FileSystem.kernel .lowest) Run.free
    (.lit "/srv") {} [.open_ 1 (.lit "/srv/a") (by decide) 1]
    (.open_ 2 (.lit "/srv//a") (by decide) 1) (.int 4)
    (fun w w' ↦ (Op.open_ 2 1 (.lit "/srv/a")).blocked w.srv.resourceList 0 &&
      decide (w'.srv.resourceList = [⟨1, 2, 4, .lit "/srv//a"⟩, ⟨1, 1, 3, .lit "/srv/a"⟩]))
    (by decide)
  obtain ⟨hb, htable⟩ : (Op.open_ 2 1 (.lit "/srv/a")).blocked w.srv.resourceList 0 = true ∧
      w'.srv.resourceList = [⟨1, 2, 4, .lit "/srv//a"⟩, ⟨1, 1, 3, .lit "/srv/a"⟩] := by
    simpa using hw
  refine ⟨es, w, w', hrun, ?_, hserve, htable⟩
  rw [serve_of_op Request.op_open]
  exact perform_of_blocked _ hb

end RemoteFs
