import RemoteFs.Lock.Ownership

/-!
# Entries nobody stands behind

An entry of the lock table keeps every other client out, and the client library asks again for as
long as it is refused.  So an entry had better go when the handle it was made for goes.  An entry is
*backed* when its client still has a handle with its number on its path: issued, and since then
neither closed nor given up by unmounting.

* `stale_after_failed_open`: `fsOpen` pushes its entry before it looks at what `open` returned, and
  for a path nobody has open the entry of a failed `open` stays, with number `-1`.
* `no_stale_lock`: what keeps all entries backed is `FreesEntry`.  An `open` does not fail on a
  path without an entry; a client that closes a number has no second entry with that number, and
  none with number `0`, for which the search does nothing; and a client that unmounts has no
  entries left.
-/

set_option autoImplicit false

namespace RemoteFs

variable {κ : Type}

/-- The entry was made for a handle that its client still has. -/
def Backed (es : List Event) (r : Resource) : Prop :=
  ∃ h ∈ held givesBack es, h.client = r.id ∧ h.path = r.path ∧ h.num = r.fd

instance (es : List Event) (r : Resource) : Decidable (Backed es r) := by
  unfold Backed; infer_instance

/-- The step leaves no entry behind: it makes none for a failed open, and takes along all entries
of the handles it ends. -/
def FreesEntry (K : Kernel κ) (_es : List Event) (w : World κ) (e : Event) : Prop :=
  match action K w e.req with
  | .open_ _ _ _ p none => pathEntry w.srv.resourceList p ≠ none
  | .close _ c n true =>
    w.srv.resourceList.countP (fun r ↦ r.id = c ∧ r.fd = n) ≤ if n = 0 then 0 else 1
  | .unmount c => ∀ r ∈ w.srv.resourceList, r.id ≠ c
  | _ => True

instance (K : Kernel κ) (es : List Event) (w : World κ) (e : Event) :
    Decidable (FreesEntry K es w e) := by
  unfold FreesEntry
  rcases action K w e.req with _ | ⟨_, _, _, _, _ | _⟩ | ⟨_, _, _, _ | _⟩ | _ | _ <;>
    exact inferInstance

/-! ## The invariant -/

/-- A handle that is not given back goes on backing. -/
theorem Backed.cons {e : Event} {es : List Event} {r : Resource} (h : Backed es r)
    (hkeep : ∀ h : Handle, h.client = r.id → h.num = r.fd → givesBack e.label h = false) :
    Backed (e :: es) r := by
  obtain ⟨x, hx, hid, hpath, hnum⟩ := h
  exact ⟨x, mem_held_cons.mpr (.inr ⟨hx, hkeep x hid hnum⟩), hid, hpath, hnum⟩

/-- A successful close takes the closer's entries with that number along. -/
theorem not_mem_of_close {kind : Kind} {c n : Int32} {l : List Resource} {r : Resource}
    (hcount : l.countP (fun r ↦ r.id = c ∧ r.fd = n) ≤ if n = 0 then 0 else 1)
    (hr : r ∈ (Action.close kind c n true).next l) : ¬ (r.id = c ∧ r.fd = n) := by
  rw [Action.next] at hr
  by_cases hn : n = 0
  · rw [if_pos hn] at hcount
    have hnone := List.countP_eq_zero.mp (Nat.le_zero.mp hcount) r (List.mem_of_mem_eraseP hr)
    simpa using hnone
  · rw [if_neg hn] at hcount
    have hcount' : l.countP (fun r ↦ decide (n ≠ 0 ∧ r.fd = n ∧ r.id = c)) ≤ 1 := by
      simpa [hn, and_comm] using hcount
    have hgone := FirstMatch.not_of_mem_eraseP hcount' hr
    rintro ⟨hid, hfd⟩
    simp [hn, hid, hfd] at hgone

/-- **One step keeps the entries backed.** -/
theorem backed_step {K : Kernel κ} {es : List Event} {w w' : World κ} {e : Event}
    (h : ∀ r ∈ w.srv.resourceList, Backed es r) (hfree : FreesEntry K es w e)
    (hstep : serverStep K w e w') : ∀ r ∈ w'.srv.resourceList, Backed (e :: es) r := by
  obtain ⟨hnext, -, hlabel⟩ := serverStep_action hstep
  rw [hnext]
  intro r hr
  rcases mem_of_mem_next hr with hold | ⟨kind, lock, c, p, num, ha, hp, rfl⟩
  · -- an old entry: the handle behind it is not the one given back
    refine (h r hold).cons fun x hid hnum ↦ ?_
    rw [hlabel, Bool.eq_false_iff]
    intro hends
    rcases givesBack_eq_true_iff.mp hends with ⟨kind, hl⟩ | hl
    · have ha := Action.label_eq_closed.mp hl
      have hcount := by simpa only [FreesEntry, ha] using hfree
      exact not_mem_of_close hcount (ha ▸ hr) ⟨hid.symm, hnum.symm⟩
    · have ha := Action.label_eq_unmounted.mp hl
      simp only [FreesEntry, ha] at hfree
      exact hfree r hold hid.symm
  · -- a new entry: it was pushed for the handle just issued
    cases num with
    | none =>
      simp only [FreesEntry, ha] at hfree
      exact absurd hp hfree
    | some n =>
      refine ⟨⟨kind, c, p, n⟩, mem_held_cons.mpr (.inl ?_), rfl, rfl, rfl⟩
      rw [hlabel, ha]
      rfl

theorem backed_of_run {K : Kernel κ} {dir : CString} {k : κ} {es : List Event} {w : World κ}
    (h : ServerRun K (FreesEntry K) dir k es w) : ∀ r ∈ w.srv.resourceList, Backed es r := by
  refine Run.invariant (I := fun es w ↦ ∀ r ∈ w.srv.resourceList, Backed es r) ?_ ?_ h
  · intro r hr
    cases hr
  · intro es w e w' _ hI hfree hstep
    exact backed_step hI hfree hstep

/-- **No stale lock**, in every run whose steps leave no entry behind: every entry is backed by a
handle its client still has; a client that has given back its handles has no entries; and a
request on a path on which nobody else has a handle makes its system call. -/
theorem no_stale_lock (K : Kernel κ) {dir : CString} {k : κ} {es : List Event} {w : World κ}
    (run : ServerRun K (FreesEntry K) dir k es w) :
    (∀ r ∈ w.srv.resourceList, Backed es r) ∧
    (∀ c : Int32, (∀ h ∈ held givesBack es, h.client ≠ c) →
      ∀ r ∈ w.srv.resourceList, r.id ≠ c) ∧
    ∀ (req : Request) (c : Int32) (p : CString) (call : Syscall), PathRequest req c p call →
      (∀ h ∈ held givesBack es, h.path = p → h.client = c) →
      ∃ r w', serve K req w = .ok (r, w') ∧ w'.calls = call :: w.calls := by
  have hbacked := backed_of_run run
  refine ⟨hbacked, ?_, ?_⟩
  · rintro c hnone r hr rfl
    obtain ⟨h, hh, hid, -, -⟩ := hbacked r hr
    exact hnone h hh hid
  · intro req c p call hreq hmine
    refine hreq.admitted (refuses_eq_false_iff.mpr fun r hr ↦ ?_)
    obtain ⟨hmem, hpath⟩ := pathEntry_some hr
    obtain ⟨h, hh, hid, hp, -⟩ := hbacked r hmem
    rw [← hid, hmine h hh (hp.trans hpath)]

/-- Client 1 opens, closes and leaves; then client 2 gets in. -/
theorem no_stale_lock_after_close :
    ∃ es w, ServerRun (FileSystem.kernel .lowest) (FreesEntry (FileSystem.kernel .lowest))
      (.lit "/srv") {} es w ∧ es.length = 3 ∧
      ∃ r w', serve (FileSystem.kernel .lowest) (.remove 2 (.lit "/srv/a") (by decide)) w
        = .ok (r, w') ∧ w'.calls = .remove (.lit "/srv/a") :: w.calls := by
  obtain ⟨es, w, hrun, hes⟩ := exists_run (FileSystem.kernel .lowest)
    (FreesEntry (FileSystem.kernel .lowest)) (.lit "/srv") {}
    [.open_ 1 (.lit "/srv/a") (by decide) 1, .close 1 3, .unmount 1 (.lit "/mnt") (by decide)]
    (fun es _ ↦ decide (es.length = 3) && decide (held givesBack es = [])) (by decide)
  obtain ⟨hlen, hheld⟩ : es.length = 3 ∧ held givesBack es = [] := by simpa using hes
  have hreq : PathRequest (.remove 2 (.lit "/srv/a") (by decide)) 2 (.lit "/srv/a")
      (.remove (.lit "/srv/a")) := .remove rfl (intAt_intBytes 2) (ArgType.cstr_str _ _)
  exact ⟨es, w, hrun, hlen, (no_stale_lock _ hrun).2.2 _ _ _ _ hreq (by simp [hheld])⟩

/-- Client 1 fails to open a file that is not there, and owns its name from then on. -/
theorem stale_after_failed_open :
    ∃ es w, ServerRun (FileSystem.kernel .lowest) (FreshOpen (FileSystem.kernel .lowest))
      (.lit "/srv") {} es w ∧ held givesBack es = [] ∧ ∃ r ∈ w.srv.resourceList, ¬ Backed es r := by
  obtain ⟨es, w, hrun, hes⟩ := exists_run (FileSystem.kernel .lowest)
    (FreshOpen (FileSystem.kernel .lowest)) (.lit "/srv") {}
    [.open_ 1 (.lit "/srv/a") (by decide) 0]
    (fun es w ↦ decide (held givesBack es = []) &&
      decide (∃ r ∈ w.srv.resourceList, ¬ Backed es r)) (by decide)
  obtain ⟨hheld, hstale⟩ : held givesBack es = [] ∧ ∃ r ∈ w.srv.resourceList, ¬ Backed es r := by
    simpa using hes
  exact ⟨es, w, hrun, hheld, hstale⟩

end RemoteFs
