import RemoteFs.Lock.Ownership

/-!
# The lock check of `fsCloseDir`

`fsCloseDir` allocates a block for the directory number, looks the number in that block up in the
lock table, and copies the client's number into it after that.  So whom it lets in is up to what the
block happened to hold.

* `stranger_closes_dir`: with a block of zeros, nobody is refused.
* `closeDir_honours_lock_iff`: the lock of an entry is honoured if and only if the block happens to
  hold a number whose entry is the same client's.
-/

set_option autoImplicit false

namespace RemoteFs

variable {κ : Type}

/-- What the lock of the entry `r` of a directory should mean, when `fsCloseDir` gets a block that
holds `garbage`. -/
structure HonoursLock (K : Kernel κ) (w : World κ) (r : Resource) (garbage : Int32) : Prop where
  /-- Everybody else is refused: the stream is left open, no call being made, and the table is left
  as it is. -/
  others : ∀ req c, req.op = .ok (.closeDir c r.fd) → req.garbage = garbage → c ≠ r.id →
    ∃ w', serve K req w = .ok (refusal, w') ∧ w'.calls = w.calls ∧
      w'.srv.resourceList = w.srv.resourceList
  /-- The client that holds it is not, if the number is in no other entry. -/
  owner : (∀ s ∈ w.srv.resourceList, s ≠ r → s.fd ≠ r.fd) →
    ∀ req, req.op = .ok (.closeDir r.id r.fd) → req.garbage = garbage →
      serve K req w ≠ .ok (refusal, w)

section
variable {K : Kernel κ} {w w' : World κ} {req : Request} {c n : Int32}

/-- An `fsCloseDir` that is let in makes a call, if it comes back. -/
theorem calls_of_closeDir {ret : ReturnType} (hop : req.op = .ok (.closeDir c n))
    (hadm : refuses (fdEntry w.srv.resourceList req.garbage) c = false)
    (h : serve K req w = .ok (ret, w')) : w'.calls ≠ w.calls := by
  rw [serve_of_op hop] at h
  obtain ⟨d, hd⟩ := findNode_of_closeDirNum hadm h
  rw [perform, closeDirNum_of_admitted K w hadm hd] at h
  cases h
  simp

/-- **Who is refused is up to the garbage.** -/
theorem closeDir_refused_iff (hop : req.op = .ok (.closeDir c n)) :
    (∃ w', serve K req w = .ok (refusal, w') ∧ w'.calls = w.calls ∧
      w'.srv.resourceList = w.srv.resourceList) ↔
      refuses (fdEntry w.srv.resourceList req.garbage) c = true := by
  constructor
  · rintro ⟨w', h, hcalls, -⟩
    by_contra hadm
    exact calls_of_closeDir hop (by simpa using hadm) h hcalls
  · intro hb
    refine ⟨w, ?_, rfl, rfl⟩
    rw [serve_of_op hop, perform, closeDirNum_of_blocked K w hb]

end

/-- **When `fsCloseDir` honours a lock.**  In every state, for every entry and every content of the
block that `fsCloseDir` allocates: all other clients are refused without any effect, and the client
of the entry gets past the check (if the number is in no other entry), if and only if the content is
a number whose entry in the table is that client's. -/
theorem closeDir_honours_lock_iff (K : Kernel κ) (w : World κ) (r : Resource) (garbage : Int32) :
    HonoursLock K w r garbage ↔
      ∃ s, fdEntry w.srv.resourceList garbage = some s ∧ s.id = r.id := by
  constructor
  · rintro ⟨hothers, -⟩
    have hrefused : ∀ c, c ≠ r.id → ∃ s, fdEntry w.srv.resourceList garbage = some s ∧ s.id ≠ c := by
      intro c hc
      have hop : (Request.closeDir c r.fd garbage).op = .ok (.closeDir c r.fd) :=
        Request.op_closeDir
      exact refuses_eq_true_iff.mp ((closeDir_refused_iff hop).mp (hothers _ c hop rfl hc))
    obtain ⟨c, hc⟩ := exists_ne_client r.id
    obtain ⟨s, hs, -⟩ := hrefused c hc
    refine ⟨s, hs, ?_⟩
    -- the client of the entry found would be refused for its own entry
    by_contra hid
    obtain ⟨t, ht, hne⟩ := hrefused s.id hid
    rw [hs, Option.some_inj] at ht
    exact hne (by rw [ht])
  · rintro ⟨s, hs, hid⟩
    constructor
    · rintro req c hop rfl hc
      refine (closeDir_refused_iff hop).mpr (refuses_eq_true_iff.mpr ⟨s, hs, ?_⟩)
      rw [hid]
      exact Ne.symm hc
    · rintro - req hop rfl h
      have hadm : refuses (fdEntry w.srv.resourceList req.garbage) r.id = false := by
        rw [hs]
        simp [refuses, hid]
      exact calls_of_closeDir hop hadm h rfl

/-- Client 1 has a directory open, and client 2 closes it. -/
theorem stranger_closes_dir :
    ∃ es w, ServerRun (FileSystem.kernel .lowest) Run.free (.lit "/srv")
        { names := [(.lit "/srv/d", .dir [])] } es w ∧
      w.srv.resourceList = [⟨1, 1, 2, .lit "/srv/d"⟩] ∧
      (∃ w', serve (FileSystem.kernel .lowest) (.closeDir 2 2 0) w = .ok (.int 0, w') ∧
        w'.calls = .closedir 0 :: w.calls) ∧
      ¬ HonoursLock (FileSystem.kernel .lowest) w ⟨1, 1, 2, .lit "/srv/d"⟩ 0 := by
  obtain ⟨es, w, w', hrun, hserve, hw⟩ := exists_run_serve (FileSystem.kernel .lowest) Run.free
    (.lit "/srv") { names := [(.lit "/srv/d", .dir [])] }
    [.openDir 1 (.lit "/srv/d") (by decide)] (.closeDir 2 2 0) (.int 0)
    (fun w w' ↦ decide (w.srv.resourceList = [⟨1, 1, 2, .lit "/srv/d"⟩]) &&
      decide (w'.calls = .closedir 0 :: w.calls)) (by decide)
  obtain ⟨htable, hcalls⟩ : w.srv.resourceList = [⟨1, 1, 2, .lit "/srv/d"⟩] ∧
      w'.calls = .closedir 0 :: w.calls := by simpa using hw
  refine ⟨es, w, hrun, htable, ⟨w', hserve, hcalls⟩, ?_⟩
  rintro ⟨hothers, -⟩
  obtain ⟨w₂, hrefused, -⟩ := hothers (.closeDir 2 2 0) 2 Request.op_closeDir rfl (by decide)
  cases hserve.symm.trans hrefused

end RemoteFs
