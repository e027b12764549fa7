import RemoteFs.Rpc.Transparency

/-!
# Which calls are decoded

`make_remote_call` takes any `int` for the size of an argument, and `recvCall` exits on the sizes
it considers impossible.  `decodes_iff` says for which parameters the two get along: those whose
blocks are as long as promised and whose sizes are positive.  For any others a remote call does not
come back: the client reads past the end of a block, or the server exits.
-/

set_option autoImplicit false

namespace RemoteFs

open Session

variable {σ : Type}

/-- The block a parameter points to has the bytes its size promises. -/
def Param.Holds (p : Param) : Prop := p.psize.toInt ≤ p.pval.length

/-- A parameter is an argument when its block is long enough and its size is positive. -/
theorem Param.exists_passes_iff {p : Param} :
    (∃ a, p.Passes a) ↔ p.Holds ∧ 0 < p.psize.toInt := by
  constructor
  · rintro ⟨a, hsize, hval⟩
    have hle := hval.length_le
    have hpos := a.size_pos
    have heq := a.size_eq
    rw [← hsize] at hpos heq
    refine ⟨?_, hpos⟩
    show p.psize.toInt ≤ p.pval.length
    omega
  · rintro ⟨hle, hpos⟩
    have hlen : ((p.pval.take p.psize.toInt.toNat).length : ℤ) = p.psize.toInt := by
      have hle' : p.psize.toInt ≤ p.pval.length := hle
      rw [List.length_take_of_le (by omega)]
      omega
    exact ⟨⟨_, p.psize, hpos, hlen⟩, rfl, List.take_prefix _ _⟩

theorem exists_forall₂_passes {params : List Param}
    (h : ∀ p ∈ params, p.Holds ∧ 0 < p.psize.toInt) :
    ∃ args, List.Forall₂ Param.Passes params args := by
  induction params with
  | nil => exact ⟨[], .nil⟩
  | cons p params ih =>
    obtain ⟨a, ha⟩ := Param.exists_passes_iff.mpr (h p (by simp))
    obtain ⟨args, hargs⟩ := ih fun q hq ↦ h q (List.mem_cons_of_mem _ hq)
    exact ⟨a :: args, .cons ha hargs⟩

theorem exists_passes_of_mem {params : List Param} {args : List ArgType}
    (h : List.Forall₂ Param.Passes params args) {p : Param} (hp : p ∈ params) :
    ∃ a, p.Passes a := by
  induction h with
  | nil => cases hp
  | @cons q a params args hqa _ ih =>
    rcases List.mem_cons.mp hp with rfl | hp
    · exact ⟨a, hqa⟩
    · exact ih hp

/-! ## What is sent -/

/-- What is written for a parameter; for a negative size that is the size alone. -/
theorem exchanges_sendParam {p : Param} (h : p.Holds) :
    Exchanges (sendbytes p.pval p.psize) [] (p.pval.take p.psize.toInt.toNat) () := by
  refine exchanges_sendbytes (List.take_prefix _ _) (List.length_take_of_le ?_)
  have hle : p.psize.toInt ≤ p.pval.length := h
  omega

theorem exists_exchanges_sendParams {params : List Param} (h : ∀ p ∈ params, p.Holds) :
    ∃ bs, Exchanges (sendParams params.length params) [] bs () := by
  induction params with
  | nil => exact ⟨[], .pure ()⟩
  | cons p params ih =>
    obtain ⟨bs, hbs⟩ := ih fun q hq ↦ h q (List.mem_cons_of_mem _ hq)
    exact ⟨_, (exchanges_sendInt p.psize).bind_nil
      ((exchanges_sendParam (h p (by simp))).bind_nil hbs)⟩

/-- A block that is too short is read past its end. -/
theorem fails_sendParams {params : List Param} (h : ∃ p ∈ params, ¬ p.Holds) :
    Fails (sendParams params.length params) [] .overread := by
  induction params with
  | nil => simp at h
  | cons p params ih =>
    rw [List.length_cons, sendParams, ← List.nil_append []]
    refine (exchanges_sendInt p.psize).bind_fails ?_
    by_cases hp : p.Holds
    · have hrest : ∃ q ∈ params, ¬ q.Holds := by
        obtain ⟨q, hq, hnot⟩ := h
        rcases List.mem_cons.mp hq with rfl | hq
        · exact absurd hp hnot
        · exact ⟨q, hq, hnot⟩
      rw [← List.nil_append []]
      exact (exchanges_sendParam hp).bind_fails (ih hrest)
    · have hlt : p.pval.length < p.psize.toInt.toNat := by
        have hlt : ¬ p.psize.toInt ≤ p.pval.length := hp
        omega
      rw [sendbytes, if_pos hlt]
      exact (Fails.throw _ _).bind _

/-! ## What is decoded -/

section
variable {name : CString} {nparams : Int32} {params : List Param}

/-- The bytes a call writes are read as a call with the given arguments, and nothing is left. -/
def Decodes (name : CString) (nparams : Int32) (params : List Param) (args : List ArgType) : Prop :=
  ∃ bytes, Exchanges (sendCall name nparams params) [] bytes () ∧
    Exchanges recvCall bytes [] (name, nparams, args)

theorem decodes_of_passes (hname : name.strlen + 2 < 2 ^ 31) {args : List ArgType}
    (hn : (params.length : ℤ) = nparams.toInt) (h : List.Forall₂ Param.Passes params args) :
    Decodes name nparams params args := by
  have hlen : (args.length : ℤ) = nparams.toInt := by rw [← hn, h.length_eq]
  have hsend := exchanges_sendParams h
  rw [← Int.toNat_natCast params.length, hn] at hsend
  exact ⟨_, exchanges_sendCall (by omega) hsend, exchanges_recvCall hname hlen⟩

/-- A call that cannot be made because of a block that is too short. -/
theorem makeRemoteCall_overread {fnp : List (Fn σ)} (cuts : Cuts) {s : σ}
    (hname : name.strlen + 1 < 2 ^ 31) (hn : (params.length : ℤ) = nparams.toInt)
    (h : ∃ p ∈ params, ¬ p.Holds) :
    makeRemoteCall cuts fnp name nparams params s = .error .overread := by
  have hmem : name.mem.length = (Int32.ofNat (name.strlen + 1)).toInt.toNat := by
    rw [toNat_of_length hname, CString.length_mem]
  have hparams := fails_sendParams h
  rw [← Int.toNat_natCast params.length, hn] at hparams
  have hsend : Fails (sendCall name nparams params) [] .overread := by
    rw [sendCall, ← List.nil_append []]
    refine (exchanges_sendInt _).bind_fails ?_
    rw [← List.nil_append []]
    refine (exchanges_sendbytes List.prefix_rfl hmem).bind_fails ?_
    rw [← List.nil_append []]
    exact (exchanges_sendInt nparams).bind_fails hparams
  exact converse_eq_error_of_request cuts hsend

/-- **A size that is not positive makes the server exit.** -/
theorem makeRemoteCall_exit_of_holds {fnp : List (Fn σ)} (cuts : Cuts) {s : σ}
    (hname : name.strlen + 2 < 2 ^ 31) (hn : (params.length : ℤ) = nparams.toInt)
    (hholds : ∀ p ∈ params, p.Holds) (h : ∃ p ∈ params, ¬ 0 < p.psize.toInt) :
    makeRemoteCall cuts fnp name nparams params s = .error .exit := by
  -- the first such size
  obtain ⟨p, hfirst⟩ : ∃ p, params.find? (fun p ↦ decide (¬ 0 < p.psize.toInt)) = some p := by
    rw [← Option.isSome_iff_exists, List.find?_isSome]
    simpa using h
  obtain ⟨hp, before, rest, rfl, hbefore⟩ := List.find?_eq_some_iff_append.mp hfirst
  obtain ⟨args, hargs⟩ : ∃ args, List.Forall₂ Param.Passes before args :=
    exists_forall₂_passes fun q hq ↦ ⟨hholds q (by simp [hq]), by simpa using hbefore q hq⟩
  obtain ⟨bs, hbs⟩ : ∃ bs, Exchanges (sendParams rest.length rest) [] bs () :=
    exists_exchanges_sendParams fun q hq ↦ hholds q (by simp [hq])
  refine makeRemoteCall_exit cuts hname hargs (by simpa using hp) hbs ?_
  rw [← hn, List.length_append, List.length_cons]
  push_cast
  rfl

/-- **A remote call comes back only with parameters that are arguments.** -/
theorem exists_passes_of_makeRemoteCall {fnp : List (Fn σ)} {cuts : Cuts} {s : σ}
    {x : Served σ × ReturnType × Bytes × Bytes} (hname : name.strlen + 2 < 2 ^ 31)
    (hn : (params.length : ℤ) = nparams.toInt)
    (h : makeRemoteCall cuts fnp name nparams params s = .ok x) :
    ∃ args, List.Forall₂ Param.Passes params args := by
  refine exists_forall₂_passes ?_
  have hholds : ∀ p ∈ params, p.Holds := by
    by_contra hnot
    rw [makeRemoteCall_overread cuts (by omega) hn (by simpa using hnot)] at h
    cases h
  have hpos : ∀ p ∈ params, 0 < p.psize.toInt := by
    by_contra hnot
    rw [makeRemoteCall_exit_of_holds cuts hname hn hholds (by simpa using hnot)] at h
    cases h
  exact fun p hp ↦ ⟨hholds p hp, hpos p hp⟩

/-- **What is decoded**: the calls whose sizes are positive and not longer than the blocks. -/
theorem decodes_iff (hname : name.strlen + 2 < 2 ^ 31) (hn : (params.length : ℤ) = nparams.toInt) :
    (∃ args, Decodes name nparams params args) ↔
      ∀ p ∈ params, p.Holds ∧ 0 < p.psize.toInt := by
  constructor
  · rintro ⟨args, bytes, hsend, hrecv⟩
    have hnull : ReturnType.null.Holds := fun h ↦ absurd h (by decide)
    -- a server that knows no procedure answers whatever it decodes
    have hserve : Exchanges (serveConnection ([] : List (Fn Unit)) ()) bytes
        (resultBytes .null) ⟨name, nparams, args, ()⟩ := by
      exact hrecv.read_last ((exchanges_returnResult hnull).bind_pure
        fun _ ↦ (⟨name, nparams, args, ()⟩ : Served Unit))
    have hcall := converse_eq ⟨[], [], [], []⟩ hsend hserve (exchanges_recvResult hnull)
    obtain ⟨args, hargs⟩ := exists_passes_of_makeRemoteCall hname hn hcall
    intro p hp
    exact Param.exists_passes_iff.mp (exists_passes_of_mem hargs hp)
  · intro h
    obtain ⟨args, hargs⟩ := exists_forall₂_passes h
    exact ⟨args, decodes_of_passes hname hn hargs⟩

end

end RemoteFs
