import RemoteFs.Lib.Session

/-!
# The language of a session

`Session.Exchanges` says what a session does on one word.  Here the question is asked for the
session as a whole, about a peer that may send anything.

* `Session.Recognises p P` says that `P` is the language of `p`: `p` returns `b` on the streams that
  start with a word of `P b`, on no others, and reads that word and nothing else.  The language of
  `p >>= f` is the concatenation of the two (`Recognises.bind`).
* `Session.Raises p E` bounds how `p` fails: with an error and a stream that `E` allows.
* A session with a language is a prefix code: a stream starts with at most one of its words
  (`Recognises.unique`).
-/

set_option autoImplicit false

namespace Session

variable {ε α β γ : Type}

/-- `p` returns `b`, having read `i` and written nothing, exactly when `P b i`. -/
structure Recognises (p : Session ε α β) (P : β → List α → Prop) : Prop where
  /-- What `p` returns it has read from the front of the stream. -/
  sound : ∀ {e e' : Endpoint α} {b : β}, p.run e = .ok (b, e') →
    ∃ i, P b i ∧ e.inp = i ++ e'.inp ∧ e'.out = e.out
  /-- A word of the language is read, whatever follows it and however it is cut. -/
  complete : ∀ {b : β} {i : List α}, P b i → Exchanges p i [] b

/-- When `p` fails with `err` on the stream `inp`, then `E err inp`. -/
def Raises (p : Session ε α β) (E : ε → List α → Prop) : Prop :=
  ∀ (e : Endpoint α) (err : ε), p.run e = .error err → E err e.inp

/-! ## Words at the front of a stream -/

section
variable {p : Session ε α β} {P Q : β → List α → Prop} {E F : ε → List α → Prop}

theorem Recognises.congr (h : Recognises p P) (hPQ : ∀ b i, P b i ↔ Q b i) : Recognises p Q where
  sound hrun := by
    obtain ⟨i, hi, hinp, hout⟩ := h.sound hrun
    exact ⟨i, (hPQ _ _).mp hi, hinp, hout⟩
  complete hi := h.complete ((hPQ _ _).mpr hi)

theorem Raises.mono (h : Raises p E) (hEF : ∀ err i, E err i → F err i) : Raises p F :=
  fun e err hrun ↦ hEF _ _ (h e err hrun)

/-- **A stream starts with at most one word**, and that word has one meaning. -/
theorem Recognises.unique (h : Recognises p P) {b₁ b₂ : β} {i₁ i₂ r₁ r₂ : List α}
    (h₁ : P b₁ i₁) (h₂ : P b₂ i₂) (heq : i₁ ++ r₁ = i₂ ++ r₂) : b₁ = b₂ ∧ i₁ = i₂ := by
  obtain ⟨e₁, hrun₁, hinp₁, -⟩ := h.complete h₁ r₁ ⟨i₁ ++ r₁, [], [], []⟩ rfl
  obtain ⟨e₂, hrun₂, hinp₂, -⟩ := h.complete h₂ r₂ ⟨i₁ ++ r₁, [], [], []⟩ heq
  rw [hrun₁, Except.ok.injEq, Prod.mk.injEq] at hrun₂
  obtain ⟨rfl, rfl⟩ := hrun₂
  rw [← hinp₁, ← hinp₂] at heq
  exact ⟨rfl, List.append_cancel_right heq⟩

/-- A stream without a word in front makes the session fail. -/
theorem Recognises.exists_error (h : Recognises p P) {e : Endpoint α}
    (hnone : ∀ b i rest, P b i → e.inp ≠ i ++ rest) : ∃ err, p.run e = .error err := by
  rcases hrun : p.run e with err | ⟨b, e'⟩
  · exact ⟨err, rfl⟩
  · obtain ⟨i, hi, hinp, -⟩ := h.sound hrun
    exact absurd hinp (hnone b i e'.inp hi)

end

/-! ## How languages are put together -/

theorem Recognises.pure (b : β) :
    Recognises (Pure.pure b : Session ε α β) fun c i ↦ c = b ∧ i = [] where
  sound hrun := by
    cases hrun
    exact ⟨[], ⟨rfl, rfl⟩, rfl, rfl⟩
  complete hi := by
    obtain ⟨rfl, rfl⟩ := hi
    exact Exchanges.pure _

theorem Recognises.throw (err : ε) :
    Recognises (throw err : Session ε α β) fun _ _ ↦ False where
  sound hrun := by cases hrun
  complete hi := hi.elim

theorem Recognises.lift (x : Except ε β) :
    Recognises (liftM x : Session ε α β) fun b i ↦ x = .ok b ∧ i = [] where
  sound hrun := by
    rcases x with err | b
    · cases hrun
    · cases hrun
      exact ⟨[], ⟨rfl, rfl⟩, rfl, rfl⟩
  complete hi := by
    obtain ⟨hx, rfl⟩ := hi
    exact .liftOk hx

/-- A check in front: what does not pass it is no word. -/
theorem Recognises.unless {c : Prop} [Decidable c] (err : ε) {p : Session ε α β}
    {P : β → List α → Prop} (h : ¬ c → Recognises p P) :
    Recognises (if c then MonadExcept.throw err else p) fun b i ↦ ¬ c ∧ P b i := by
  by_cases hc : c
  · rw [if_pos hc]
    exact (Recognises.throw err).congr fun b i ↦ by simp [hc]
  · rw [if_neg hc]
    exact (h hc).congr fun b i ↦ by simp [hc]

/-- `n` elements are any word of that length. -/
theorem Recognises.recvAll (eof : ε) (n : ℕ) :
    Recognises (Session.recvAll eof n : Session ε α { bs : List α // bs.length = n })
      fun bs i ↦ i = bs.1 where
  sound {e e' bs} hrun := by
    by_cases hn : n ≤ e.inp.length
    · obtain ⟨e'', hrun', hinp, hout⟩ := Exchanges.recvAll eof (List.length_take_of_le hn)
        (e.inp.drop n) e (List.take_append_drop n e.inp).symm
      rw [hrun', Except.ok.injEq, Prod.mk.injEq] at hrun
      obtain ⟨rfl, rfl⟩ := hrun
      refine ⟨_, rfl, ?_, by rw [hout, List.append_nil]⟩
      rw [hinp, List.take_append_drop]
    · have hfail := recvLoop_eq_error eof e.recvCuts n e.inp (by omega)
      simp only [Session.recvAll, StateT.run] at hrun
      split at hrun
      · rename_i hloop
        rw [hfail] at hloop
        cases hloop
      · cases hrun
  complete {bs i} hi := by
    subst hi
    exact Exchanges.recvAll eof bs.2

/-- **Languages are concatenated along `>>=`.** -/
theorem Recognises.bind {p : Session ε α β} {f : β → Session ε α γ} {P : β → List α → Prop}
    {Q : β → γ → List α → Prop} (hp : Recognises p P) (hf : ∀ b, Recognises (f b) (Q b)) :
    Recognises (p >>= f) fun c i ↦ ∃ b i₁ i₂, P b i₁ ∧ Q b c i₂ ∧ i = i₁ ++ i₂ where
  sound {e e₂ c} hrun := by
    rw [StateT.run_bind] at hrun
    rcases hrun₁ : p.run e with err | ⟨b, e₁⟩
    · rw [hrun₁] at hrun
      cases hrun
    · rw [hrun₁] at hrun
      obtain ⟨i₁, hi₁, hinp₁, hout₁⟩ := hp.sound hrun₁
      obtain ⟨i₂, hi₂, hinp₂, hout₂⟩ := (hf b).sound hrun
      refine ⟨i₁ ++ i₂, ⟨b, i₁, i₂, hi₁, hi₂, rfl⟩, ?_, hout₂.trans hout₁⟩
      rw [hinp₁, hinp₂, List.append_assoc]
  complete {c i} hi := by
    obtain ⟨b, i₁, i₂, hi₁, hi₂, rfl⟩ := hi
    exact (hp.complete hi₁).bind ((hf b).complete hi₂)

/-! ## How sessions fail -/

theorem Raises.pure (b : β) : Raises (Pure.pure b : Session ε α β) fun _ _ ↦ False :=
  fun _ _ hrun ↦ by cases hrun

theorem Raises.throw (err : ε) : Raises (throw err : Session ε α β) fun err' _ ↦ err' = err := by
  intro e err' hrun
  cases hrun
  rfl

theorem Raises.lift (x : Except ε β) :
    Raises (liftM x : Session ε α β) fun err _ ↦ x = .error err := by
  intro e err hrun
  rcases x with err₁ | b
  · cases hrun
    rfl
  · cases hrun

theorem Raises.unless {c : Prop} [Decidable c] (err : ε) {p : Session ε α β}
    {E : ε → List α → Prop} (h : ¬ c → Raises p E) :
    Raises (if c then MonadExcept.throw err else p)
      fun err' i ↦ (c ∧ err' = err) ∨ (¬ c ∧ E err' i) := by
  by_cases hc : c
  · rw [if_pos hc]
    exact (Raises.throw err).mono fun _ _ heq ↦ .inl ⟨hc, heq⟩
  · rw [if_neg hc]
    exact (h hc).mono fun _ _ hE ↦ .inr ⟨hc, hE⟩

/-- Receiving fails when the stream runs dry. -/
theorem Raises.recvAll (eof : ε) (n : ℕ) :
    Raises (Session.recvAll eof n : Session ε α { bs : List α // bs.length = n })
      fun err i ↦ err = eof ∧ i.length < n := by
  intro e err hrun
  by_cases hn : n ≤ e.inp.length
  · obtain ⟨e', hrun', -⟩ := Exchanges.recvAll eof (List.length_take_of_le hn) (e.inp.drop n) e
      (List.take_append_drop n e.inp).symm
    rw [hrun'] at hrun
    cases hrun
  · have hfail := recvLoop_eq_error eof e.recvCuts n e.inp (by omega)
    simp only [Session.recvAll, StateT.run] at hrun
    split at hrun
    · cases hrun
    · rename_i hloop
      rw [hfail] at hloop
      cases hloop
      cases hrun
      exact ⟨rfl, by omega⟩

/-- The first half fails, or the second does after the first has read a word. -/
theorem Raises.bind {p : Session ε α β} {f : β → Session ε α γ} {P : β → List α → Prop}
    {E : ε → List α → Prop} {F : β → ε → List α → Prop} (hp : Recognises p P) (hpE : Raises p E)
    (hf : ∀ b, Raises (f b) (F b)) :
    Raises (p >>= f) fun err inp ↦ E err inp ∨ ∃ b i rest, P b i ∧ inp = i ++ rest ∧ F b err rest := by
  intro e err hrun
  rw [StateT.run_bind] at hrun
  rcases hrun₁ : p.run e with err₁ | ⟨b, e₁⟩
  · rw [hrun₁] at hrun
    cases hrun
    exact .inl (hpE e err hrun₁)
  · rw [hrun₁] at hrun
    obtain ⟨i, hi, hinp, -⟩ := hp.sound hrun₁
    exact .inr ⟨b, i, e₁.inp, hi, hinp, hf b e₁ err hrun⟩

end Session
