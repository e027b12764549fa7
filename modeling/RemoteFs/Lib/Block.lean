import Mathlib.Algebra.Group.Int.Defs
import Mathlib.Algebra.Group.Nat.Defs
import Mathlib.Data.List.Basic

/-!
# Programs on a block of memory

A program on a block reads and writes stretches of it.  An access outside the block is a fault, and
every access is remembered, the one that faults included: an `Outcome` is the result, the block
afterwards and the log.  So "it does not look beyond the first `n` cells" is a statement about the
log (`Outcome.Stays`), also where the block itself is longer.

Parsers read one stretch behind the other, and printers write one behind the other.  There is one
predicate for each, closed under sequence.

* `Parses p i P` — from `i` on, `p` finds an `a` exactly when a word for `a` stands there, and that
  word is what it looks at.
* `Puts p i bs top` — `p` writes `bs` from `i` on, and needs the cells up to `top` to do so.
-/

set_option autoImplicit false

/-- A stretch of a block.  The length is one a program computed, and may be negative. -/
structure Access where
  off : ℕ
  len : ℤ
  deriving DecidableEq

/-- The stretch lies in the first `n` cells. -/
def Access.Inside (n : ℕ) (a : Access) : Prop := 0 ≤ a.len ∧ a.off + a.len ≤ n

instance (n : ℕ) (a : Access) : Decidable (a.Inside n) := inferInstanceAs (Decidable (_ ∧ _))

/-- What a program on a block of `β`s comes to; it faults with an `ε`. -/
structure Outcome (ε β α : Type) where
  result : Except ε α
  /-- The block afterwards. -/
  block : List β
  /-- The accesses, in order. -/
  log : List Access

/-- All accesses were to the first `n` cells. -/
def Outcome.Stays {ε β α : Type} (n : ℕ) (o : Outcome ε β α) : Prop := ∀ a ∈ o.log, a.Inside n

/-- A program on a block. -/
def OnBlock (ε β α : Type) : Type := List β → Outcome ε β α

namespace OnBlock

variable {ε β α γ : Type}

/-- One program after the other. -/
def andThen (p : OnBlock ε β α) (f : α → OnBlock ε β γ) : OnBlock ε β γ := fun b ↦
  match (p b).result with
  | .error e => ⟨.error e, (p b).block, (p b).log⟩
  | .ok a => ⟨(f a (p b).block).result, (f a (p b).block).block,
      (p b).log ++ (f a (p b).block).log⟩

/-- A result that needs no access. -/
def lift (r : Except ε α) : OnBlock ε β α := fun b ↦ ⟨r, b, []⟩

instance : Monad (OnBlock ε β) where
  pure a := lift (.ok a)
  bind := andThen

theorem length_take_drop {b : List β} {off : ℕ} {len : ℤ} (h : Access.Inside b.length ⟨off, len⟩) :
    (((b.drop off).take len.toNat).length : ℤ) = len := by
  obtain ⟨hlen, hsum⟩ := h
  simp only at hlen hsum
  rw [List.length_take, List.length_drop]
  omega

/-- Read a stretch. -/
def read (fault : ε) (off : ℕ) (len : ℤ) : OnBlock ε β { bs : List β // (bs.length : ℤ) = len } :=
  fun b ↦
    ⟨if h : Access.Inside b.length ⟨off, len⟩ then
      .ok ⟨(b.drop off).take len.toNat, length_take_drop h⟩ else .error fault,
      b, [⟨off, len⟩]⟩

/-- `b` with `bs` written over it from `off` on. -/
def splice (b : List β) (off : ℕ) (bs : List β) : List β :=
  b.take off ++ bs ++ b.drop (off + bs.length)

/-- Write the first `len` cells of `src`, which has as many, to a stretch. -/
def write (fault : ε) (off : ℕ) (len : ℤ) (src : List β) : OnBlock ε β Unit := fun b ↦
  if Access.Inside b.length ⟨off, len⟩ then
    ⟨.ok (), splice b off (src.take len.toNat), [⟨off, len⟩]⟩
  else ⟨.error fault, b, [⟨off, len⟩]⟩

/-- The block a program leaves behind when it succeeds. -/
def exec (p : OnBlock ε β Unit) (b : List β) : Except ε (List β) :=
  (p b).result.map fun _ ↦ (p b).block

/-! ## Sequences -/

section
variable {p : OnBlock ε β α} {f : α → OnBlock ε β γ} {b b' : List β} {l : List Access} {a : α}

/-- After a program that succeeds comes the next. -/
theorem bind_of_ok (h : (p b).result = .ok a) : (p >>= f) b = ⟨(f a (p b).block).result,
    (f a (p b).block).block, (p b).log ++ (f a (p b).block).log⟩ := by
  show andThen p f b = _
  simp only [andThen, h]

theorem bind_of_error {e : ε} (h : (p b).result = .error e) :
    (p >>= f) b = ⟨.error e, (p b).block, (p b).log⟩ := by
  show andThen p f b = _
  simp only [andThen, h]

/-- What succeeds in the end has succeeded in the beginning. -/
theorem result_bind_eq_ok {c : γ} : ((p >>= f) b).result = .ok c ↔
    ∃ a, (p b).result = .ok a ∧ (f a (p b).block).result = .ok c := by
  cases h : (p b).result with
  | error e =>
    rw [bind_of_error h]
    simp
  | ok a =>
    rw [bind_of_ok h]
    simp

theorem stays_bind {n : ℕ} : ((p >>= f) b).Stays n ↔
    (p b).Stays n ∧ ∀ a, (p b).result = .ok a → (f a (p b).block).Stays n := by
  cases h : (p b).result with
  | error e =>
    rw [bind_of_error h]
    simp [Outcome.Stays]
  | ok a =>
    rw [bind_of_ok h]
    simp [Outcome.Stays, or_imp, forall_and]

end

/-- The block goes from one program to the next. -/
theorem exec_bind (p q : OnBlock ε β Unit) (b : List β) :
    (p >>= fun _ ↦ q).exec b = p.exec b >>= q.exec := by
  cases h : (p b).result with
  | error e =>
    rw [exec, bind_of_error h, exec, h]
    rfl
  | ok u =>
    rw [exec, bind_of_ok h, exec, h]
    rfl

/-- What is written behind `pre` leaves `pre` alone, and what it does not reach. -/
theorem splice_append (pre b bs : List β) :
    splice (pre ++ b) pre.length bs = pre ++ (bs ++ b.drop bs.length) := by
  rw [splice, List.take_left, ← List.drop_drop, List.drop_left, List.append_assoc]

theorem stays_lift (r : Except ε α) (b : List β) (n : ℕ) : (lift r b).Stays n := by
  simp [lift, Outcome.Stays]

theorem stays_read {fault : ε} {off : ℕ} {len : ℤ} {b : List β} {n : ℕ} :
    (read fault off len b).Stays n ↔ Access.Inside n ⟨off, len⟩ := by
  simp [read, Outcome.Stays]

theorem result_read {fault : ε} {off : ℕ} {len : ℤ} {b : List β}
    (h : Access.Inside b.length ⟨off, len⟩) : (read fault off len b).result
      = .ok ⟨(b.drop off).take len.toNat, length_take_drop h⟩ :=
  dif_pos h

/-! ## Staying inside

An access outside the block is a fault, so a program that succeeds has made none. -/

/-- What succeeds has stayed in the block, and leaves it as long as it was. -/
def Contained (p : OnBlock ε β α) : Prop := ∀ b a, (p b).result = .ok a →
  (p b).Stays b.length ∧ (p b).block.length = b.length

namespace Contained

theorem lift (r : Except ε α) : Contained (OnBlock.lift r : OnBlock ε β α) :=
  fun b _ _ ↦ ⟨stays_lift r b _, rfl⟩

theorem write (fault : ε) (off : ℕ) (len : ℤ) (src : List β) :
    Contained (OnBlock.write fault off len src) := by
  intro b a h
  rw [OnBlock.write] at h ⊢
  split at h
  · rename_i hin
    rw [if_pos hin]
    refine ⟨?_, ?_⟩
    · intro x hx
      rwa [List.mem_singleton.mp hx]
    · obtain ⟨hlen, hsum⟩ := hin
      simp only at hlen hsum
      have htake := List.length_take_le len.toNat src
      simp only [splice, List.length_append, List.length_take, List.length_drop] at htake ⊢
      omega
  · cases h

theorem bind {p : OnBlock ε β α} {f : α → OnBlock ε β γ} (hp : Contained p)
    (hf : ∀ a, Contained (f a)) : Contained (p >>= f) := by
  intro b c h
  obtain ⟨a, ha, hc⟩ := result_bind_eq_ok.mp h
  obtain ⟨hstays, hblock⟩ := hp b a ha
  obtain ⟨hstays', hblock'⟩ := hf a _ c hc
  rw [hblock] at hstays' hblock'
  refine ⟨stays_bind.mpr ⟨hstays, fun a' ha' ↦ ?_⟩, ?_⟩
  · rw [ha, Except.ok.injEq] at ha'
    rwa [← ha']
  · rw [bind_of_ok ha]
    exact hblock'

end Contained

/-! ## Parsing -/

/-- From `i` on, `p` finds an `a` exactly when a word for `a` stands there, and then the word is what
it has looked at. -/
def Parses (p : OnBlock ε β α) (i : ℕ) (P : α → List β → Prop) : Prop :=
  ∀ b, i ≤ b.length → (p b).block = b ∧
    (∀ a, (p b).result = .ok a → ∃ bs, P a bs ∧ bs <+: b.drop i) ∧
    ∀ a bs, P a bs → bs <+: b.drop i →
      (p b).result = .ok a ∧ ∀ n, i ≤ n → ((p b).Stays n ↔ i + bs.length ≤ n)

namespace Parses

variable {p : OnBlock ε β α} {i : ℕ} {P : α → List β → Prop}

theorem congr {P' : α → List β → Prop} (h : Parses p i P) (hP : ∀ a bs, P a bs ↔ P' a bs) :
    Parses p i P' := by
  have heq : P = P' := by
    funext a bs
    exact propext (hP a bs)
  rwa [← heq]

theorem cast {j : ℕ} (h : Parses p i P) (hij : i = j) : Parses p j P := hij ▸ h

theorem lift (r : Except ε α) (i : ℕ) :
    Parses (OnBlock.lift r : OnBlock ε β α) i fun a bs ↦ r = .ok a ∧ bs = [] := by
  intro b hi
  refine ⟨rfl, fun a ha ↦ ⟨[], ⟨ha, rfl⟩, List.nil_prefix⟩, ?_⟩
  rintro a bs ⟨ha, rfl⟩ -
  exact ⟨ha, fun n hn ↦ ⟨fun _ ↦ hn, fun _ ↦ stays_lift r b n⟩⟩

theorem pure (a : α) (i : ℕ) :
    Parses (Pure.pure a : OnBlock ε β α) i fun c bs ↦ c = a ∧ bs = [] :=
  (lift (.ok a) i).congr fun c bs ↦ by rw [Except.ok.injEq, eq_comm]

theorem read (fault : ε) (i : ℕ) (len : ℤ) :
    Parses (OnBlock.read fault i len : OnBlock ε β _) i fun a bs ↦ bs = a.1 := by
  intro b hi
  refine ⟨rfl, fun a ha ↦ ⟨a.1, rfl, ?_⟩, ?_⟩
  · simp only [OnBlock.read] at ha
    split at ha
    · cases ha
      exact List.take_prefix _ _
    · cases ha
  · rintro ⟨bs, hlen⟩ bs' (rfl : bs' = bs) hpre
    have hle := hpre.length_le
    rw [List.length_drop] at hle
    have hin : Access.Inside b.length ⟨i, len⟩ := ⟨by simp only; omega, by simp only; omega⟩
    have htake : (b.drop i).take len.toNat = bs' := by
      rw [← hlen, Int.toNat_natCast]
      exact (List.prefix_iff_eq_take.mp hpre).symm
    refine ⟨?_, fun n _ ↦ ?_⟩
    · simp only [OnBlock.read, dif_pos hin, htake]
    · rw [stays_read, Access.Inside]
      simp only
      omega

/-- **One word behind the other.** -/
theorem bind {f : α → OnBlock ε β γ} {Q : α → γ → List β → Prop} (hp : Parses p i P)
    (hf : ∀ a xs, P a xs → Parses (f a) (i + xs.length) (Q a)) :
    Parses (p >>= f) i fun c bs ↦ ∃ a xs ys, bs = xs ++ ys ∧ P a xs ∧ Q a c ys := by
  intro b hi
  obtain ⟨hblock, hsound, hcomplete⟩ := hp b hi
  -- a word that stands at `i` leaves room for the next index
  have hnext {xs : List β} (hpre : xs <+: b.drop i) : i + xs.length ≤ b.length := by
    have := hpre.length_le
    rw [List.length_drop] at this
    omega
  refine ⟨?_, fun c hc ↦ ?_, ?_⟩
  · cases hres : (p b).result with
    | error e =>
      rw [bind_of_error hres]
      exact hblock
    | ok a =>
      obtain ⟨xs, hxs, hpre⟩ := hsound a hres
      rw [bind_of_ok hres, hblock]
      exact (hf a xs hxs b (hnext hpre)).1
  · obtain ⟨a, hres, hc⟩ := result_bind_eq_ok.mp hc
    obtain ⟨xs, hxs, hpre⟩ := hsound a hres
    rw [hblock] at hc
    obtain ⟨ys, hys, hpre'⟩ := (hf a xs hxs b (hnext hpre)).2.1 c hc
    refine ⟨xs ++ ys, ⟨a, xs, ys, rfl, hxs, hys⟩, ?_⟩
    obtain ⟨rest, hrest⟩ := hpre
    rw [← List.drop_drop, ← hrest, List.drop_left] at hpre'
    rw [← hrest]
    exact List.prefix_append_right_inj xs |>.mpr hpre'
  · rintro c _ ⟨a, xs, ys, rfl, hxs, hys⟩ hpre
    have hprex : xs <+: b.drop i := (List.prefix_append xs ys).trans hpre
    obtain ⟨hres, hstays⟩ := hcomplete a xs hxs hprex
    have hprey : ys <+: b.drop (i + xs.length) := by
      obtain ⟨rest, hrest⟩ := hprex
      rw [← hrest] at hpre
      rw [← List.drop_drop, ← hrest, List.drop_left]
      exact List.prefix_append_right_inj xs |>.mp hpre
    obtain ⟨hres', hstays'⟩ := (hf a xs hxs b (hnext hprex)).2.2 c ys hys hprey
    refine ⟨?_, fun n hn ↦ ?_⟩
    · rw [bind_of_ok hres, hblock]
      exact hres'
    · rw [stays_bind, hstays n hn, hblock, List.length_append]
      constructor
      · rintro ⟨hx, hy⟩
        have := (hstays' n hx).mp (hy a hres)
        omega
      · intro hle
        refine ⟨by omega, fun a' hres'' ↦ ?_⟩
        rw [hres] at hres''
        cases hres''
        exact (hstays' n (by omega)).mpr (by omega)

end Parses

/-! ## Printing -/

/-- `p` writes `bs` from `i` on, behind what stands there, and stays in a block that has the cells up to
`top`, and in no other. -/
def Puts (p : OnBlock ε β Unit) (i : ℕ) (bs : List β) (top : ℕ) : Prop :=
  i + bs.length ≤ top ∧ ∀ b pre, pre <+: b → pre.length = i →
    ((p b).Stays b.length ↔ top ≤ b.length) ∧ (top ≤ b.length →
      (p b).result = .ok () ∧ pre ++ bs <+: (p b).block ∧ (p b).block.length = b.length)

namespace Puts

variable {p q : OnBlock ε β Unit} {i top : ℕ} {bs cs : List β}

theorem pure (i : ℕ) : Puts (Pure.pure () : OnBlock ε β Unit) i [] i := by
  refine ⟨by simp, fun b pre hpre hlen ↦ ?_⟩
  have hle := hpre.length_le
  refine ⟨⟨fun _ ↦ by omega, fun _ ↦ stays_lift _ b _⟩, fun _ ↦ ⟨rfl, ?_, rfl⟩⟩
  rwa [List.append_nil]

theorem cast {j : ℕ} (h : Puts p i bs top) (hij : i = j) : Puts p j bs top := hij ▸ h

theorem congr {top' : ℕ} (h : Puts p i bs top) (hbs : bs = cs) (htop : top = top') :
    Puts p i cs top' := hbs ▸ htop ▸ h

/-- What is written at the end may be left out of the account: something else will be put there. -/
theorem of_append (h : Puts p i (bs ++ cs) top) : Puts p i bs top := by
  obtain ⟨htop, h⟩ := h
  rw [List.length_append] at htop
  refine ⟨by omega, fun b pre hpre hlen ↦ ?_⟩
  obtain ⟨hstays, hok⟩ := h b pre hpre hlen
  refine ⟨hstays, fun hle ↦ ?_⟩
  obtain ⟨hres, hbytes, hblock⟩ := hok hle
  rw [← List.append_assoc] at hbytes
  exact ⟨hres, (List.prefix_append _ _).trans hbytes, hblock⟩

theorem write (fault : ε) (i : ℕ) {len : ℤ} {src : List β} (hlen : 0 ≤ len)
    (hsrc : len ≤ src.length) :
    Puts (OnBlock.write fault i len src) i (src.take len.toNat) (i + len.toNat) := by
  have htake : (src.take len.toNat).length = len.toNat := List.length_take_of_le (by omega)
  refine ⟨by omega, ?_⟩
  rintro _ pre ⟨rest, rfl⟩ rfl
  by_cases hin : Access.Inside (pre ++ rest).length ⟨pre.length, len⟩
  · have hle : pre.length + len.toNat ≤ (pre ++ rest).length := by
      have := hin.2
      simp only at this
      omega
    rw [OnBlock.write, if_pos hin, splice, List.take_left, htake]
    refine ⟨⟨fun _ ↦ hle, fun _ ↦ ?_⟩, fun _ ↦ ⟨rfl, List.prefix_append _ _, ?_⟩⟩
    · intro a ha
      rw [List.mem_singleton] at ha
      rwa [ha]
    · simp only [List.length_append, List.length_drop, htake] at hle ⊢
      omega
  · have hle : ¬ pre.length + len.toNat ≤ (pre ++ rest).length := fun h ↦
      hin ⟨hlen, by simp only; omega⟩
    rw [OnBlock.write, if_neg hin]
    refine ⟨⟨fun h ↦ ?_, fun h ↦ absurd h hle⟩, fun h ↦ absurd h hle⟩
    exact absurd (h _ (List.mem_singleton_self _)) hin

/-- **One behind the other.** -/
theorem bind {top' : ℕ} (hp : Puts p i bs top) (hq : Puts q (i + bs.length) cs top') :
    Puts (p >>= fun _ ↦ q) i (bs ++ cs) (max top top') := by
  obtain ⟨htop, hp⟩ := hp
  obtain ⟨htop', hq⟩ := hq
  refine ⟨by rw [List.length_append]; omega, fun b pre hpre hlen ↦ ?_⟩
  obtain ⟨hstays, hok⟩ := hp b pre hpre hlen
  by_cases hle : top ≤ b.length
  · obtain ⟨hres, hbytes, hblock⟩ := hok hle
    obtain ⟨hstays', hok'⟩ := hq (p b).block (pre ++ bs) hbytes (by rw [List.length_append, hlen])
    rw [stays_bind, bind_of_ok hres]
    rw [hblock] at hstays' hok'
    refine ⟨⟨fun h ↦ ?_, fun h ↦ ⟨hstays.mpr hle, fun _ _ ↦ hstays'.mpr (by omega)⟩⟩,
      fun h ↦ ?_⟩
    · have := hstays'.mp (h.2 () hres)
      omega
    · rw [← List.append_assoc]
      exact hok' (by omega)
  · refine ⟨⟨fun h ↦ ?_, fun h ↦ by omega⟩, fun h ↦ by omega⟩
    rw [stays_bind] at h
    exact absurd (hstays.mp h.1) hle

theorem exec_eq_ok (h : Puts p 0 bs top) {b : List β} (hle : top ≤ b.length) :
    ∃ b', p.exec b = .ok b' ∧ bs <+: b' ∧ b'.length = b.length := by
  obtain ⟨hres, hbytes, hblock⟩ := (h.2 b [] List.nil_prefix rfl).2 hle
  refine ⟨(p b).block, ?_, hbytes, hblock⟩
  rw [exec, hres]
  rfl

/-- What fills the block is all there is in it afterwards. -/
theorem fills (h : Puts p 0 bs top) (hbs : bs.length = top) {b : List β} (hb : b.length = top) :
    (p b).result = .ok () ∧ (p b).block = bs ∧ (p b).Stays top := by
  obtain ⟨hstays, hok⟩ := h.2 b [] List.nil_prefix rfl
  obtain ⟨hres, hbytes, hlen⟩ := hok (Nat.le_of_eq hb.symm)
  refine ⟨hres, (hbytes.eq_of_length ?_).symm, hb ▸ hstays.mpr (Nat.le_of_eq hb.symm)⟩
  rw [hlen, hb]
  exact hbs

theorem stays_iff (h : Puts p 0 bs top) {b : List β} : (p b).Stays b.length ↔ top ≤ b.length :=
  (h.2 b [] List.nil_prefix rfl).1

end Puts

end OnBlock
