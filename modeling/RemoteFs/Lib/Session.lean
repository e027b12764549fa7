import Mathlib.Data.List.Basic

/-!
# Sessions over a reliable stream

A party talks to its peer through a reliable, ordered stream, of which a system call moves a piece
of a size the party does not choose.  `Session ε α` is the monad such a party runs in: its state
is an `Endpoint`, its failures are of type `ε`, and the sizes of the pieces are read off two lists
of wishes, `recvCuts` and `sendCuts`, which stand for the environment and are quantified over.

* `Session.recvAll` and `Session.sendAll` are the two loops everybody writes: move pieces until a
  given amount has been moved.
* `Session.Exchanges p i o b` is the specification a session is judged by: `p` reads exactly `i`,
  writes exactly `o` and returns `b`, *whatever* follows `i` on the stream and *however* the two
  directions are cut.  It composes along `>>=` (`Exchanges.bind`), which is what turns the proof
  of a protocol into a proof about its messages.
* `Session.Fails p i e` is the specification of a session that gives up with `e` once it has seen
  `i`.
* `Session.converse` runs a request, a server and the reading of the reply against each other, and
  `converse_eq` says that three matching specifications leave nothing unread on either side.
-/

set_option autoImplicit false

/-- One end of a connection: what the peer has sent and this end has not read, what this end has
written, and the sizes in which the environment cuts the two directions. -/
structure Endpoint (α : Type) where
  /-- Sent by the peer, not read yet. -/
  inp : List α
  /-- Written so far. -/
  out : List α
  /-- The sizes the environment wants for the next pieces received. -/
  recvCuts : List ℕ
  /-- The sizes the environment wants for the next pieces sent. -/
  sendCuts : List ℕ

/-- A program that talks over an `Endpoint` and may fail. -/
abbrev Session (ε α β : Type) : Type := StateT (Endpoint α) (Except ε) β

namespace Session

variable {ε α β γ : Type}

/-! ## Moving data piece by piece -/

/-- The size of a piece when `still` elements are wanted and the environment asks for `c`: at
least one, at most what is wanted. -/
def piece (c still : ℕ) : ℕ := min (max c 1) still

theorem piece_pos {c still : ℕ} (h : 0 < still) : 0 < piece c still := by
  simp only [piece]; omega

theorem piece_le (c still : ℕ) : piece c still ≤ still := Nat.min_le_right _ _

/-- Receive pieces until `still` elements have come.  When the list of cuts is used up the rest
comes in one piece; a stream that has run dry is the failure `eof`. -/
def recvLoop (eof : ε) : List ℕ → ℕ → List α → Except ε (List α × List α × List ℕ)
  | cuts, 0, inp => .ok ([], inp, cuts)
  | [], still + 1, inp =>
    if still + 1 ≤ inp.length then .ok (inp.take (still + 1), inp.drop (still + 1), [])
    else .error eof
  | c :: cuts, still + 1, inp =>
    if inp = [] then .error eof
    else
      let got := piece c (min (still + 1) inp.length)
      match recvLoop eof cuts (still + 1 - got) (inp.drop got) with
      | .ok (bs, inp', cuts') => .ok (inp.take got ++ bs, inp', cuts')
      | .error e => .error e

/-- Hand pieces of `bs` to the stream until nothing is left. -/
def sendLoop : List ℕ → List α → List α → List α × List ℕ
  | cuts, [], out => (out, cuts)
  | [], b :: bs, out => (out ++ b :: bs, [])
  | c :: cuts, b :: bs, out =>
    let sent := piece c (bs.length + 1)
    sendLoop cuts ((b :: bs).drop sent) (out ++ (b :: bs).take sent)

/-- **However the stream is cut, the loop returns the first `n` elements.** -/
theorem recvLoop_eq (eof : ε) (cuts : List ℕ) (n : ℕ) (inp : List α) (h : n ≤ inp.length) :
    ∃ cuts', recvLoop eof cuts n inp = .ok (inp.take n, inp.drop n, cuts') := by
  induction cuts generalizing n inp with
  | nil =>
    cases n with
    | zero => exact ⟨[], by simp [recvLoop]⟩
    | succ n => exact ⟨[], by simp [recvLoop, h]⟩
  | cons c cuts ih =>
    cases n with
    | zero => exact ⟨c :: cuts, by simp [recvLoop]⟩
    | succ n =>
      have hne : inp ≠ [] := by rintro rfl; simp at h
      have hmin : min (n + 1) inp.length = n + 1 := Nat.min_eq_left h
      have hle : piece c (n + 1) ≤ n + 1 := piece_le c (n + 1)
      obtain ⟨cuts', hrec⟩ := ih (n + 1 - piece c (n + 1)) (inp.drop (piece c (n + 1)))
        (by rw [List.length_drop]; omega)
      refine ⟨cuts', ?_⟩
      have htake : inp.take (piece c (n + 1)) ++
          (inp.drop (piece c (n + 1))).take (n + 1 - piece c (n + 1)) = inp.take (n + 1) := by
        rw [← List.take_add]
        congr 1
        omega
      have hdrop : (inp.drop (piece c (n + 1))).drop (n + 1 - piece c (n + 1))
          = inp.drop (n + 1) := by
        rw [List.drop_drop]
        congr 1
        omega
      rw [recvLoop, if_neg hne]
      simp only [hmin, hrec, htake, hdrop]

/-- A stream that is too short starves the loop. -/
theorem recvLoop_eq_error (eof : ε) (cuts : List ℕ) (n : ℕ) (inp : List α)
    (h : inp.length < n) : recvLoop eof cuts n inp = .error eof := by
  induction cuts generalizing n inp with
  | nil =>
    cases n with
    | zero => simp at h
    | succ n => rw [recvLoop, if_neg (by omega)]
  | cons c cuts ih =>
    cases n with
    | zero => simp at h
    | succ n =>
      rw [recvLoop]
      split
      · rfl
      · rename_i hne
        have hpos : 0 < piece c (min (n + 1) inp.length) :=
          piece_pos (by have := List.length_pos_iff.mpr hne; omega)
        have hle := piece_le c (min (n + 1) inp.length)
        have hrec := ih (n + 1 - piece c (min (n + 1) inp.length))
          (inp.drop (piece c (min (n + 1) inp.length)))
          (by rw [List.length_drop]; omega)
        simp only [hrec]

/-- The loop returns as many elements as it was asked for. -/
theorem recvLoop_length {eof : ε} {cuts cuts' : List ℕ} {n : ℕ} {inp inp' bs : List α}
    (h : recvLoop eof cuts n inp = .ok (bs, inp', cuts')) : bs.length = n := by
  by_cases hn : n ≤ inp.length
  · obtain ⟨cuts'', heq⟩ := recvLoop_eq eof cuts n inp hn
    rw [heq] at h
    cases h
    exact List.length_take_of_le hn
  · rw [recvLoop_eq_error eof cuts n inp (by omega)] at h
    cases h

/-- **However the stream is cut, everything is sent, in order.** -/
theorem sendLoop_fst (cuts : List ℕ) (bs out : List α) :
    (sendLoop cuts bs out).1 = out ++ bs := by
  induction cuts generalizing bs out with
  | nil => cases bs <;> simp [sendLoop]
  | cons c cuts ih =>
    cases bs with
    | nil => simp [sendLoop]
    | cons b bs =>
      rw [sendLoop, ih, List.append_assoc, List.take_append_drop]

/-- Receive exactly `n` elements. -/
def recvAll (eof : ε) (n : ℕ) : Session ε α { bs : List α // bs.length = n } := fun e ↦
  match h : recvLoop eof e.recvCuts n e.inp with
  | .ok (bs, inp, cuts) => .ok (⟨bs, recvLoop_length h⟩, { e with inp := inp, recvCuts := cuts })
  | .error err => .error err

/-- Send all of `bs`. -/
def sendAll (bs : List α) : Session ε α Unit := fun e ↦
  let r := sendLoop e.sendCuts bs e.out
  .ok ((), { e with out := r.1, sendCuts := r.2 })

/-! ## What a session exchanges -/

/-- `p` reads exactly `i`, writes exactly `o` and returns `b`. -/
def Exchanges (p : Session ε α β) (i o : List α) (b : β) : Prop :=
  ∀ (rest : List α) (e : Endpoint α), e.inp = i ++ rest →
    ∃ e', p.run e = .ok (b, e') ∧ e'.inp = rest ∧ e'.out = e.out ++ o

/-- `p` gives up with `err` when the peer's data starts with `i`. -/
def Fails (p : Session ε α β) (i : List α) (err : ε) : Prop :=
  ∀ (rest : List α) (e : Endpoint α), e.inp = i ++ rest → p.run e = .error err

theorem Exchanges.pure (b : β) : Exchanges (Pure.pure b : Session ε α β) [] [] b := by
  intro rest e he
  exact ⟨e, rfl, by simpa using he, by simp⟩

/-- **Specifications compose**: the data read and written by `p >>= f` is what `p` and then `f`
read and write. -/
theorem Exchanges.bind {p : Session ε α β} {f : β → Session ε α γ} {i₁ o₁ i₂ o₂ : List α}
    {b : β} {c : γ} (hp : Exchanges p i₁ o₁ b) (hf : Exchanges (f b) i₂ o₂ c) :
    Exchanges (p >>= f) (i₁ ++ i₂) (o₁ ++ o₂) c := by
  intro rest e he
  obtain ⟨e₁, hrun₁, hinp₁, hout₁⟩ := hp (i₂ ++ rest) e (by rw [he, List.append_assoc])
  obtain ⟨e₂, hrun₂, hinp₂, hout₂⟩ := hf rest e₁ hinp₁
  refine ⟨e₂, ?_, hinp₂, by rw [hout₂, hout₁, List.append_assoc]⟩
  rw [StateT.run_bind, hrun₁]
  exact hrun₂

/-- `Exchanges.bind` for a first half that only writes, or does nothing. -/
theorem Exchanges.bind_nil {p : Session ε α β} {f : β → Session ε α γ} {i o₁ o₂ : List α}
    {b : β} {c : γ} (hp : Exchanges p [] o₁ b) (hf : Exchanges (f b) i o₂ c) :
    Exchanges (p >>= f) i (o₁ ++ o₂) c := by
  simpa using hp.bind hf

/-- `Exchanges.bind` for a first half that only reads. -/
theorem Exchanges.read_bind {p : Session ε α β} {f : β → Session ε α γ} {i₁ i₂ o : List α}
    {b : β} {c : γ} (hp : Exchanges p i₁ [] b) (hf : Exchanges (f b) i₂ o c) :
    Exchanges (p >>= f) (i₁ ++ i₂) o c := by
  simpa using hp.bind hf

/-- `Exchanges.bind` for a second half that does not read. -/
theorem Exchanges.read_last {p : Session ε α β} {f : β → Session ε α γ} {i o : List α}
    {b : β} {c : γ} (hp : Exchanges p i [] b) (hf : Exchanges (f b) [] o c) :
    Exchanges (p >>= f) i o c := by
  simpa using hp.bind hf

/-- A result that is only packed exchanges nothing more. -/
theorem Exchanges.bind_pure {p : Session ε α β} {i o : List α} {b : β} (hp : Exchanges p i o b)
    (f : β → γ) : Exchanges (p >>= fun b ↦ Pure.pure (f b)) i o (f b) := by
  rw [← List.append_nil i, ← List.append_nil o]
  exact hp.bind (.pure (f b))

theorem Exchanges.recvAll (eof : ε) {n : ℕ} {bs : List α} (h : bs.length = n) :
    Exchanges (Session.recvAll eof n) bs [] ⟨bs, h⟩ := by
  intro rest e he
  obtain ⟨cuts', hloop⟩ := recvLoop_eq eof e.recvCuts n e.inp (by simp [he, h])
  refine ⟨{ e with inp := rest, recvCuts := cuts' }, ?_, rfl, by simp⟩
  have htake : e.inp.take n = bs := by simp [he, ← h]
  have hdrop : e.inp.drop n = rest := by simp [he, ← h]
  rw [htake, hdrop] at hloop
  simp only [Session.recvAll, StateT.run]
  split
  · rename_i heq
    rw [hloop] at heq
    cases heq
    rfl
  · rename_i heq
    rw [hloop] at heq
    cases heq

theorem Exchanges.sendAll (bs : List α) :
    Exchanges (Session.sendAll bs : Session ε α Unit) [] bs () := by
  intro rest e he
  exact ⟨_, rfl, by simpa using he, sendLoop_fst e.sendCuts bs e.out⟩

theorem Exchanges.liftOk {x : Except ε β} {b : β} (h : x = .ok b) :
    Exchanges (liftM x : Session ε α β) [] [] b := by
  subst h
  exact Exchanges.pure b

theorem Fails.throw (err : ε) (i : List α) :
    Fails (throw err : Session ε α β) i err := fun _ _ _ ↦ rfl

theorem Fails.liftError {x : Except ε β} {err : ε} (h : x = .error err) (i : List α) :
    Fails (liftM x : Session ε α β) i err := by
  subst h
  exact Fails.throw err i

/-- What comes after a failure is not run. -/
theorem Fails.bind {p : Session ε α β} {i : List α} {err : ε} (h : Fails p i err)
    (f : β → Session ε α γ) : Fails (p >>= f) i err := by
  intro rest e he
  rw [StateT.run_bind, h rest e he]
  rfl

/-- A failure in the second half of a session, after the first half went well. -/
theorem Exchanges.bind_fails {p : Session ε α β} {f : β → Session ε α γ} {i₁ o₁ i₂ : List α}
    {b : β} {err : ε} (hp : Exchanges p i₁ o₁ b) (hf : Fails (f b) i₂ err) :
    Fails (p >>= f) (i₁ ++ i₂) err := by
  intro rest e he
  obtain ⟨e₁, hrun₁, hinp₁, -⟩ := hp (i₂ ++ rest) e (by rw [he, List.append_assoc])
  rw [StateT.run_bind, hrun₁]
  exact hf rest e₁ hinp₁

/-- A failure seen on a prefix is a failure on everything that starts with it. -/
theorem Fails.append {p : Session ε α β} {i : List α} {err : ε} (h : Fails p i err)
    (j : List α) : Fails p (i ++ j) err :=
  fun rest e he ↦ h (j ++ rest) e (by rw [he, List.append_assoc])

/-- Once `p` has read `i`, and written nothing, the rest of it is `q`. -/
def Reads (p q : Session ε α β) (i : List α) : Prop :=
  ∀ (rest : List α) (e : Endpoint α), e.inp = i ++ rest →
    ∃ e', p.run e = q.run e' ∧ e'.inp = rest ∧ e'.out = e.out

theorem Exchanges.reads {p : Session ε α β} {f : β → Session ε α γ} {i : List α} {b : β}
    (hp : Exchanges p i [] b) : Reads (p >>= f) (f b) i := by
  intro rest e he
  obtain ⟨e', hrun, hinp, hout⟩ := hp rest e he
  refine ⟨e', ?_, hinp, by rw [hout, List.append_nil]⟩
  rw [StateT.run_bind, hrun]
  rfl

theorem Reads.trans {p q r : Session ε α β} {i j : List α} (hpq : Reads p q i)
    (hqr : Reads q r j) : Reads p r (i ++ j) := by
  intro rest e he
  obtain ⟨e₁, hrun₁, hinp₁, hout₁⟩ := hpq (j ++ rest) e (by rw [he, List.append_assoc])
  obtain ⟨e₂, hrun₂, hinp₂, hout₂⟩ := hqr rest e₁ hinp₁
  exact ⟨e₂, hrun₁.trans hrun₂, hinp₂, hout₂.trans hout₁⟩

theorem Reads.exchanges {p q : Session ε α β} {i j o : List α} {b : β} (hpq : Reads p q i)
    (hq : Exchanges q j o b) : Exchanges p (i ++ j) o b := by
  intro rest e he
  obtain ⟨e₁, hrun₁, hinp₁, hout₁⟩ := hpq (j ++ rest) e (by rw [he, List.append_assoc])
  obtain ⟨e₂, hrun₂, hinp₂, hout₂⟩ := hq rest e₁ hinp₁
  exact ⟨e₂, hrun₁.trans hrun₂, hinp₂, by rw [hout₂, hout₁]⟩

theorem Reads.fails {p q : Session ε α β} {i j : List α} {err : ε} (hpq : Reads p q i)
    (hq : Fails q j err) : Fails p (i ++ j) err := by
  intro rest e he
  obtain ⟨e₁, hrun₁, hinp₁, -⟩ := hpq (j ++ rest) e (by rw [he, List.append_assoc])
  exact hrun₁.trans (hq rest e₁ hinp₁)

/-! ## Two parties -/

/-- How the environment cuts the two directions of one connection, at both ends. -/
structure Cuts where
  /-- The client's sends. -/
  clientSend : List ℕ
  /-- The server's receives. -/
  serverRecv : List ℕ
  /-- The server's sends. -/
  serverSend : List ℕ
  /-- The client's receives. -/
  clientRecv : List ℕ

/-- Run a request, the server it reaches and the reading of the reply.  The result lists what the
server and the client return, and what each of them has left unread. -/
def converse (cuts : Cuts) (request : Session ε α Unit) (server : Session ε α β)
    (reply : Session ε α γ) : Except ε (β × γ × List α × List α) := do
  let (_, sent) ← request.run ⟨[], [], [], cuts.clientSend⟩
  let (b, served) ← server.run ⟨sent.out, [], cuts.serverRecv, cuts.serverSend⟩
  let (c, read) ← reply.run ⟨served.out, [], cuts.clientRecv, []⟩
  return (b, c, served.inp, read.inp)

/-- **Three matching specifications make a conversation**, with nothing left unread. -/
theorem converse_eq (cuts : Cuts) {request : Session ε α Unit} {server : Session ε α β}
    {reply : Session ε α γ} {i o : List α} {b : β} {c : γ} (hreq : Exchanges request [] i ())
    (hsrv : Exchanges server i o b) (hrep : Exchanges reply o [] c) :
    converse cuts request server reply = .ok (b, c, [], []) := by
  obtain ⟨e₁, hrun₁, -, hout₁⟩ := hreq [] ⟨[], [], [], cuts.clientSend⟩ rfl
  obtain ⟨e₂, hrun₂, hinp₂, hout₂⟩ :=
    hsrv [] ⟨e₁.out, [], cuts.serverRecv, cuts.serverSend⟩ (by simpa using hout₁)
  obtain ⟨e₃, hrun₃, hinp₃, -⟩ :=
    hrep [] ⟨e₂.out, [], cuts.clientRecv, []⟩ (by simpa using hout₂)
  simp only [converse, hrun₁, hrun₂, hrun₃, bind, Except.bind, hinp₂, hinp₃]
  rfl

/-- A request that cannot be made is not answered. -/
theorem converse_eq_error_of_request (cuts : Cuts) {request : Session ε α Unit}
    {server : Session ε α β} {reply : Session ε α γ} {err : ε} (hreq : Fails request [] err) :
    converse cuts request server reply = .error err := by
  have hrun := hreq [] ⟨[], [], [], cuts.clientSend⟩ rfl
  simp only [converse, hrun, bind, Except.bind]

/-- When the server gives up on the request, so does the conversation. -/
theorem converse_eq_error (cuts : Cuts) {request : Session ε α Unit} {server : Session ε α β}
    {reply : Session ε α γ} {i : List α} {err : ε} (hreq : Exchanges request [] i ())
    (hsrv : Fails server i err) : converse cuts request server reply = .error err := by
  obtain ⟨e₁, hrun₁, -, hout₁⟩ := hreq [] ⟨[], [], [], cuts.clientSend⟩ rfl
  have hrun₂ := hsrv [] ⟨e₁.out, [], cuts.serverRecv, cuts.serverSend⟩ (by simpa using hout₁)
  simp only [converse, hrun₁, hrun₂, bind, Except.bind]

end Session
