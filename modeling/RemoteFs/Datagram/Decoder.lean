import RemoteFs.Datagram.Transparency

/-!
# Datagrams nobody has checked

`launch_server` takes the count, the length of the name and every size out of the datagram and believes
them.  It never compares an index with the length `recvfrom` returned, and it never refuses a request.
So it stays inside a datagram exactly when the datagram begins with a complete request
(`decoded_inside_iff`).  When it does not, the missing bytes are those that earlier datagrams have left
in the buffer, or lie outside of it, and there is no one request that the datagram stands for
(`decoded_independent_iff`).

A `Launched` server has started with anything in its buffer, and has gone through any datagrams.
-/

set_option autoImplicit false

namespace RemoteFs.Datagram

open OnBlock

variable {σ : Type}

/-! ## The server at a datagram -/

/-- A datagram of `1` to `4096` bytes. -/
abbrev Incoming : Type := { d : Bytes // 0 < d.length ∧ d.length ≤ bufSize }

/-- The states `launch_server` comes to, when the globals of the procedures are `s` at the start. -/
inductive Launched (functionList : List (Node σ)) (s : σ) : Server σ → Prop where
  | start (buf : Buf) : Launched functionList s ⟨functionList, buf, .null, s⟩
  | step {srv srv' : Server σ} {m : ServerMem} {d : Bytes} {o : Option (Request × Bytes)}
      (launched : Launched functionList s srv) (step : srv.step m d = .ok (o, srv')) :
      Launched functionList s srv'

/-- **No argument of one request is left for the next.** -/
theorem Launched.args_eq {functionList : List (Node σ)} {s : σ} {srv : Server σ}
    (h : Launched functionList s srv) : srv.args = .null := by
  induction h with
  | start buf => rfl
  | step _ hstep ih => exact args_step hstep ih

/-- No procedure is registered while the server runs. -/
theorem functionList_of_step {m : ServerMem} {d : Bytes} {srv srv' : Server σ}
    {o : Option (Request × Bytes)} (h : srv.step m d = .ok (o, srv')) :
    srv'.functionList = srv.functionList := by
  cases d with
  | nil =>
    cases h
    rfl
  | cons b d =>
    obtain ⟨r, -, h⟩ := bind_eq_ok.mp h
    obtain ⟨⟨reply, s'⟩, -, h⟩ := bind_eq_ok.mp h
    cases h
    rfl

theorem Launched.functionList_eq {functionList : List (Node σ)} {s : σ} {srv : Server σ}
    (h : Launched functionList s srv) : srv.functionList = functionList := by
  induction h with
  | start => rfl
  | step _ hstep ih => exact (functionList_of_step hstep).trans ih

/-- The server taking a datagram apart. -/
def Server.decoded (srv : Server σ) (d : Bytes) : Outcome Fault UInt8 Request :=
  decode srv.args (recvfrom srv.buf d).1

theorem Launched.result_decoded {functionList : List (Node σ)} {s : σ} {srv : Server σ}
    (h : Launched functionList s srv) {d : Bytes} {r : Request} :
    (srv.decoded d).result = .ok r ↔ r.Complete ∧ r.encode <+: (recvfrom srv.buf d).1 := by
  obtain ⟨-, hsound, hcomplete⟩ := parses_decode (recvfrom srv.buf d).1 (Nat.zero_le _)
  rw [Server.decoded, h.args_eq]
  constructor
  · intro hr
    obtain ⟨_, ⟨hr, rfl⟩, hpre⟩ := hsound r hr
    exact ⟨hr, hpre⟩
  · rintro ⟨hr, hpre⟩
    exact (hcomplete r _ ⟨hr, rfl⟩ hpre).1

theorem Launched.stays_decoded {functionList : List (Node σ)} {s : σ} {srv : Server σ}
    (h : Launched functionList s srv) {d : Bytes} {r : Request}
    (hr : (srv.decoded d).result = .ok r) (n : ℕ) :
    (srv.decoded d).Stays n ↔ r.encode.length ≤ n := by
  obtain ⟨hcomplete, hpre⟩ := h.result_decoded.mp hr
  have hstays := ((parses_decode (recvfrom srv.buf d).1 (Nat.zero_le _)).2.2 r _ ⟨hcomplete, rfl⟩
    hpre).2 n (Nat.zero_le _)
  rwa [Nat.zero_add, ← h.args_eq] at hstays

/-- A request that has been taken out of a datagram is answered. -/
theorem step_of_decoded {srv : Server σ} {d : Bytes} {r : Request} (hd : d ≠ [])
    (hr : (srv.decoded d).result = .ok r) (m : ServerMem) :
    srv.step m d = answer srv.functionList m r srv.state >>= fun (reply, s') ↦
      pure (some (r, reply), { srv with buf := recvfrom srv.buf d, args := .null, state := s' }) := by
  cases d with
  | nil => exact absurd rfl hd
  | cons b d =>
    show ((srv.decoded (b :: d)).result >>= fun r ↦ answer srv.functionList m r srv.state >>= _) = _
    rw [hr, ok_bind]

/-- A request that stands at the front of the buffer and is not longer than the datagram stands in the
datagram. -/
theorem prefix_recvfrom_iff (buf : Buf) {d bs : Bytes} (hd : d.length ≤ bufSize) :
    bs <+: (recvfrom buf d).1 ∧ bs.length ≤ d.length ↔ bs <+: d := by
  rw [recvfrom_of_le buf hd]
  constructor
  · rintro ⟨hpre, hlen⟩
    exact List.prefix_of_prefix_length_le hpre (List.prefix_append _ _) hlen
  · intro hpre
    exact ⟨hpre.trans (List.prefix_append _ _), hpre.length_le⟩

/-! ## Inside the datagram -/

/-- **When the decoder stays inside the datagram.**  It looks at no byte behind the datagram, allocates
and copies no negative size, and ends with an argument for each one announced, exactly when the
datagram begins with a complete request.  There is no other way to be right: a request is never
refused. -/
theorem decoded_inside_iff {functionList : List (Node σ)} {s : σ} {srv : Server σ}
    (h : Launched functionList s srv) (d : Incoming) :
    ((srv.decoded d.1).Stays d.1.length ∧
      ∃ r, (srv.decoded d.1).result = .ok r ∧ r.args.length = r.nparams.toInt.toNat) ↔
    ∃ r : Request, r.Complete ∧ r.encode <+: d.1 := by
  have hd := d.2.2
  constructor
  · rintro ⟨hstays, r, hr, -⟩
    obtain ⟨hcomplete, hpre⟩ := h.result_decoded.mp hr
    rw [h.stays_decoded hr] at hstays
    exact ⟨r, hcomplete, (prefix_recvfrom_iff srv.buf hd).mp ⟨hpre, hstays⟩⟩
  · rintro ⟨r, hcomplete, hpre⟩
    obtain ⟨hbuf, hlen⟩ := (prefix_recvfrom_iff srv.buf hd).mpr hpre
    have hr := h.result_decoded.mpr ⟨hcomplete, hbuf⟩
    exact ⟨(h.stays_decoded hr _).mpr hlen, r, hr, hcomplete.1⟩

/-- A server without procedures, before its first datagram. -/
def freshServer (b : UInt8) : Server Unit := ⟨[], .fill b, .null, ()⟩

theorem launched_freshServer (b : UInt8) : Launched [] () (freshServer b) := .start (.fill b)

/-- The procedure `f` with one argument, of two bytes, and one byte behind it. -/
def completed : Bytes :=
  Request.encode ⟨1, [102], [⟨[3, 4], 2, rfl⟩]⟩ ++ [9]

/-- The byte behind the request is not looked at. -/
theorem decoded_inside_of_completed :
    ((freshServer 7).decoded completed).Stays completed.length ∧
      ∃ r, ((freshServer 7).decoded completed).result = .ok r ∧
        r.args.length = r.nparams.toInt.toNat := by
  have hd : 0 < completed.length ∧ completed.length ≤ bufSize := by decide
  have hcomplete : Request.Complete ⟨1, [102], [⟨[3, 4], 2, rfl⟩]⟩ := ⟨rfl, by decide⟩
  exact (decoded_inside_iff (launched_freshServer 7) ⟨completed, hd⟩).mpr
    ⟨_, hcomplete, List.prefix_append _ _⟩

/-- A datagram of one byte: the first read is four bytes long. -/
theorem decoded_outside :
    ¬ ∀ (srv : Server Unit) (d : Incoming), Launched [] () srv →
      (srv.decoded d.1).Stays d.1.length ∧
        ∃ r, (srv.decoded d.1).result = .ok r ∧ r.args.length = r.nparams.toInt.toNat := by
  intro h
  have hstays := (h (freshServer 0) ⟨[0], by decide⟩ (launched_freshServer 0)).1
  rw [Server.decoded, decode, readInt, stays_bind, stays_bind, stays_read] at hstays
  exact absurd hstays.1.1 (by decide)

/-! ## Whatever came before -/

/-- A server takes a datagram that begins with a request for that request. -/
theorem Launched.decoded_of_front {functionList : List (Node σ)} {s : σ} {srv : Server σ}
    (h : Launched functionList s srv) (d : Incoming) {r : Request} (hr : r.Complete)
    (hpre : r.encode <+: d.1) : (srv.decoded d.1).result = .ok r :=
  h.result_decoded.mpr ⟨hr, ((prefix_recvfrom_iff srv.buf d.2.2).mpr hpre).1⟩

/-- A request that is sent on its own is decoded. -/
theorem Launched.decoded_encode {functionList : List (Node σ)} {s : σ} {srv : Server σ}
    (h : Launched functionList s srv) {r : Request} (hr : r.Complete)
    (hlen : r.encode.length ≤ bufSize) : (srv.decoded r.encode).result = .ok r := by
  have hpos : 0 < r.encode.length := by
    rw [Request.encode, List.length_append, length_intBytes]
    omega
  exact h.decoded_of_front ⟨r.encode, hpos, hlen⟩ hr List.prefix_rfl

/-- A word that a buffer full of one byte and a buffer full of another both let stand is in the
datagram. -/
theorem prefix_of_two {d bs : Bytes} {b b' : UInt8} (hb : b ≠ b') (hd : d.length ≤ bufSize)
    (h : bs <+: (recvfrom (.fill b) d).1) (h' : bs <+: (recvfrom (.fill b') d).1) : bs <+: d := by
  have hfront (c : UInt8) : d <+: (recvfrom (.fill c) d).1 := by
    rw [recvfrom_of_le _ hd]
    exact List.prefix_append _ _
  rcases List.prefix_or_prefix_of_prefix h (hfront b) with hle | hle
  · exact hle
  obtain ⟨rest, rfl⟩ := hle
  rw [recvfrom_of_le _ hd, List.prefix_append_right_inj] at h h'
  have hall {c : UInt8} (hc : rest <+: (Buf.fill c).1.drop d.length) : ∀ x ∈ rest, x = c :=
    fun _ hx ↦ List.eq_of_mem_replicate (List.mem_of_mem_drop (hc.subset hx))
  match rest, hall h, hall h' with
  | [], _, _ => exact ⟨[], by rw [List.append_nil, List.append_nil]⟩
  | x :: rest, hx, hx' =>
    have hxb := hx x (List.mem_cons_self ..)
    have hxb' := hx' x (List.mem_cons_self ..)
    exact absurd (hxb.symm.trans hxb') hb

/-- **When a request does not depend on earlier ones.**  There is one request for which every server
takes the datagram, whatever it has received before, exactly when the datagram begins with a complete
request.  A server that looks for a byte outside its buffer takes it for no request. -/
theorem decoded_independent_iff (functionList : List (Node σ)) (s : σ) (d : Incoming) :
    (∃ r, ∀ srv : Server σ, Launched functionList s srv → (srv.decoded d.1).result = .ok r) ↔
    ∃ r : Request, r.Complete ∧ r.encode <+: d.1 := by
  constructor
  · rintro ⟨r, hall⟩
    -- the request is read by two servers that have nothing in common behind the datagram
    have hfill (b : UInt8) : r.Complete ∧ r.encode <+: (recvfrom (.fill b) d.1).1 := by
      have hstart : Launched functionList s ⟨functionList, .fill b, .null, s⟩ := .start (.fill b)
      exact hstart.result_decoded.mp (hall _ hstart)
    have hne : (0 : UInt8) ≠ 1 := by decide
    exact ⟨r, (hfill 0).1, prefix_of_two hne d.2.2 (hfill 0).2 (hfill 1).2⟩
  · rintro ⟨r, hr, hpre⟩
    exact ⟨r, fun srv hsrv ↦ hsrv.decoded_of_front d hr hpre⟩

/-- One argument of one byte for the procedure `f`, all but the byte. -/
def truncated : Bytes := intBytes 1 ++ (leBytes 8 1 ++ ([102] ++ intBytes 1))

/-- The byte is the one an earlier datagram has left in the buffer. -/
theorem decoded_truncated (b : UInt8) :
    ((freshServer b).decoded truncated).result = .ok ⟨1, [102], [⟨[b], 1, rfl⟩]⟩ := by
  refine (launched_freshServer b).result_decoded.mpr
    ⟨⟨rfl, (by decide : 1 < 2 ^ (8 * 8))⟩, ?_⟩
  have hlen : truncated.length ≤ bufSize := by decide
  have hdrop : (Buf.fill b).1.drop truncated.length = List.replicate (4078 + 1) b :=
    List.drop_replicate
  have hrest : [b] <+: (Buf.fill b).1.drop truncated.length := by
    rw [hdrop, List.replicate_succ]
    exact ⟨List.replicate 4078 b, rfl⟩
  rw [show (freshServer b).buf = Buf.fill b from rfl, recvfrom_of_le _ hlen]
  exact (List.prefix_append_right_inj truncated).mpr hrest

/-- Two servers that differ in what they have received call `f` with different arguments. -/
theorem decoded_dependent :
    ∃ srv srv' : Server Unit, Launched [] () srv ∧ Launched [] () srv' ∧
      ∃ r r', (srv.decoded truncated).result = .ok r ∧ (srv'.decoded truncated).result = .ok r' ∧
        r ≠ r' :=
  ⟨freshServer 0, freshServer 1, launched_freshServer 0, launched_freshServer 1, _, _,
    decoded_truncated 0, decoded_truncated 1, by simp⟩

end RemoteFs.Datagram
