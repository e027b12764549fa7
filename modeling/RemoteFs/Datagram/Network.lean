import RemoteFs.Datagram.Unknown
import RemoteFs.Lib.Channel

/-!
# Calls over a network

The stubs of the first assignment have nothing to hold a datagram by: no number in a call that the reply
would repeat, no timer, no second try.  Here any number of clients call one server at the same time, over
channels that lose, double and reorder what is sent (`Transit`), while anybody else sends the server
whatever they like.  A client opens a socket for each call and waits at it, so what a reply is taken for
depends on the address it goes to.

* `returned_own_result`: a client that returns, returns what the registered procedure made of its own
  arguments, in a run of the procedure between the call and the return, on the globals as all runs before
  it have left them.  This needs that every call is of a registered procedure, and that an address is not
  used again while datagrams of an earlier call are still under way.
* `other_result_returned`: without that, a client returns the result of a call that somebody else has
  made.

Only the server sends to the clients' addresses.
-/

set_option autoImplicit false

namespace RemoteFs.Datagram

open OnBlock

variable {σ : Type}

/-! ## The system -/

/-- The address of a client's socket. -/
abbrev Addr : Type := ℕ

/-- A datagram, with the client's address it comes from or goes to. -/
abbrev Packet : Type := Addr × Bytes

/-- The server, the calls that wait for a reply, and the datagrams under way in both directions. -/
structure Net (σ : Type) where
  server : Server σ
  waiting : Addr → Option Call
  requests : Multiset Packet
  replies : Multiset Packet

/-- What happens in the system. -/
inductive NetEvent where
  /-- A client opens a socket and sends a call. -/
  | called (p : Packet) (x : Call)
  /-- Somebody else sends something to the server. -/
  | stray (p : Packet)
  /-- A datagram reaches the server: the request and the reply, unless it was empty. -/
  | served (p : Packet) (o : Option (Request × Bytes))
  /-- A reply reaches the socket of a call, which returns. -/
  | returned (p : Packet) (x : Call) (ret : ReturnType)
  /-- The network does something to a request. -/
  | request (t : Transit Packet)
  /-- The network does something to a reply. -/
  | reply (t : Transit Packet)

/-- The datagrams that go back to an address. -/
def repliesTo (a : Addr) (o : Option (Request × Bytes)) : Multiset Packet :=
  (o.map fun x ↦ (a, x.2)).toList

/-- The system takes a step.  What the buffers on the stacks hold is different each time. -/
inductive Net.Step : Net σ → NetEvent → Net σ → Prop
  | call {N : Net σ} {a : Addr} {x : Call} {c : ClientMem} {d : Bytes} (free : N.waiting a = none)
    (put : (putCall x.procedureName x.nparams (x.params.map Subtype.val)).exec c.buf.1 = .ok d) :
    Step N (.called (a, d) x)
      { N with waiting := Function.update N.waiting a (some x), requests := (a, d) ::ₘ N.requests }
  | stray {N : Net σ} {a : Addr} (d : Bytes) (foreign : N.waiting a = none) :
    Step N (.stray (a, d)) { N with requests := (a, d) ::ₘ N.requests }
  | serve {N : Net σ} {a : Addr} {d : Bytes} {m : ServerMem} {o : Option (Request × Bytes)}
    {srv : Server σ} {rest : Multiset Packet} (arrives : N.requests = (a, d) ::ₘ rest)
    (step : N.server.step m d = .ok (o, srv)) :
    Step N (.served (a, d) o)
      { N with server := srv, requests := rest, replies := repliesTo a o + N.replies }
  | return_ {N : Net σ} {a : Addr} {t : Bytes} {x : Call} {c : ClientMem} {ret : ReturnType}
    {rest : Multiset Packet} (arrives : N.replies = (a, t) ::ₘ rest) (waits : N.waiting a = some x)
    (take : (takeResult (recvfrom c.read t).1).result = .ok ret) :
    Step N (.returned (a, t) x ret)
      { N with waiting := Function.update N.waiting a none, replies := rest }
  | request {N : Net σ} {t : Transit Packet} {s : Multiset Packet} (fault : t.IsFault)
    (step : Transit.Step N.requests t s) : Step N (.request t) { N with requests := s }
  | reply {N : Net σ} {t : Transit Packet} {s : Multiset Packet} (fault : t.IsFault)
    (step : Transit.Step N.replies t s) : Step N (.reply t) { N with replies := s }

/-- Before the first call. -/
def Net.start (srv : Server σ) : Net σ := ⟨srv, fun _ ↦ none, 0, 0⟩

/-- The address whose socket is opened or closed. -/
def NetEvent.socket? : NetEvent → Option Addr
  | .called p _ | .returned p _ _ => some p.1
  | _ => none

/-- A call is made of a registered procedure, from an address for which nothing is under way. -/
def Orderly (regs : List (Registration σ)) (_ : List NetEvent) (N : Net σ) : NetEvent → Prop
  | .called p x => (∀ q ∈ N.requests, q.1 ≠ p.1) ∧ (∀ q ∈ N.replies, q.1 ≠ p.1) ∧
      (mostRecent regs x.procedureName).isSome
  | _ => True

/-! ## What the server has done -/

/-- The procedure that was registered last under the name of a request is run on its arguments. -/
def Executes (regs : List (Registration σ)) (r : Request) (s : σ) (ret : ReturnType) (s' : σ) : Prop :=
  ∃ fp, mostRecent regs (CString.upTo r.funcName) = some fp ∧ fp r.nparams r.args s = .ok (ret, s')

/-- The globals after a history: what the requests that were served have made of them, each run on what
the one before it has left. -/
inductive Globals (regs : List (Registration σ)) (s₀ : σ) : List NetEvent → σ → Prop
  | start : Globals regs s₀ [] s₀
  | executed {es : List NetEvent} {s s' : σ} {p : Packet} {r : Request} {t : Bytes} {ret : ReturnType}
    (before : Globals regs s₀ es s) (run : Executes regs r s ret s') :
    Globals regs s₀ (.served p (some (r, t)) :: es) s'
  | other {es : List NetEvent} {s : σ} {e : NetEvent} (before : Globals regs s₀ es s)
    (idle : ∀ p r t, e = .served p (some (r, t)) →
      mostRecent regs (CString.upTo r.funcName) = none) :
    Globals regs s₀ (e :: es) s

/-- The call was sent in the datagram, and its socket has been open since. -/
def OpenCall (es : List NetEvent) (a : Addr) (x : Call) (d : Bytes) : Prop :=
  ∃ between before, es = between ++ .called (a, d) x :: before ∧
    ∀ e ∈ between, e.socket? ≠ some a

/-- While the call was open its datagram was served and the registered procedure run on its arguments;
`t` is the reply that was sent with the result. -/
def Answered (regs : List (Registration σ)) (s₀ : σ) (es : List NetEvent) (a : Addr) (x : Call)
    (t : Bytes) (ret : ReturnType) : Prop :=
  ∃ after before d s s', es = after ++ .served (a, d) (some (x.request, t)) :: before ∧
    (∀ e ∈ after, e.socket? ≠ some a) ∧ OpenCall before a x d ∧
    Globals regs s₀ before s ∧ Executes regs x.request s ret s'

section
variable {regs : List (Registration σ)} {s₀ : σ} {es : List NetEvent} {a : Addr} {x : Call}
  {d t : Bytes} {ret : ReturnType} {e : NetEvent}

theorem OpenCall.cons (h : OpenCall es a x d) (he : e.socket? ≠ some a) :
    OpenCall (e :: es) a x d := by
  obtain ⟨between, before, rfl, hopen⟩ := h
  exact ⟨e :: between, before, rfl, List.forall_mem_cons.mpr ⟨he, hopen⟩⟩

theorem Answered.cons (h : Answered regs s₀ es a x t ret) (he : e.socket? ≠ some a) :
    Answered regs s₀ (e :: es) a x t ret := by
  obtain ⟨after, before, d, s, s', rfl, hopen, h⟩ := h
  exact ⟨e :: after, before, d, s, s', rfl, List.forall_mem_cons.mpr ⟨he, hopen⟩, h⟩

end

/-! ## One step of the server -/

/-- **What the server does with a datagram.**  An empty one is passed over.  Any other is taken for a
request, and the procedure registered last under its name is run, if there is one. -/
theorem step_cases {regs : List (Registration σ)} {s₀ : σ} {srv srv' : Server σ}
    (h : Launched (registerAll regs) s₀ srv) {m : ServerMem} {d : Bytes}
    {o : Option (Request × Bytes)} (hstep : srv.step m d = .ok (o, srv')) :
    (o = none ∧ srv'.state = srv.state) ∨
    ∃ r t, o = some (r, t) ∧ (srv.decoded d).result = .ok r ∧
      ((∃ ret, Executes regs r srv.state ret srv'.state ∧ reply m (some ret) = .ok t) ∨
        (mostRecent regs (CString.upTo r.funcName) = none ∧ srv'.state = srv.state)) := by
  rcases d with _ | ⟨b, d⟩
  · cases hstep
    exact .inl ⟨rfl, rfl⟩
  · right
    obtain ⟨r, hr, hstep⟩ := bind_eq_ok.mp hstep
    obtain ⟨⟨t, s'⟩, hanswer, hstep⟩ := bind_eq_ok.mp hstep
    cases hstep
    refine ⟨r, t, rfl, hr, ?_⟩
    have hfind := find_registerAll regs (CString.upTo r.funcName)
    rw [answer, h.functionList_eq] at hanswer
    cases hn : find (registerAll regs) (CString.upTo r.funcName) with
    | none =>
      rw [hn] at hfind hanswer
      obtain ⟨_, -, hanswer⟩ := bind_eq_ok.mp hanswer
      cases hanswer
      exact .inr ⟨hfind.symm, rfl⟩
    | some n =>
      rw [hn] at hfind hanswer
      obtain ⟨⟨ret, s''⟩, hrun, hanswer⟩ := bind_eq_ok.mp hanswer
      obtain ⟨t', ht, hanswer⟩ := bind_eq_ok.mp hanswer
      cases hanswer
      exact .inl ⟨ret, ⟨n.fp, hfind.symm, hrun⟩, ht⟩

theorem Globals.served {regs : List (Registration σ)} {s₀ : σ} {es : List NetEvent}
    {srv srv' : Server σ} (h : Launched (registerAll regs) s₀ srv)
    (hglobals : Globals regs s₀ es srv.state) {m : ServerMem} {d : Bytes}
    {o : Option (Request × Bytes)} (hstep : srv.step m d = .ok (o, srv')) (p : Packet) :
    Globals regs s₀ (.served p o :: es) srv'.state := by
  rcases step_cases h hstep with ⟨rfl, hs⟩ | ⟨r, t, rfl, -, ⟨ret, hrun, -⟩ | ⟨hnone, hs⟩⟩
  · rw [hs]
    exact .other hglobals (by rintro _ _ _ ⟨⟩)
  · exact .executed hglobals hrun
  · rw [hs]
    refine .other hglobals ?_
    rintro _ _ _ ⟨⟩
    exact hnone

/-! ## The invariant -/

/-- The datagram a call is sent in. -/
def SentIn (x : Call) (d : Bytes) : Prop := x.Fits ∧ x.request.encode <+: d ∧ d.length = bufSize

theorem sentIn_of_exec {c : ClientMem} {x : Call} {d : Bytes}
    (h : (putCall x.procedureName x.nparams (x.params.map Subtype.val)).exec c.buf.1 = .ok d) :
    SentIn x d := by
  have hfits := fits_of_exec h
  obtain ⟨hname, hlen⟩ := hfits
  obtain ⟨d', hput, hpre, hd'⟩ := (puts_putCall x).exec_eq_ok (b := c.buf.1) (by
    rw [c.buf.2]
    omega)
  rw [hput, Except.ok.injEq] at h
  rw [h] at hpre hd'
  exact ⟨⟨hname, hlen⟩, hpre, hd'.trans c.buf.2⟩

/-- The server takes it for the call. -/
theorem decoded_of_sentIn {functionList : List (Node σ)} {s : σ} {srv : Server σ}
    (h : Launched functionList s srv) {x : Call} {d : Bytes} (hd : SentIn x d) {r : Request}
    (hr : (srv.decoded d).result = .ok r) : r = x.request := by
  obtain ⟨hfits, hpre, hlen⟩ := hd
  have hpos : 0 < d.length := by
    rw [hlen]
    decide
  have hdecoded := h.decoded_of_front ⟨d, hpos, hlen.le⟩ hfits.complete hpre
  rw [hr, Except.ok.injEq] at hdecoded
  exact hdecoded

/-- What is known about a call that waits: it is of a registered procedure, only its own datagram is
under way from its address, and only replies that were made for it are under way to it. -/
structure Waits (regs : List (Registration σ)) (s₀ : σ) (es : List NetEvent) (N : Net σ) (a : Addr)
    (x : Call) : Prop where
  known : (mostRecent regs x.procedureName).isSome
  sent : ∃ d, OpenCall es a x d ∧ SentIn x d ∧ ∀ d', (a, d') ∈ N.requests → d' = d
  answered : ∀ t, (a, t) ∈ N.replies →
    ∃ m ret, Answered regs s₀ es a x t ret ∧ reply m (some ret) = .ok t

/-- The server has come to where the requests it was sent have brought it, and the calls that wait are
answered by what is under way to them. -/
structure NetInv (regs : List (Registration σ)) (s₀ : σ) (es : List NetEvent) (N : Net σ) : Prop where
  launched : Launched (registerAll regs) s₀ N.server
  globals : Globals regs s₀ es N.server.state
  calls : ∀ a x, N.waiting a = some x → Waits regs s₀ es N a x

section
variable {regs : List (Registration σ)} {s₀ : σ} {es : List NetEvent} {N N' : Net σ} {a : Addr}
  {x : Call} {e : NetEvent}

/-- Nothing new is under way for the call. -/
theorem Waits.mono (h : Waits regs s₀ es N a x) (he : e.socket? ≠ some a)
    (hreq : ∀ d, (a, d) ∈ N'.requests → (a, d) ∈ N.requests)
    (hrep : ∀ t, (a, t) ∈ N'.replies → (a, t) ∈ N.replies) : Waits regs s₀ (e :: es) N' a x := by
  obtain ⟨hknown, ⟨d, hopen, hsent, honly⟩, hanswered⟩ := h
  refine ⟨hknown, ⟨d, hopen.cons he, hsent, fun d' hd' ↦ honly d' (hreq d' hd')⟩, fun t ht ↦ ?_⟩
  obtain ⟨m, ret, hans, hreply⟩ := hanswered t (hrep t ht)
  exact ⟨m, ret, hans.cons he, hreply⟩

/-- A channel that only loses and doubles has nothing new in it. -/
theorem mem_of_fault {t : Transit Packet} {s s' : Multiset Packet} (hfault : t.IsFault)
    (hstep : Transit.Step s t s') {q : Packet} (hq : q ∈ s') : q ∈ s := by
  rcases hstep with _ | _ | _ | _
  · exact hfault.elim
  · exact Multiset.mem_cons_of_mem hq
  · exact (Multiset.mem_cons.mp hq).elim (fun heq ↦ heq ▸ Multiset.mem_cons_self _ _) id
  · exact hfault.elim

theorem mem_repliesTo {o : Option (Request × Bytes)} {q : Packet} (hq : q ∈ repliesTo a o) :
    ∃ r, o = some (r, q.2) ∧ q.1 = a := by
  rcases o with _ | ⟨r, t⟩
  · cases hq
  · obtain rfl : q = (a, t) := by simpa [repliesTo] using hq
    exact ⟨r, rfl, rfl⟩

/-- **Serving keeps a waiting call's replies its own.**  The datagram that reaches the server from the
address of the call is the call's, and the reply holds what its procedure returned. -/
theorem NetInv.waits_served (h : NetInv regs s₀ es N) {a' : Addr} {d : Bytes} {m : ServerMem}
    {o : Option (Request × Bytes)} {srv : Server σ} {rest : Multiset Packet}
    (harrives : N.requests = (a', d) ::ₘ rest) (hstep : N.server.step m d = .ok (o, srv))
    (hx : N.waiting a = some x) :
    Waits regs s₀ (.served (a', d) o :: es)
      { N with server := srv, requests := rest, replies := repliesTo a' o + N.replies } a x := by
  have he : (NetEvent.served (a', d) o).socket? ≠ some a := nofun
  have hw := h.calls a x hx
  have hmem {q : Packet} (hq : q ∈ rest) : q ∈ N.requests :=
    harrives ▸ Multiset.mem_cons_of_mem hq
  obtain ⟨d₀, hopen, hsent, honly⟩ := hw.sent
  refine ⟨hw.known, ⟨d₀, hopen.cons he, hsent, fun d' hd' ↦ honly d' (hmem hd')⟩, fun t ht ↦ ?_⟩
  rcases Multiset.mem_add.mp ht with ht | ht
  · -- the reply is new: its request came from the call's address
    obtain ⟨r, rfl, rfl⟩ := mem_repliesTo ht
    obtain rfl : d = d₀ := honly d (harrives ▸ Multiset.mem_cons_self _ _)
    rcases step_cases h.launched hstep with ⟨hnone, -⟩ | ⟨r', t', hsome, hr, hcases⟩
    · cases hnone
    · cases hsome
      obtain rfl := decoded_of_sentIn h.launched hsent hr
      have hname : CString.upTo x.request.funcName = x.procedureName := CString.upTo_chars _
      rcases hcases with ⟨ret, hrun, hreply⟩ | ⟨hnone, -⟩
      · exact ⟨m, ret, ⟨[], es, d, _, _, rfl, nofun, hopen, h.globals, hrun⟩, hreply⟩
      · have hknown := hw.known
        rw [← hname, hnone] at hknown
        cases hknown
  · obtain ⟨m', ret, hans, hreply⟩ := hw.answered t ht
    exact ⟨m', ret, hans.cons he, hreply⟩

/-- **Every step keeps the invariant**, if calls are made in good order. -/
theorem NetInv.step (h : NetInv regs s₀ es N) (hguard : Orderly regs es N e)
    (hstep : Net.Step N e N') : NetInv regs s₀ (e :: es) N' := by
  obtain ⟨hlaunched, hglobals, hcalls⟩ := h
  rcases hstep with @⟨a', x', c, d, hfree, hput⟩ | @⟨a', d, hforeign⟩ |
    @⟨a', d, m, o, srv, rest, harrives, hserve⟩ |
    @⟨a', t, x', c, ret, rest, harrives, hwaits, htake⟩ | @⟨t, s, hfault, hchannel⟩ |
    @⟨t, s, hfault, hchannel⟩
  · refine ⟨hlaunched, .other hglobals nofun, fun a x
      (hx : Function.update N.waiting a' (some x') a = some x) ↦ ?_⟩
    obtain ⟨hreq, hrep, hknown⟩ := hguard
    by_cases ha : a = a'
    · obtain rfl := ha
      rw [Function.update_self, Option.some_inj] at hx
      obtain rfl := hx
      refine ⟨hknown, ⟨d, ⟨[], es, rfl, nofun⟩, sentIn_of_exec hput, fun d' hd' ↦ ?_⟩, fun t ht ↦ ?_⟩
      · rcases Multiset.mem_cons.mp hd' with heq | hd'
        · exact congrArg Prod.snd heq
        · exact (hreq (a, d') hd' rfl).elim
      · exact (hrep (a, t) ht rfl).elim
    · rw [Function.update_of_ne ha] at hx
      refine (hcalls a x hx).mono (fun heq ↦ ha (Option.some_inj.mp heq).symm) (fun d' hd' ↦ ?_)
        fun _ ↦ id
      refine (Multiset.mem_cons.mp hd').resolve_left fun heq ↦ ha ?_
      exact congrArg Prod.fst heq
  · refine ⟨hlaunched, .other hglobals nofun, fun a x (hx : N.waiting a = some x) ↦ ?_⟩
    refine (hcalls a x hx).mono nofun (fun d' hd' ↦ ?_) fun _ ↦ id
    refine (Multiset.mem_cons.mp hd').resolve_left fun heq ↦ ?_
    have ha : a = a' := congrArg Prod.fst heq
    rw [← ha, hx] at hforeign
    cases hforeign
  · exact ⟨hlaunched.step hserve, hglobals.served hlaunched hserve _,
      fun a x hx ↦ NetInv.waits_served ⟨hlaunched, hglobals, hcalls⟩ harrives hserve hx⟩
  · refine ⟨hlaunched, .other hglobals nofun, fun a x
      (hx : Function.update N.waiting a' none a = some x) ↦ ?_⟩
    by_cases ha : a = a'
    · rw [ha, Function.update_self] at hx
      cases hx
    · rw [Function.update_of_ne ha] at hx
      exact (hcalls a x hx).mono (fun heq ↦ ha (Option.some_inj.mp heq).symm) (fun _ ↦ id)
        fun t ht ↦ harrives ▸ Multiset.mem_cons_of_mem ht
  · exact ⟨hlaunched, .other hglobals nofun, fun a x hx ↦
      (hcalls a x hx).mono nofun (fun _ hd ↦ mem_of_fault hfault hchannel hd) fun _ ↦ id⟩
  · exact ⟨hlaunched, .other hglobals nofun, fun a x hx ↦
      (hcalls a x hx).mono nofun (fun _ ↦ id) fun _ ht ↦ mem_of_fault hfault hchannel ht⟩

end

/-! ## What a call returns -/

section
variable {regs : List (Registration σ)} {s₀ : σ} {buf : Buf} {es : List NetEvent} {N : Net σ}

/-- The server before its first datagram, with nobody calling. -/
def Net.launch (regs : List (Registration σ)) (buf : Buf) (s₀ : σ) : Net σ :=
  .start ⟨registerAll regs, buf, .null, s₀⟩

theorem netInv_of_run (run : Run Net.Step (Orderly regs) (.launch regs buf s₀) es N) :
    NetInv regs s₀ es N := by
  refine Run.invariant (I := NetInv regs s₀) ?_ ?_ run
  · exact ⟨.start buf, .start, nofun⟩
  · intro es N e N' _ hI hguard hstep
    exact hI.step hguard hstep

/-- A reply that a call returns from is an answer to that call. -/
theorem NetInv.answered_of_returned (hinv : NetInv regs s₀ es N) {p : Packet} {x : Call}
    {ret : ReturnType} {N' : Net σ} (hstep : Net.Step N (.returned p x ret) N') :
    ∃ m result, Answered regs s₀ es p.1 x p.2 result ∧ reply m (some result) = .ok p.2 := by
  rcases hstep with _ | _ | _ | @⟨a, t, _, _, _, _, harrives, hwaits, -⟩
  exact (hinv.calls a x hwaits).answered t (harrives ▸ Multiset.mem_cons_self _ _)

/-- **A call returns its own result.**  Any number of clients, any interleaving of their calls, anything
that anybody else sends to the server, datagrams lost, doubled and reordered: if every call is of a
registered procedure and no address is used again while datagrams of an earlier call are under way, a call
that returns has been served since it was made, the registered procedure was run on exactly its arguments
and on the globals as the requests served before have left them, and it is the result of that run that is
returned. -/
theorem returned_own_result (run : Run Net.Step (Orderly regs) (.launch regs buf s₀) es N)
    {p : Packet} {x : Call} {ret : ReturnType} {earlier : List NetEvent}
    (h : .returned p x ret :: earlier <:+ es) :
    ∃ result, Answered regs s₀ earlier p.1 x p.2 result ∧ ret = result.received := by
  obtain ⟨later, rfl⟩ := h
  obtain ⟨N₁, hrun, -⟩ := run.split
  rcases hrun with _ | ⟨hbefore, -, hstep⟩
  obtain ⟨m, result, hans, hreply⟩ := (netInv_of_run hbefore).answered_of_returned hstep
  refine ⟨result, hans, ?_⟩
  -- the client finds the result at the front of the reply
  rcases hstep with _ | _ | _ | @⟨a, t, _, c, _, rest, -, -, htake⟩
  obtain ⟨hfits, -⟩ := reply_eq_ok_iff.mp hreply
  obtain ⟨t', ht', hpre, hlen⟩ := exists_reply_eq m hfits
  rw [hreply, Except.ok.injEq] at ht'
  rw [← ht'] at hpre hlen
  rw [recvfrom_of_eq c.read hlen, (takeResult_of_front m hfits.1 hpre).1, Except.ok.injEq] at htake
  exact htake.symm

end

/-! ## Runs -/

section
variable {regs : List (Registration σ)} {s₀ s' : σ} {N : Net σ} {a : Addr} {x : Call}

/-- A call that fits can be made. -/
theorem exists_called (hfits : x.Fits) (hfree : N.waiting a = none) (c : ClientMem) :
    ∃ d N', SentIn x d ∧ Net.Step N (.called (a, d) x) N' ∧ N'.server = N.server ∧
      N'.waiting = Function.update N.waiting a (some x) ∧ N'.requests = (a, d) ::ₘ N.requests ∧
      N'.replies = N.replies := by
  obtain ⟨hname, hlen⟩ := hfits
  obtain ⟨d, hput, -, -⟩ := (puts_putCall x).exec_eq_ok (b := c.buf.1) (by
    rw [c.buf.2]
    omega)
  exact ⟨d, _, sentIn_of_exec hput, .call hfree hput, rfl, rfl, rfl, rfl⟩

/-- It can be served, when its procedure returns a result that fits. -/
theorem exists_served (hlaunched : Launched (registerAll regs) s₀ N.server) {d : Bytes}
    (hsent : SentIn x d) {ret : ReturnType} (hrun : Executes regs x.request N.server.state ret s')
    (hret : ret.Fits) (m : ServerMem) {rest : Multiset Packet}
    (harrives : N.requests = (a, d) ::ₘ rest) :
    ∃ t N', reply m (some ret) = .ok t ∧ Net.Step N (.served (a, d) (some (x.request, t))) N' ∧
      Launched (registerAll regs) s₀ N'.server ∧ N'.server.state = s' ∧ N'.waiting = N.waiting ∧
      N'.requests = rest ∧ N'.replies = (a, t) ::ₘ N.replies := by
  obtain ⟨hfits, hpre, hlen⟩ := hsent
  obtain ⟨t, hreply, -, -⟩ := exists_reply_eq m hret
  obtain ⟨fp, hfp, hrun⟩ := hrun
  have hfind := find_registerAll regs (CString.upTo x.request.funcName)
  rw [hfp, Option.map_eq_some_iff] at hfind
  obtain ⟨n, hn, rfl⟩ := hfind
  have hanswer : answer N.server.functionList m x.request N.server.state = .ok (t, s') := by
    rw [answer, hlaunched.functionList_eq, hn]
    show n.fp _ _ _ >>= _ = _
    rw [hrun, ok_bind]
    show reply m (some ret) >>= _ = _
    rw [hreply, ok_bind]
    rfl
  have hstep := step_eq hlen hfits.complete hpre hlaunched.args_eq hanswer
  exact ⟨t, _, hreply, .serve harrives hstep, hlaunched.step hstep, rfl, rfl, rfl, rfl⟩

/-- And its reply can be received. -/
theorem exists_returned {m : ServerMem} {ret : ReturnType} {t : Bytes}
    (hreply : reply m (some ret) = .ok t) (hwaits : N.waiting a = some x) {rest : Multiset Packet}
    (harrives : N.replies = (a, t) ::ₘ rest) (c : ClientMem) :
    ∃ N', Net.Step N (.returned (a, t) x ret.received) N' ∧ N'.server = N.server ∧
      N'.waiting a = none ∧ N'.requests = N.requests ∧ N'.replies = rest := by
  obtain ⟨hfits, -⟩ := reply_eq_ok_iff.mp hreply
  obtain ⟨t', ht', hpre, hlen⟩ := exists_reply_eq m hfits
  rw [hreply, Except.ok.injEq] at ht'
  rw [← ht'] at hpre hlen
  refine ⟨_, .return_ (c := c) harrives hwaits ?_, rfl, Function.update_self .., rfl, rfl⟩
  rw [recvfrom_of_eq c.read hlen]
  exact (takeResult_of_front m hfits.1 hpre).1

/-- The network may lose and double what is under way. -/
theorem exists_fault {t : Transit Packet} (hfault : t.IsFault) {s : Multiset Packet} :
    (Transit.Step N.requests t s → ∃ N', Net.Step N (.request t) N' ∧ N'.server = N.server ∧
      N'.waiting = N.waiting ∧ N'.requests = s ∧ N'.replies = N.replies) ∧
    (Transit.Step N.replies t s → ∃ N', Net.Step N (.reply t) N' ∧ N'.server = N.server ∧
      N'.waiting = N.waiting ∧ N'.requests = N.requests ∧ N'.replies = s) :=
  ⟨fun h ↦ ⟨_, .request hfault h, rfl, rfl, rfl, rfl⟩,
    fun h ↦ ⟨_, .reply hfault h, rfl, rfl, rfl, rfl⟩⟩

end

/-- A server with `echo`, which counts its calls and returns its last argument. -/
abbrev echoNet : Net ℕ := .launch echoRegistrations (.fill 9) 5

theorem executes_echo (s : ℕ) :
    Executes echoRegistrations echoCall.request s ⟨some [8, 9], 2⟩ (s + 1) :=
  ⟨echoLast, rfl, rfl⟩

theorem fits_echo : echoCall.Fits ∧ ReturnType.Fits ⟨some [8, 9], 2⟩ :=
  ⟨⟨by decide, by decide⟩, ⟨by decide, by decide⟩, by decide⟩

/-- A call of `echo` from address 7, and the server about to take it. -/
theorem exists_echo_called :
    ∃ d N, SentIn echoCall d ∧
      Run Net.Step (Orderly echoRegistrations) echoNet [.called (7, d) echoCall] N ∧
      Launched (registerAll echoRegistrations) 5 N.server ∧ N.server.state = 5 ∧
      N.waiting = Function.update (fun _ ↦ none) 7 (some echoCall) ∧ N.requests = (7, d) ::ₘ 0 ∧
      N.replies = 0 := by
  obtain ⟨d, N, hsent, hcall, hserver, hwaits, hreq, hrep⟩ :=
    exists_called (N := echoNet) (a := 7) fits_echo.1 rfl someClientMem
  refine ⟨d, N, hsent, .next .start ⟨nofun, nofun, rfl⟩ hcall, ?_, ?_, hwaits, hreq, hrep⟩
  · rw [hserver]
    exact .start _
  · rw [hserver]
    rfl

/-- The call, with nothing in its way. -/
theorem exists_echo_run :
    ∃ d t N, Run Net.Step (Orderly echoRegistrations) echoNet
      [.returned (7, t) echoCall ⟨some [8, 9], 2⟩, .served (7, d) (some (echoCall.request, t)),
        .called (7, d) echoCall] N := by
  obtain ⟨d, N₁, hsent, hrun, hlaunched, hstate, hwaits, hreq, hrep⟩ := exists_echo_called
  obtain ⟨t, N₂, hreply, hserve, -, -, hwaits₂, -, hrep₂⟩ :=
    exists_served hlaunched hsent (executes_echo _) fits_echo.2 someServerMem hreq
  have hwaits₂ : N₂.waiting 7 = some echoCall := by
    rw [hwaits₂, hwaits]
    rfl
  obtain ⟨N₃, hreturn, -⟩ := exists_returned hreply hwaits₂ hrep₂ someClientMem
  exact ⟨d, t, N₃, .next (.next hrun trivial hserve) trivial hreturn⟩

/-- It returns what `echo` has made of its arguments. -/
theorem returned_own_result_of_echo :
    ∃ earlier t result, Answered echoRegistrations 5 earlier 7 echoCall t result ∧
      (⟨some [8, 9], 2⟩ : ReturnType) = result.received := by
  obtain ⟨d, t, N, hrun⟩ := exists_echo_run
  obtain ⟨result, hans, heq⟩ := returned_own_result hrun List.suffix_rfl
  exact ⟨_, t, result, hans, heq⟩

/-- **The result of another call is returned.**  The reply to a call from address 7 is doubled.  The
address is given to the next client, who calls with no argument, and is answered by the second copy before
anything has reached the server. -/
theorem other_result_returned :
    ∃ d t rest N, Run Net.Step Run.free echoNet
      (.returned (7, t) emptyCall ⟨some [8, 9], 2⟩ :: .called (7, d) emptyCall :: rest) N := by
  obtain ⟨d, N₁, hsent, hrun, hlaunched, hstate, hwaits, hreq, hrep⟩ := exists_echo_called
  obtain ⟨t, N₂, hreply, hserve, -, -, hwaits₂, -, hrep₂⟩ :=
    exists_served hlaunched hsent (executes_echo _) fits_echo.2 someServerMem hreq
  obtain ⟨N₃, hdouble, -, hwaits₃, -, hrep₃⟩ := (exists_fault
    (t := .doubled (7, t)) trivial).2 (by
      rw [hrep₂]
      exact .doubled _ _)
  have hwaits₃ : N₃.waiting 7 = some echoCall := by
    rw [hwaits₃, hwaits₂, hwaits]
    rfl
  obtain ⟨N₄, hreturn, -, hfree, -, hrep₄⟩ := exists_returned hreply hwaits₃ hrep₃ someClientMem
  obtain ⟨d', N₅, -, hcall, -, hwaits₅, -, hrep₅⟩ :=
    exists_called (x := emptyCall) ⟨by decide, by decide⟩ hfree someClientMem
  have hwaits₅ : N₅.waiting 7 = some emptyCall := by
    rw [hwaits₅]
    exact Function.update_self ..
  obtain ⟨N₆, hreturn', -⟩ := exists_returned hreply hwaits₅ (hrep₅.trans hrep₄) someClientMem
  have hfirst := Run.next (Run.next (Run.next hrun.forget trivial hserve) trivial hdouble) trivial
    hreturn
  exact ⟨d', t, _, N₆, .next (.next hfirst trivial hcall) trivial hreturn'⟩

end RemoteFs.Datagram
