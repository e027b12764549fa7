import RemoteFs.Datagram.Network

/-!
# How often a call is executed

No stub sends anything twice, and none looks whether it has seen a datagram before.  So what the network
does to the datagram of a call is what happens to the call.

* `executed_once`: if its datagram is not doubled, a call that returns has been taken by the server
  exactly once.  The requests from one address are a channel (`Transit.restrict`), and a channel that
  doubles nothing delivers no more than was sent.
* `doubled_call_executed_twice`: if it is, the procedure is run twice.
* `lost_call_waits`: if it or the reply is lost, the call never returns.
-/

set_option autoImplicit false

namespace RemoteFs.Datagram

variable {σ : Type}

/-! ## The channel from an address -/

/-- What an event is for the channel to the server. -/
def NetEvent.onRequests : NetEvent → Option (Transit Packet)
  | .called p _ | .stray p => some (.sent p)
  | .served p _ => some (.delivered p)
  | .request t => some t
  | _ => none

/-- The datagram has the address. -/
def From (a : Addr) (p : Packet) : Prop := p.1 = a

instance (a : Addr) : DecidablePred (From a) := fun p ↦ inferInstanceAs (Decidable (p.1 = a))

/-- The server takes a datagram from an address. -/
def NetEvent.servedFrom (a : Addr) : NetEvent → Bool
  | .served p _ => From a p
  | _ => false

/-- The network doubles a request from an address. -/
def NetEvent.DoublesFrom (a : Addr) : NetEvent → Prop
  | .request (.doubled p) => From a p
  | _ => False

section
variable {guard : List NetEvent → Net σ → NetEvent → Prop} {N N' : Net σ} {es : List NetEvent}
  {a : Addr} {x : Call}

/-- **The requests are a channel.** -/
theorem run_requests (run : Run Net.Step guard N es N') :
    Run Transit.Step Run.free N.requests (es.filterMap NetEvent.onRequests) N'.requests := by
  refine run.project Net.requests NetEvent.onRequests fun {N e N'} hstep ↦ ?_
  rcases hstep with _ | @⟨a, d⟩ | @⟨a, d, m, o, srv, rest, harrives, -⟩ | _ | ⟨-, hchannel⟩ | _
  · exact .inr ⟨_, rfl, .sent _ _⟩
  · exact .inr ⟨_, rfl, .sent _ _⟩
  · refine .inr ⟨_, rfl, ?_⟩
    rw [harrives]
    exact .delivered _ _
  · exact .inl ⟨rfl, rfl⟩
  · exact .inr ⟨_, rfl, hchannel⟩
  · exact .inl ⟨rfl, rfl⟩

/-- While a socket is open nobody else sends from its address. -/
theorem Net.Step.waits {e : NetEvent} (h : Net.Step N e N') (he : e.socket? ≠ some a)
    (hx : N.waiting a = some x) :
    N'.waiting a = some x ∧ ∀ p, e.onRequests = some (.sent p) → p.1 ≠ a := by
  rcases h with @⟨a', x', c, d⟩ | @⟨a', d, hforeign⟩ | _ | @⟨a', t⟩ | ⟨hfault, -⟩ | _
  · have ha : a ≠ a' := fun heq ↦ he (congrArg some heq.symm)
    refine ⟨(Function.update_of_ne ha _ _).trans hx, ?_⟩
    rintro p ⟨⟩
    exact ha.symm
  · refine ⟨hx, ?_⟩
    rintro p ⟨⟩ rfl
    rw [hx] at hforeign
    cases hforeign
  · exact ⟨hx, nofun⟩
  · have ha : a ≠ a' := fun heq ↦ he (congrArg some heq.symm)
    exact ⟨(Function.update_of_ne ha _ _).trans hx, nofun⟩
  · refine ⟨hx, ?_⟩
    rintro p ⟨⟩
    exact hfault.elim
  · exact ⟨hx, nofun⟩

theorem not_sent_of_open (run : Run Net.Step guard N es N') (hsocket : ∀ e ∈ es, e.socket? ≠ some a)
    (hx : N.waiting a = some x) :
    N'.waiting a = some x ∧ ∀ p, .sent p ∈ es.filterMap NetEvent.onRequests → p.1 ≠ a := by
  induction run with
  | start => exact ⟨hx, nofun⟩
  | next run ok move ih =>
    obtain ⟨he, hsocket⟩ := List.forall_mem_cons.mp hsocket
    obtain ⟨hwaits, hsent⟩ := ih hsocket
    obtain ⟨hwaits', hsent'⟩ := move.waits he hwaits
    refine ⟨hwaits', fun p hp ↦ ?_⟩
    obtain ⟨e', he', hevent⟩ := List.mem_filterMap.mp hp
    rcases List.mem_cons.mp he' with rfl | he'
    · exact hsent' p hevent
    · exact hsent p (List.mem_filterMap.mpr ⟨e', he', hevent⟩)

/-- What the server takes from an address, the channel has delivered. -/
theorem countP_servedFrom_le (es : List NetEvent) (a : Addr) :
    es.countP (NetEvent.servedFrom a) ≤ (Transit.allDelivered
      ((es.filterMap NetEvent.onRequests).filter fun t ↦ From a t.message)).card := by
  induction es with
  | nil => exact Nat.zero_le _
  | cons e es ih =>
    by_cases h : NetEvent.servedFrom a e = true
    · rcases e with _ | _ | ⟨p, o⟩ | _ | _ | _ <;> try cases h
      have hevent : (NetEvent.served p o).onRequests = some (.delivered p) := rfl
      have hmessage : decide (From a (Transit.delivered p).message) = true := h
      rw [List.countP_cons_of_pos h, List.filterMap_cons_some hevent, List.filter_cons,
        if_pos hmessage, Transit.allDelivered_cons, Multiset.card_add, Nat.add_comm]
      exact Nat.add_le_add_left ih 1
    · rw [List.countP_cons_of_neg h]
      refine ih.trans (Multiset.card_le_card ?_)
      rw [List.filterMap_cons]
      split
      · exact le_refl _
      · rw [List.filter_cons]
        split
        · rw [Transit.allDelivered_cons]
          exact Multiset.le_add_left _ _
        · exact le_refl _

/-- The events of a history that come after a call, up to where its socket is used next. -/
theorem mem_between {between before after before' : List NetEvent} {p p' : Packet}
    {o : Option (Request × Bytes)}
    (h : between ++ .called p x :: before = after ++ .served p' o :: before')
    (hafter : ∀ e ∈ after, e.socket? ≠ some p.1) : .served p' o ∈ between := by
  rcases List.append_eq_append_iff.mp h with ⟨mid, rfl, hmid⟩ | ⟨mid, rfl, hmid⟩
  · rcases mid with _ | ⟨e, mid⟩
    · cases hmid
    · obtain ⟨rfl, -⟩ := List.cons_eq_cons.mp hmid
      exact absurd rfl (hafter _ (List.mem_append_right _ List.mem_cons_self))
  · rcases mid with _ | ⟨e, mid⟩
    · cases hmid
    · obtain ⟨rfl, -⟩ := List.cons_eq_cons.mp hmid
      exact List.mem_append_right _ List.mem_cons_self

end

section
variable {regs : List (Registration σ)} {s₀ : σ} {buf : Buf} {es : List NetEvent} {N : Net σ}

/-- From the address of a call one datagram is taken at most, until the socket is closed. -/
theorem servedFrom_le_one {N₀ N₁ : Net σ} {before between : List NetEvent} {a : Addr} {d : Bytes}
    {x : Call} (hguard : Orderly regs before N₀ (.called (a, d) x))
    (hcall : Net.Step N₀ (.called (a, d) x) N₁) (run : Run Net.Step Run.free N₁ between N)
    (hopen : ∀ e ∈ between, e.socket? ≠ some a) (hsingle : ∀ e ∈ between, ¬ e.DoublesFrom a) :
    between.countP (NetEvent.servedFrom a) ≤ 1 := by
  rcases hcall with @⟨_, _, c, _, hfree, hput⟩
  have hfrom : From a (a, d) := rfl
  -- of the messages from `a` there is the call's at the start, and none is added
  have hstart : ((a, d) ::ₘ N₀.requests).filter (From a) = {(a, d)} := by
    have hrest : N₀.requests.filter (From a) = 0 := Multiset.filter_eq_nil.mpr hguard.1
    rw [Multiset.filter_cons_of_pos _ hfrom, hrest]
    rfl
  have hnone : Transit.allSent ((between.filterMap NetEvent.onRequests).filter
      fun t ↦ From a t.message) = 0 := by
    refine Multiset.eq_zero_of_forall_notMem fun p hp ↦ ?_
    obtain ⟨hp, ha⟩ := List.mem_filter.mp (Transit.mem_allSent.mp hp)
    exact (not_sent_of_open run hopen (Function.update_self ..)).2 p hp (of_decide_eq_true ha)
  have hle := Transit.delivered_add_le (Transit.restrict (From a) (run_requests run)) fun p hp ↦ by
      obtain ⟨hp, ha⟩ := List.mem_filter.mp hp
      obtain ⟨e, he, hevent⟩ := List.mem_filterMap.mp hp
      rcases e with _ | _ | _ | _ | t | _ <;> cases hevent
      have hdoubles : From a p := of_decide_eq_true ha
      exact hsingle _ he hdoubles
  rw [hnone, zero_add] at hle
  have hcard := Multiset.card_le_card ((Multiset.le_add_right _ _).trans hle)
  refine (countP_servedFrom_le between a).trans (hcard.trans ?_)
  show (((a, d) ::ₘ N₀.requests).filter (From a)).card ≤ 1
  rw [hstart]
  exact le_refl _

/-- **A call is executed once**, in a run as for `returned_own_result`, if the network does not double its
datagram: between the call and its return the server takes exactly one datagram from its address. -/
theorem executed_once (run : Run Net.Step (Orderly regs) (.launch regs buf s₀) es N) {a : Addr}
    {d t : Bytes} {x : Call} {ret : ReturnType} {between before : List NetEvent}
    (h : .returned (a, t) x ret :: (between ++ .called (a, d) x :: before) <:+ es)
    (hopen : ∀ e ∈ between, e.socket? ≠ some a) (hsingle : ∀ e ∈ between, ¬ e.DoublesFrom a) :
    between.countP (NetEvent.servedFrom a) = 1 := by
  obtain ⟨later, rfl⟩ := h
  obtain ⟨_, hreturned, -⟩ := run.split
  rcases hreturned with _ | ⟨hbefore, -, hreturn⟩
  refine Nat.le_antisymm ?_ ?_
  · obtain ⟨N₁, hcalled, hbetween⟩ := hbefore.split
    rcases hcalled with _ | @⟨_, N₀, _, _, -, hguard, hcall⟩
    exact servedFrom_le_one hguard hcall hbetween hopen hsingle
  · -- it has been answered, and so it has been served
    obtain ⟨-, result, ⟨after, before', d', s, s', heq, hafter, -⟩, -⟩ :=
      (netInv_of_run hbefore).answered_of_returned hreturn
    exact List.countP_pos_iff.mpr ⟨_, mem_between heq hafter, decide_eq_true rfl⟩

end

/-- It is served once. -/
theorem executed_once_of_echo :
    ∃ d t, [NetEvent.served (7, d) (some (echoCall.request, t))].countP
      (NetEvent.servedFrom 7) = 1 := by
  obtain ⟨d, t, N, hrun⟩ := exists_echo_run
  have hsuffix : NetEvent.returned (7, t) echoCall ⟨some [8, 9], 2⟩ ::
      ([.served (7, d) (some (echoCall.request, t))] ++ .called (7, d) echoCall :: []) <:+ _ :=
    List.suffix_rfl
  refine ⟨d, t, executed_once hrun hsuffix ?_ ?_⟩
  · exact List.forall_mem_singleton.mpr nofun
  · exact List.forall_mem_singleton.mpr id

/-- **A call whose datagram is doubled is executed twice**: the counter has moved from 5 to 7. -/
theorem doubled_call_executed_twice :
    ∃ d t t' N, Run Net.Step (Orderly echoRegistrations) echoNet
      [.served (7, d) (some (echoCall.request, t')), .served (7, d) (some (echoCall.request, t)),
        .request (.doubled (7, d)), .called (7, d) echoCall] N ∧ N.server.state = 7 := by
  obtain ⟨d, N₁, hsent, hrun, hlaunched, hstate, -, hreq, -⟩ := exists_echo_called
  obtain ⟨N₂, hdouble, hserver, -, hreq₂, -⟩ := (exists_fault
    (t := .doubled (7, d)) trivial).1 (by
      rw [hreq]
      exact .doubled _ _)
  rw [← hserver] at hlaunched hstate
  obtain ⟨t, N₃, -, hserve, hlaunched₃, hstate₃, -, hreq₃, -⟩ :=
    exists_served hlaunched hsent (executes_echo _) fits_echo.2 someServerMem hreq₂
  obtain ⟨t', N₄, -, hserve', -, hstate₄, -⟩ :=
    exists_served hlaunched₃ hsent (executes_echo _) fits_echo.2 someServerMem hreq₃
  refine ⟨d, t, t', N₄, .next (.next (.next hrun trivial hdouble) trivial hserve) trivial hserve', ?_⟩
  rw [hstate₄, hstate₃, hstate]

/-! ## Calls that are lost -/

section
variable {guard : List NetEvent → Net σ → NetEvent → Prop} {N N' : Net σ} {es : List NetEvent}
  {a : Addr} {x : Call}

/-- The call waits, and nothing is under way from it or to it. -/
structure Lost (N : Net σ) (a : Addr) (x : Call) : Prop where
  waits : N.waiting a = some x
  requests : ∀ q ∈ N.requests, q.1 ≠ a
  replies : ∀ q ∈ N.replies, q.1 ≠ a

theorem Lost.step (h : Lost N a x) {e : NetEvent} (hstep : Net.Step N e N') :
    Lost N' a x ∧ e.socket? ≠ some a := by
  obtain ⟨hwaits, hreq, hrep⟩ := h
  rcases hstep with @⟨a', x', c, d, hfree, -⟩ | @⟨a', d, hforeign⟩ |
    @⟨a', d, m, o, srv, rest, harrives, -⟩ | @⟨a', t, x', c, ret, rest, harrives, -, -⟩ |
    @⟨t, s, hfault, hchannel⟩ | @⟨t, s, hfault, hchannel⟩
  · have ha : a ≠ a' := by
      rintro rfl
      rw [hwaits] at hfree
      cases hfree
    refine ⟨⟨(Function.update_of_ne ha _ _).trans hwaits, ?_, hrep⟩,
      fun heq ↦ ha (Option.some_inj.mp heq).symm⟩
    exact Multiset.forall_mem_cons.mpr ⟨ha.symm, hreq⟩
  · have ha : a' ≠ a := by
      rintro rfl
      rw [hwaits] at hforeign
      cases hforeign
    exact ⟨⟨hwaits, Multiset.forall_mem_cons.mpr ⟨ha, hreq⟩, hrep⟩, nofun⟩
  · rw [harrives] at hreq
    obtain ⟨ha, hreq⟩ := Multiset.forall_mem_cons.mp hreq
    refine ⟨⟨hwaits, hreq, fun q hq ↦ ?_⟩, nofun⟩
    rcases Multiset.mem_add.mp hq with hq | hq
    · obtain ⟨-, -, hq⟩ := mem_repliesTo hq
      rwa [hq]
    · exact hrep q hq
  · rw [harrives] at hrep
    obtain ⟨ha, hrep⟩ := Multiset.forall_mem_cons.mp hrep
    refine ⟨⟨(Function.update_of_ne (Ne.symm ha) _ _).trans hwaits, hreq, hrep⟩, ?_⟩
    exact fun heq ↦ ha (Option.some_inj.mp heq)
  · exact ⟨⟨hwaits, fun q hq ↦ hreq q (mem_of_fault hfault hchannel hq), hrep⟩, nofun⟩
  · exact ⟨⟨hwaits, hreq, fun q hq ↦ hrep q (mem_of_fault hfault hchannel hq)⟩, nofun⟩

/-- **A call that is lost never returns.**  When a call waits and none of its datagrams is under way, it
waits after whatever else happens: no client sends its call again. -/
theorem lost_call_waits (run : Run Net.Step guard N es N') (h : Lost N a x) :
    Lost N' a x ∧ ∀ t y ret, .returned (a, t) y ret ∉ es := by
  induction run with
  | start => exact ⟨h, nofun⟩
  | next run ok move ih =>
    obtain ⟨hlost, hnever⟩ := ih
    obtain ⟨hlost', hsocket⟩ := hlost.step move
    refine ⟨hlost', fun t y ret hmem ↦ ?_⟩
    rcases List.mem_cons.mp hmem with rfl | hmem
    · exact hsocket rfl
    · exact hnever t y ret hmem

end

/-- A call whose datagram is lost waits while another client makes a call. -/
theorem lost_call_waits_of_echo :
    ∃ N N' es, Run Net.Step Run.free (N : Net ℕ) es N' ∧ es ≠ [] ∧
      Lost N' 7 echoCall ∧ ∀ t y ret, .returned (7, t) y ret ∉ es := by
  obtain ⟨d, N₁, -, -, -, -, hwaits, hreq, hrep⟩ := exists_echo_called
  obtain ⟨N₂, -, -, hwaits₂, hreq₂, hrep₂⟩ := (exists_fault
    (t := .lost (7, d)) trivial).1 (by
      rw [hreq]
      exact .lost _ _)
  rw [hrep] at hrep₂
  rw [hwaits] at hwaits₂
  have hlost : Lost N₂ 7 echoCall :=
    ⟨hwaits₂ ▸ rfl, hreq₂ ▸ nofun, hrep₂ ▸ nofun⟩
  obtain ⟨d', N₃, -, hcall, -⟩ := exists_called (N := N₂) (a := 8) (x := emptyCall)
    ⟨by decide, by decide⟩ (hwaits₂ ▸ rfl) someClientMem
  have hrun : Run Net.Step Run.free N₂ [.called (8, d') emptyCall] N₃ := .next .start trivial hcall
  exact ⟨N₂, N₃, _, hrun, List.cons_ne_nil _ _, lost_call_waits hrun hlost⟩

end RemoteFs.Datagram
