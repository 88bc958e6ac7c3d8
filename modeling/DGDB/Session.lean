import Mathlib
import DGDB.Sockets
import DGDB.TakingTurns

/-!
# What the clients see

The deployment over its sockets, when a client sends its request only after the requests before it
have been answered: each client prints the answer of the graph store after those requests, and once
nothing is on its way any more it has printed it once.
-/

namespace DGDB

open Rdt EventSystem

/-! ## Taking turns at the sockets -/

/-- Every accepted request has been answered. -/
def AllAnswered (cfg : Config) (w : World) : Prop :=
  ∀ p ∈ w.accepted, answers cfg p.1 w.sent ≠ []

instance (cfg : Config) (w : World) : Decidable (AllAnswered cfg w) :=
  inferInstanceAs (Decidable (∀ _ ∈ _, _))

/-- A client sends a request only when those before it have been answered. -/
def Sockets.InTurn (cfg : Config) (q : Sockets) : Sockets.Event → Prop
  | .request _ _ => AllAnswered cfg q.world
  | _ => True

instance (cfg : Config) (q : Sockets) : DecidablePred (Sockets.InTurn cfg q)
  | .request _ _ => inferInstanceAs (Decidable (AllAnswered cfg q.world))
  | .call _ | .link _ _ | .finish _ => inferInstanceAs (Decidable True)

theorem AllAnswered.mono {cfg : Config} {w w' : World} {es : List Envelope} (h : AllAnswered cfg w)
    (haccepted : w'.accepted = w.accepted) (hsent : w'.sent = w.sent ++ es) :
    AllAnswered cfg w' := by
  intro p hp
  rw [haccepted] at hp
  rw [hsent, answers_append]
  exact List.append_ne_nil_of_left_ne_nil (h p hp) _

/-- No two messages wait at one process, and a request waits only when those before it have been
answered. -/
structure Inboxes.Served (cfg : Config) (q : Inboxes) : Prop where
  sources : ∀ a ∈ q.unsent, ¬ cfg.IsClient a.src
  apart : q.inbox.Pairwise fun a b => a.dst ≠ b.dst
  requests : ∀ a ∈ q.inbox, a.dst = cfg.address → a.msg.IsRequest → AllAnswered cfg q.world

section Served

variable {cfg : Config} {q q' : Inboxes} {host : Host} {before after es : List Envelope}
  {a : Envelope}

theorem Placed.client_of_request (h : Placed cfg a) (hdst : a.dst = cfg.address)
    (hmsg : a.msg.IsRequest) : cfg.IsClient a.src := by
  cases h with
  | request _ hclient => exact hclient
  | answer _ hclient => exact absurd hdst hclient.1
  | secondary _ hrepo => exact absurd (hdst ▸ hrepo) cfg.apart
  | forwarded _ hrepo => exact absurd (hdst ▸ hrepo) cfg.apart
  | reply _ _ hreply =>
    cases hkind : a.msg <;> rw [hkind] at hmsg hreply <;>
      first | exact hmsg.elim | exact hreply.elim

theorem Inboxes.Served.start (cfg : Config) : (Inboxes.start cfg).Served cfg where
  sources := nofun
  apart := List.Pairwise.nil
  requests := nofun

theorem Inboxes.Took.accepted (ht : q.Took cfg host before a after es q')
    (hhost : host ≠ cfg.address) : q'.world.accepted = q.world.accepted := by
  have hturn := ht.turn
  generalize q'.world = w' at hturn
  cases hturn with
  | accept hdst => exact absurd (ht.dst.symm.trans hdst) hhost
  | _ => rfl

theorem Inboxes.Took.of_client (ht : q.Took cfg host before a after es q')
    (hhost : cfg.IsClient host) : es = [] := by
  have hclient : cfg.IsClient a.dst := by rwa [ht.dst]
  have hturn := ht.turn
  have hsent := ht.sent
  generalize q'.world = w' at hturn hsent
  cases hturn with
  | taken => exact List.append_cancel_left (hsent.symm.trans (List.append_nil _).symm)
  | busy hdst => exact absurd hdst hclient.1
  | accept hdst => exact absurd hdst hclient.1
  | response hdst => exact absurd hdst hclient.1
  | complete hdst => exact absurd hdst hclient.1
  | next hdst => exact absurd hdst hclient.1
  | stored hdst => exact absurd hdst hclient.2
  | asked hdst => exact absurd hdst hclient.2
  | updated hdst => exact absurd hdst hclient.2
  | deleted hdst => exact absurd hdst hclient.2

theorem Inboxes.Served.step (h : q.Served cfg) (hinv : q.Inv cfg) (hadm : q.world.Admissible)
    (hne : cfg.repos ≠ []) {d : Action} (halone : q.Alone cfg d)
    (hrequest : ∀ client msg, d = .request client msg → AllAnswered cfg q.world)
    (hstep : q.step cfg d = some q') : q'.Served cfg ∧ InTurn cfg q d := by
  cases d with
  | request client msg =>
    obtain ⟨-, -, rfl⟩ := Inboxes.step_request hstep
    refine ⟨⟨h.sources, List.pairwise_append.mpr ⟨h.apart, List.pairwise_singleton _ _,
      fun b hb c hc => ?_⟩, fun _ _ _ _ => ?_⟩, trivial⟩
    · rw [List.mem_singleton.mp hc]
      exact halone b hb
    · exact (hrequest client msg rfl).mono rfl rfl
  | send host =>
    obtain ⟨l₁, a, l₂, hunsent, hl₁, hsrc, rfl⟩ := Inboxes.step_send hstep
    have hmem : a ∈ q.unsent := by simp [hunsent]
    have hfind : q.unsent.find? (fun a => decide (a.src = host)) = some a := by
      rw [hunsent, List.find?_append, List.find?_eq_none.mpr (by simpa using hl₁),
        List.find?_cons_of_pos (by simpa using hsrc), Option.none_or]
    refine ⟨⟨fun b hb => h.sources b ?_, List.pairwise_append.mpr ⟨h.apart,
      List.pairwise_singleton _ _, fun b hb c hc => ?_⟩, fun b hb hdst hmsg => ?_⟩, trivial⟩
    · rw [hunsent]
      rcases List.mem_append.mp hb with hb | hb
      · exact List.mem_append_left _ hb
      · exact List.mem_append_right _ (List.mem_cons_of_mem _ hb)
    · rw [List.mem_singleton.mp hc]
      exact halone a hfind b hb
    · rcases List.mem_append.mp hb with hb | hb
      · exact h.requests b hb hdst hmsg
      · -- a process sends no request to the server
        rw [List.mem_singleton.mp hb] at hdst hmsg
        have htransit : a ∈ q.world.transit := by
          rw [hinv.transit]
          exact List.mem_append_right _ hmem
        exact absurd ((hinv.world.placed a htransit).client_of_request hdst hmsg) (h.sources a hmem)
  | take host =>
    obtain ⟨before, a, after, es, ht⟩ := hinv.took hadm hne hstep
    have hapart := h.apart
    rw [ht.inbox] at hapart
    have hrest : ∀ b ∈ q'.inbox, b ∈ q.inbox ∧ b.dst ≠ host := by
      intro b hb
      rw [ht.inbox'] at hb
      rw [ht.inbox, ← ht.dst]
      rcases List.mem_append.mp hb with hb | hb
      · exact ⟨List.mem_append_left _ hb, (List.pairwise_append.mp hapart).2.2 b hb a
          List.mem_cons_self⟩
      · exact ⟨List.mem_append_right _ (List.mem_cons_of_mem _ hb), (List.rel_of_pairwise_cons
          (List.pairwise_append.mp hapart).2.1 hb).symm⟩
    refine ⟨⟨fun b hb => ?_, ?_, fun b hb hdst hmsg => ?_⟩, fun b hb hreq => ?_⟩
    · rw [ht.unsent'] at hb
      rcases List.mem_append.mp hb with hb | hb
      · exact h.sources b hb
      · rw [ht.src b hb]
        intro hclient
        rw [ht.of_client hclient] at hb
        cases hb
    · rw [ht.inbox']
      exact hapart.sublist (List.Sublist.append_left (List.sublist_cons_self _ _) _)
    · obtain ⟨hmem, hother⟩ := hrest b hb
      exact (h.requests b hmem hdst hmsg).mono (ht.accepted fun heq => hother (hdst.trans heq.symm))
        ht.sent
    · have hmem := List.mem_of_find?_eq_some hb
      have hdst : b.dst = host := by simpa using List.find?_some hb
      exact h.requests b hmem (hdst.trans hreq.1) hreq.2

end Served

/-! ## To whom the answers go -/

/-- What has been sent to clients are answers of accepted requests. -/
def Addressed (cfg : Config) (w : World) : Prop :=
  ∀ b ∈ w.sent, cfg.IsClient b.dst → ∃ p ∈ w.accepted, b ∈ answers cfg p.1 w.sent

theorem mem_answers {cfg : Config} {id : ℤ} {sent : List Envelope} {b : Envelope} :
    b ∈ answers cfg id sent ↔ b ∈ sent ∧ b.src = cfg.address ∧ b.msg.isResponse = true ∧
      b.msg.request_id = id := by
  simp [answers]

section Addressed

variable {cfg : Config} {q q' : Inboxes} {host : Host} {before after es : List Envelope}
  {a : Envelope}

/-- What a turn sends to a client answers an accepted request, unless the server refuses one. -/
theorem Inboxes.Took.answers_client (ht : q.Took cfg host before a after es q')
    (hinv : q.world.Inv cfg) (hinv' : q'.world.Inv cfg)
    (hfree : a.dst = cfg.address → a.msg.IsRequest → q.world.server.cud_blocking = false) :
    ∀ b ∈ es, cfg.IsClient b.dst → ∃ p ∈ q.world.accepted, b.src = cfg.address ∧
      b.msg.isResponse = true ∧ b.msg.request_id = p.1 := by
  intro b hb hclient
  have hplaced : Placed cfg b := hinv'.placed b (by rw [ht.transit']; simp [hb])
  obtain ⟨m, hsrc, hmsg⟩ : ∃ m, b.src = cfg.address ∧ b.msg = .response m := by
    cases hplaced with
    | request haddr => exact absurd haddr hclient.1
    | answer hsrc _ hmsg => exact ⟨_, hsrc, hmsg⟩
    | secondary _ hrepo => exact absurd hrepo hclient.2
    | forwarded _ hrepo => exact absurd hrepo hclient.2
    | reply _ haddr => exact absurd haddr hclient.1
  have hdst : a.dst = cfg.address := by rw [ht.dst, ← ht.src b hb, hsrc]
  have hnot : a.dst ∉ cfg.repos := fun hrepo => cfg.apart (hdst ▸ hrepo)
  have hturn := ht.turn
  have hsent := ht.sent
  generalize q'.world = w' at hturn hsent
  have hone : ∀ {c : Envelope}, w'.sent = q.world.sent ++ [c] → b = c := by
    intro c hc
    rw [List.append_cancel_left (hsent.symm.trans hc)] at hb
    exact List.mem_singleton.mp hb
  suffices hid : ∃ p ∈ q.world.accepted, b.msg.request_id = p.1 by
    obtain ⟨p, hp, hid⟩ := hid
    exact ⟨p, hp, hsrc, by rw [hmsg]; rfl, hid⟩
  cases hturn with
  | busy _ _ hreq _ hbusy =>
    rw [show q.world.server.cud_blocking = true from hbusy] at hfree
    cases hfree hdst hreq
  | accept _ _ hreq =>
    -- a forwarded request is no answer
    have hforwarded := congrArg Envelope.msg (hone rfl)
    rw [hmsg] at hforwarded
    cases hkind : a.msg with
    | response m' => rw [hkind] at hreq; exact hreq.elim
    | info i => rw [hkind] at hreq; exact hreq.elim
    | register => rw [hkind] at hreq; exact hreq.elim
    | node m' => rw [hkind] at hforwarded; cases hforwarded
    | query m' => rw [hkind] at hforwarded; cases hforwarded
    | update m' => rw [hkind] at hforwarded; cases hforwarded
    | delete m' => rw [hkind] at hforwarded; cases hforwarded
  | response _ _ _ hpending =>
    obtain ⟨p, hp, hid, -⟩ := hinv.ledger.entry _ _ hpending
    exact ⟨p, hp, by rw [hone rfl]; exact hid⟩
  | complete _ _ _ hpending =>
    obtain ⟨p, hp, hid, -⟩ := hinv.ledger.entry _ _ hpending
    exact ⟨p, hp, by rw [hone rfl]; exact hid⟩
  | next =>
    have hquery := congrArg Envelope.msg (hone rfl)
    rw [hmsg] at hquery
    cases hquery
  | stored hrepo => exact absurd hrepo hnot
  | asked hrepo => exact absurd hrepo hnot
  | updated hrepo => exact absurd hrepo hnot
  | deleted hrepo => exact absurd hrepo hnot
  | taken hclient' => exact absurd hdst hclient'.1

theorem Addressed.step (h : Addressed cfg q.world) (hturns : TakingTurns cfg q)
    (hadm : q.world.Admissible) (hne : cfg.repos ≠ []) {d : Action} (hinturn : InTurn cfg q d)
    (hstep : q.step cfg d = some q') : Addressed cfg q'.world := by
  have hinv' := hturns.inv.step hadm hne hstep
  cases d with
  | request client msg =>
    obtain ⟨-, -, rfl⟩ := Inboxes.step_request hstep
    intro b hb hclient
    rw [World.post_sent] at hb
    rcases List.mem_append.mp hb with hb | hb
    · obtain ⟨p, hp, hanswer⟩ := h b hb hclient
      refine ⟨p, hp, ?_⟩
      rw [World.post_sent, answers_append]
      exact List.mem_append_left _ hanswer
    · rw [List.mem_singleton.mp hb] at hclient
      exact absurd rfl hclient.1
  | send host =>
    obtain ⟨l₁, a, l₂, -, -, -, rfl⟩ := Inboxes.step_send hstep
    exact h
  | take host =>
    obtain ⟨before, a, after, es, ht⟩ := hturns.inv.took hadm hne hstep
    have hfree : a.dst = cfg.address → a.msg.IsRequest → q.world.server.cud_blocking = false := by
      intro hdst hreq
      by_contra hbusy
      obtain ⟨id, client, st, hpending⟩ := hturns.flag (by simpa using hbusy)
      rw [(hturns.inv.quiet (hinturn a ht.oldest ⟨ht.dst ▸ hdst, hreq⟩)).1 id] at hpending
      cases hpending
    intro b hb hclient
    rw [ht.sent] at hb
    rcases List.mem_append.mp hb with hb | hb
    · obtain ⟨p, hp, hanswer⟩ := h b hb hclient
      refine ⟨p, ht.turn.accepted_subset hp, ?_⟩
      rw [ht.sent, answers_append]
      exact List.mem_append_left _ hanswer
    · obtain ⟨p, hp, hanswer⟩ := ht.answers_client hturns.inv.world hinv'.world hfree b hb hclient
      refine ⟨p, ht.turn.accepted_subset hp, mem_answers.mpr ⟨?_, hanswer⟩⟩
      rw [ht.sent]
      exact List.mem_append_right _ hb

end Addressed

/-! ## Whole runs -/

section Runs

variable {cfg : Config} {q : Sockets}

/-- A run at the sockets in which the clients take turns is one of the inboxes in which the server
does. -/
theorem in_turn_of_sockets (hne : cfg.repos ≠ []) {es : List Sockets.Event}
    (hadm : Along (Sockets.step cfg) Sockets.Admissible (Sockets.start cfg) es)
    (hsteps : Meets (Sockets.step cfg) (fun q e => q.Orderly cfg e ∧ q.InTurn cfg e)
      (Sockets.start cfg) es)
    (hrun : run (Sockets.step cfg) (Sockets.start cfg) es = some q) :
    q.Inv cfg ∧ ∃ actions, run (Inboxes.step cfg) (Inboxes.start cfg) actions = some q.inboxes ∧
      Along (Inboxes.step cfg) (fun q => q.world.Admissible) (Inboxes.start cfg) actions ∧
      Meets (Inboxes.step cfg) (InTurn cfg) (Inboxes.start cfg) actions := by
  obtain ⟨⟨hinv, -⟩, hactions⟩ := run_refines (f := Sockets.inboxes) (A := Sockets.Admissible)
    (I := fun q => q.Inv cfg ∧ q.inboxes.Served cfg) (B := fun q => q.world.Admissible)
    (C := fun q e => q.Orderly cfg e ∧ q.InTurn cfg e) (D := InTurn cfg) (fun _ h => h.world)
    (fun s e s' hA _ hC hI hs => by
      obtain ⟨hinv', hsame | ⟨d, hd, halone, hrequest⟩⟩ := hI.1.step hne hA hC.1 hs
      · exact ⟨⟨hinv', by rw [hsame]; exact hI.2⟩, Or.inl hsame⟩
      · have hanswered : ∀ client msg, d = .request client msg → AllAnswered cfg s.world := by
          intro client msg heq
          have hturn := hC.2
          rw [hrequest client msg heq] at hturn
          exact hturn
        obtain ⟨hserved, hturn⟩ := hI.2.step hI.1.inboxes hA.world hne halone hanswered hd
        exact ⟨⟨hinv', hserved⟩, Or.inr ⟨d, hd, hturn⟩⟩)
    ⟨Sockets.Inv.start cfg, Inboxes.Served.start cfg⟩ hadm hsteps hrun
  exact ⟨hinv, hactions⟩

theorem Sockets.Inv.mem_sent (h : q.Inv cfg) {p : Envelope × Str} (hp : p ∈ q.printed) :
    p.1 ∈ q.world.sent ∧ cfg.IsClient p.1.dst := by
  have hmem : p.1 ∈ (↑(q.world.sent.filter fun a => decide (ForClient cfg a)) :
      Multiset Envelope) := by
    rw [← h.conserved]
    exact Multiset.mem_add.mpr (Or.inl (List.mem_map_of_mem hp))
  obtain ⟨hsent, hclient⟩ := List.mem_filter.mp (Multiset.mem_coe.mp hmem)
  exact ⟨hsent, of_decide_eq_true hclient⟩

theorem Sockets.Inv.printed_perm (h : q.Inv cfg) (hcalls : q.calls = []) (hunsent : q.unsent = []) :
    (q.printed.map Prod.fst).Perm (q.world.sent.filter fun a => decide (ForClient cfg a)) := by
  have htransit : q.world.transit = 0 := by
    show q.inboxes.world.transit = 0
    rw [h.inboxes.transit]
    show (↑(Sockets.undelivered q.calls ++ q.unsent) : Multiset Envelope) = 0
    rw [hcalls, hunsent]
    rfl
  have hconserved := h.conserved
  rw [htransit, Multiset.filter_zero, add_zero] at hconserved
  exact Multiset.coe_eq_coe.mp hconserved

/-- **What the clients see is the graph store.** In every run in which what is sent fits the wire
and has no newlines and NULs, no process sends to itself, every step of a link is orderly and a
client sends its request only after the requests before it have been answered, each client prints
the answer of the store after those requests; and when no call of `SendTo` is under way and no
message is left to send, there is exactly one such text for every accepted request. -/
theorem sessions_refined (hne : cfg.repos ≠ []) {es : List Sockets.Event}
    (hadm : Along (Sockets.step cfg) Sockets.Admissible (Sockets.start cfg) es)
    (hsteps : Meets (Sockets.step cfg) (fun q e => q.Orderly cfg e ∧ q.InTurn cfg e)
      (Sockets.start cfg) es)
    (hrun : run (Sockets.step cfg) (Sockets.start cfg) es = some q) :
    (∀ p ∈ q.printed, ∃ init r rest, q.world.accepted = init ++ r :: rest ∧ p.1.dst = r.2.src ∧
      p.1.msg.request_id = r.1 ∧
      p.2 = newlines ((GraphStore.after (init.map fun r => r.2.msg)).answer r.2.msg)) ∧
    (q.calls = [] → q.unsent = [] → ∀ r ∈ q.world.accepted,
      ∃ p, q.printed.filter (fun p => decide (p.1.msg.request_id = (r.1 : ℤ))) = [p]) := by
  obtain ⟨hinv, actions, hactions, hadm', hturns⟩ := in_turn_of_sockets hne hadm hsteps hrun
  obtain ⟨hturn, haddressed⟩ : TakingTurns cfg q.inboxes ∧ Addressed cfg q.world := (Along.of_step
    (I := fun q => TakingTurns cfg q ∧ Addressed cfg q.world)
    (fun s e s' hA _ hC hI hs => ⟨hI.1.step hA hne hC hs, hI.2.step hI.1 hA hne hC hs⟩)
    ⟨TakingTurns.start cfg, nofun⟩ hadm' hturns).last hactions
  have hledger := hturn.inv.world.ledger
  refine ⟨fun p hp => ?_, fun hcalls hunsent r hr => ?_⟩
  · obtain ⟨hsent, hclient⟩ := hinv.mem_sent hp
    obtain ⟨r, hr, hanswer⟩ := haddressed p.1 hsent hclient
    obtain ⟨init, rest, heq⟩ := List.append_of_mem hr
    have hmsg := hturn.texts init r rest heq p.1 hanswer
    obtain ⟨m, hm, htext⟩ := hinv.printed p hp
    have hpending : q.world.server.pending r.1 = none := by
      by_contra hpending
      have hnone : answers cfg r.1 q.world.sent = [] := hledger.unanswered r hr hpending
      rw [hnone] at hanswer
      cases hanswer
    obtain ⟨b, hb, hdst⟩ := hledger.answered r hr hpending
    have hb' : p.1 ∈ [b] := hb ▸ hanswer
    refine ⟨init, r, rest, heq, by rw [List.mem_singleton.mp hb', hdst], by rw [hmsg]; rfl, ?_⟩
    rw [hm] at hmsg
    cases hmsg
    exact htext
  · -- the texts with the number of the request are those of its answers
    have hempty : q.inboxes.inbox = [] := by
      show Sockets.undelivered q.calls = []
      rw [hcalls]
      rfl
    obtain ⟨b, hb, hdst⟩ := hledger.answered r hr ((hturn.settled hempty hunsent).2 r.1)
    have hfilter : (q.world.sent.filter fun a => decide (ForClient cfg a)).filter
        (fun a => decide (a.msg.request_id = (r.1 : ℤ))) = [b] := by
      have hsame : (q.world.sent.filter fun a => decide (ForClient cfg a)).filter
          (fun a => decide (a.msg.request_id = (r.1 : ℤ))) = answers cfg r.1 q.world.sent := by
        rw [List.filter_filter]
        refine List.filter_congr fun c hc => ?_
        rw [← Bool.decide_and]
        refine decide_eq_decide.mpr ⟨fun ⟨hid, hclient⟩ => ?_, fun hc' => ⟨hc'.2.2, ?_⟩⟩
        · obtain ⟨r', -, hanswer⟩ := haddressed c hc hclient
          obtain ⟨-, hsrc, hresponse, -⟩ := mem_answers.mp hanswer
          exact ⟨hsrc, hresponse, hid⟩
        · have hanswer : c ∈ answers cfg r.1 q.world.sent := mem_answers.mpr ⟨hc, hc'⟩
          have hcb : c ∈ [b] := hb ▸ hanswer
          show cfg.IsClient c.dst
          rw [List.mem_singleton.mp hcb, hdst]
          exact hledger.clients r hr
      rw [hsame]
      exact hb
    have hperm := (hinv.printed_perm hcalls hunsent).filter
      fun a => decide (a.msg.request_id = (r.1 : ℤ))
    rw [hfilter, List.perm_singleton, List.filter_map] at hperm
    obtain ⟨p, hp, -⟩ := List.map_eq_singleton_iff.mp hperm
    exact ⟨p, hp⟩

end Runs

/-- When the node of client 7 has been created, client 8 queries it. -/
def createThenQueryOverSockets : List Sockets.Event :=
  let server := oneRepository.address
  let repository : Host := ⟨str "10.0.0.2", 50001⟩
  createOverSockets ++
    callOf (.request (clientHost 8) (.query ⟨str "a", 0, false, false, [], 0⟩)) (carried 1 true) ++
    callOf (.call server) (carried 1 true) ++ callOf (.call repository) (carried 1 true) ++
    callOf (.call server) (carried 3 false)

/-- Client 8 reads that the query is complete, and the name of the node in a line of its own. -/
theorem sessions_refined_two : ∃ (q : Sockets) (p : Envelope × Str),
    run (Sockets.step oneRepository) (Sockets.start oneRepository) createThenQueryOverSockets =
      some q ∧
    q.printed.filter (fun p => decide (p.1.msg.request_id = ((2 : ℕ) : ℤ))) = [p] ∧
    p.1.dst = clientHost 8 ∧
    p.2 = newlines ((GraphStore.after [.node ⟨str "a", [], [], 0, []⟩]).answer
      (.query ⟨str "a", 0, false, false, [], 0⟩)) := by
  have hrun : ∃ q, run (Sockets.step oneRepository) (Sockets.start oneRepository)
      createThenQueryOverSockets = some q ∧ q.calls.length = 0 ∧ q.unsent = [] ∧
      q.world.accepted = [(1, ⟨clientHost 7, oneRepository.address,
          .node ⟨str "a", [], [], 0, []⟩, 0⟩),
        (2, ⟨clientHost 8, oneRepository.address,
          .query ⟨str "a", 0, false, false, [], 0⟩, 0⟩)] :=
    exists_of_check (by decide +kernel)
  obtain ⟨q, hq, hcalls, hunsent, haccepted⟩ := hrun
  obtain ⟨hprinted, hone⟩ := sessions_refined (show oneRepository.repos ≠ [] by decide)
    (by decide +kernel) (by decide +kernel) hq
  obtain ⟨p, hp⟩ := hone (List.length_eq_zero_iff.mp hcalls) hunsent (2, _) (by
    rw [haccepted]
    exact List.mem_cons_of_mem _ List.mem_cons_self)
  have hmem : p ∈ q.printed ∧ p.1.msg.request_id = ((2 : ℕ) : ℤ) := by
    have hmem := List.mem_filter.mp (hp ▸ List.mem_singleton_self p)
    exact ⟨hmem.1, of_decide_eq_true hmem.2⟩
  obtain ⟨init, r, rest, heq, hdst, hid, htext⟩ := hprinted p hmem.1
  -- the second of the two requests
  have hr : r.1 = 2 := by
    have := hid.symm.trans hmem.2
    exact_mod_cast this
  rw [haccepted] at heq
  obtain ⟨rfl, rfl⟩ : init = [(1, ⟨clientHost 7, oneRepository.address,
      .node ⟨str "a", [], [], 0, []⟩, 0⟩)] ∧ r = (2, ⟨clientHost 8, oneRepository.address,
      .query ⟨str "a", 0, false, false, [], 0⟩, 0⟩) := by
    rcases init with _ | ⟨x, _ | ⟨y, init⟩⟩
    · cases heq
      cases hr
    · cases heq
      exact ⟨rfl, rfl⟩
    · simp at heq
  exact ⟨q, p, hq, hp, hdst, htext⟩

end DGDB
