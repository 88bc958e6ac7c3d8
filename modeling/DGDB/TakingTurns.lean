import Mathlib
import DGDB.Serving
import DGDB.Settling

/-!
# Clients that take turns

A deployment whose inboxes keep the order of the messages, and whose server takes a request only
when those before it have been answered, is the graph store: every request gets the answer of the
store after the requests before it.
-/

namespace DGDB

open EventSystem GraphSearch

/-! ## One step -/

/-- The store that the inboxes follow. -/
def Inboxes.Follows (cfg : Config) (q : Inboxes) (g : GraphStore) : Prop :=
  DGDB.Follows cfg g q.world.repo (coming cfg (q.inbox ++ q.unsent))

/-- The deployment while its clients take turns. -/
structure TakingTurns (cfg : Config) (q : Inboxes) : Prop where
  inv : q.Inv cfg
  flag : q.world.server.cud_blocking = true → ∃ id, QueryPending q.world.server id
  orderly : Orderly cfg q
  texts : Texts cfg q.world.accepted q.world.sent
  stage : Stage cfg q.world (q.Follows cfg)

section Step

variable {cfg : Config} {q q' : Inboxes} {host : Host} {before after es : List Envelope}
  {a : Envelope}

theorem reverseMsg_forwarded {src dst : Host} {m : Msg} {n k : ℕ} :
    reverseMsg cfg ⟨src, dst, m.forwarded cfg.hosts n, k⟩ = none := by
  rw [Option.eq_none_iff_forall_not_mem]
  intro c hc
  obtain ⟨hmsg, -, hnil⟩ := reverseMsg_eq_some.mp hc
  cases m with
  | node m₀ =>
    simp only [Msg.forwarded, Msg.node.injEq] at hmsg
    subst hmsg
    cases hnil
  | _ => cases hmsg

/-- No reverse relation is coming for the name that a repository handles a message of the server
about. -/
theorem TakingTurns.none_coming (h : TakingTurns cfg q) (ht : q.Took cfg host before a after es q')
    (hsrc : a.src = cfg.address) (hdst : a.dst ∈ cfg.repos) (ha : reverseMsg cfg a = none) :
    ∀ m ∈ coming cfg (q.inbox ++ q.unsent), m.nameA ≠ a.msg.name := by
  intro m hm hname
  obtain ⟨b, hb, hbm⟩ := mem_coming.mp hm
  obtain ⟨hmsg, hbdst, -⟩ := reverseMsg_eq_some.mp hbm
  have hin : b ∈ q.world.transit := by rw [h.inv.transit]; exact hb
  have hne : b ≠ a := by
    rintro rfl
    rw [ha] at hbm
    cases hbm
  have hrest : b ∈ before ++ after ++ q.unsent := by
    rw [ht.inbox] at hb
    simp only [List.mem_append, List.mem_cons] at hb ⊢
    tauto
  have hsame : b.dst = a.dst := by
    rw [h.inv.rows.routed b hin hbdst, h.inv.rows.routed a (by simp [ht.transit]) hdst, hmsg]
    show owner cfg.hosts m.nameA = owner cfg.hosts a.msg.name
    rw [hname]
  rw [h.orderly.none_behind ht hsrc hdst hrest hsame] at hbm
  cases hbm

theorem TakingTurns.quiet (h : TakingTurns cfg q) (ht : q.Took cfg host before a after es q')
    (hinv' : q'.Inv cfg) (hserver : q'.world.server = q.world.server)
    (haccepted : q'.world.accepted = q.world.accepted) (hidle : ¬ Busy cfg a) (hes : es = [])
    (hfollows : ∀ g, q.Follows cfg g → q'.Follows cfg g) : TakingTurns cfg q' where
  inv := hinv'
  flag := by
    rw [hserver]
    exact h.flag
  orderly := h.orderly.took ht (by simp [hes]) (by simp [hes])
  texts := by
    rw [haccepted, ht.sent, hes, List.append_nil]
    exact h.texts
  stage := by
    refine h.stage.frame h.inv.world hserver haccepted ?_ ?_ hfollows
    · intro b hb hbusy
      rw [ht.transit] at hb
      rcases Multiset.mem_cons.mp hb with rfl | hb
      · exact absurd hbusy hidle
      · rw [ht.transit', hes]
        exact Multiset.mem_add.mpr (Or.inl hb)
    · intro b hb
      rw [ht.transit', hes] at hb
      rcases Multiset.mem_add.mp hb with hb | hb
      · rw [ht.transit]
        exact Or.inl (Multiset.mem_cons_of_mem hb)
      · exact absurd hb (Multiset.notMem_zero b)

theorem Inboxes.Took.follows (ht : q.Took cfg host before a after es q')
    (ha : reverseMsg cfg a = none) (hes : ∀ b ∈ es, reverseMsg cfg b = none)
    (hrepo : q'.world.repo = q.world.repo) {g : GraphStore} (hg : q.Follows cfg g) :
    q'.Follows cfg g := by
  show DGDB.Follows cfg g q'.world.repo _
  rw [ht.coming ha, coming_eq_nil hes, List.append_nil, hrepo]
  exact hg

theorem Msg.IsSecondary.idle (h : a.msg.IsSecondary) : ¬ Busy cfg a := by
  rintro ⟨id, hid, hcarries, -⟩
  rw [h.request_id] at hcarries
  omega

theorem TakingTurns.store_reverse (h : TakingTurns cfg q)
    (ht : q.Took cfg host before a after es q') (hinv' : q'.Inv cfg) {m : NodeMsg}
    (hdst : a.dst ∈ cfg.repos) (hmsg : a.msg = .node m) (hsec : a.msg.IsSecondary)
    (hserver : q'.world.server = q.world.server) (haccepted : q'.world.accepted = q.world.accepted)
    (hrepo : q'.world.repo = Function.update q.world.repo a.dst ((q.world.repo a.dst).store m))
    (hes : es = []) : TakingTurns cfg q' := by
  have hnil : m.master_repos = [] := by
    rw [hmsg] at hsec
    exact hsec.2
  have ha : reverseMsg cfg a = some m := reverseMsg_eq_some.mpr ⟨hmsg, hdst, hnil⟩
  have howner : ∀ {b c}, b ∈ q.world.transit → reverseMsg cfg b = some c →
      b.dst = owner cfg.hosts c.nameA := by
    intro b c hb hbc
    obtain ⟨hbmsg, hbdst, -⟩ := reverseMsg_eq_some.mp hbc
    rw [h.inv.rows.routed b hb hbdst, hbmsg]
    rfl
  refine h.quiet ht hinv' hserver haccepted hsec.idle hes fun g hg => ?_
  show DGDB.Follows cfg g q'.world.repo (coming cfg (q'.inbox ++ q'.unsent))
  have hg : DGDB.Follows cfg g q.world.repo (coming cfg (q.inbox ++ q.unsent)) := hg
  have hsplit : coming cfg (q.inbox ++ q.unsent) =
      coming cfg before ++ m :: coming cfg (after ++ q.unsent) := by
    rw [ht.inbox, List.append_assoc, coming_append, List.cons_append]
    exact congrArg _ (List.filterMap_cons_some ha)
  rw [hsplit] at hg
  rw [ht.inbox', ht.unsent', hes, List.append_nil, List.append_assoc, coming_append, hrepo]
  refine hg.store_reverse (howner (by simp [ht.transit]) ha) fun c hc hname => ?_
  -- the older messages are for other repositories
  obtain ⟨b, hb, hbc⟩ := mem_coming.mp hc
  refine ht.skipped b hb ?_
  rw [howner (by rw [ht.transit]; simp [hb]) hbc, hname,
    ← howner (b := a) (by simp [ht.transit]) ha, ht.dst]

theorem TakingTurns.accept (h : TakingTurns cfg q) (hadm : q.world.Admissible)
    (ht : q.Took cfg host before a after es q') (hinv' : q'.Inv cfg)
    (hflag' : q'.world.server.cud_blocking = true → ∃ id, QueryPending q'.world.server id)
    (hdst : a.dst = cfg.address) (hmsg : a.msg.IsRequest)
    (hnone : ∀ id, q.world.server.pending id = none)
    (hw : q'.world = World.post { q.world with
        server := q.world.server.book a.src a.msg
        transit := ↑(before ++ after ++ q.unsent)
        accepted := q.world.accepted ++ [(q.world.server.current_request, a)] }
      [⟨cfg.address, owner cfg.hosts a.msg.name,
        a.msg.forwarded cfg.hosts q.world.server.current_request,
        q.world.server.current_request⟩])
    (hrepos : owner cfg.hosts a.msg.name ∈ cfg.repos) : TakingTurns cfg q' := by
  set n := q.world.server.current_request with hn
  set fwd : Envelope := ⟨cfg.address, owner cfg.hosts a.msg.name, a.msg.forwarded cfg.hosts n, n⟩
    with hfwd
  have hes : es = [fwd] := by
    have hsent := ht.sent
    rw [hw, World.post_sent] at hsent
    exact (List.append_cancel_left hsent).symm
  have hquiet : ∀ b ∈ q.world.transit, ¬ Busy cfg b := by
    rintro b hb hbusy
    obtain ⟨id, e, -, -, he, -⟩ := h.inv.world.entry_of_busy hb hbusy
    rw [hnone id] at he
    cases he
  have hunsent : ∀ b ∈ q.unsent, reverseMsg cfg b = none := fun b hb =>
    h.inv.unsent_none (fun c hc _ => hquiet c (by rw [h.inv.transit]; simp [hc])) hb
  have hrev : ∀ b ∈ es, reverseMsg cfg b = none := by
    intro b hb
    rw [hes] at hb
    rw [List.mem_singleton.mp hb]
    exact reverseMsg_forwarded
  have hfollows : q.Follows cfg (GraphStore.after q.world.requests) := by
    cases h.stage with
    | idle _ hg => exact hg
    | @serving init k r _ _ _ hserving =>
      exfalso
      cases hserving with
      | forwarded hpending => rw [hnone] at hpending; cases hpending
      | replied hpending => rw [hnone] at hpending; cases hpending
      | searching _ hpending => rw [hnone] at hpending; cases hpending
  have hfollows' : q'.Follows cfg (GraphStore.after q.world.requests) :=
    ht.follows (reverseMsg_of_dst (hdst ▸ cfg.apart)) hrev (by rw [hw]; rfl) hfollows
  have hpending' : q'.world.server.pending n = some ⟨a.src, a.msg.state⟩ := by
    rw [hw]
    simp [Process.book, Process.file, hn]
  have htransit' : ∀ b ∈ q'.world.transit, b ∈ q.world.transit ∨ b = fwd := by
    intro b hb
    rw [ht.transit', hes] at hb
    rcases Multiset.mem_add.mp hb with hb | hb
    · rw [ht.transit]
      exact Or.inl (Multiset.mem_cons_of_mem hb)
    · exact Or.inr (List.mem_singleton.mp hb)
  have hin : fwd ∈ q'.world.transit := by
    rw [ht.transit', hes]
    exact Multiset.mem_add.mpr (Or.inr (List.mem_singleton_self _))
  refine ⟨hinv', hflag', h.orderly.took ht hrev fun _ => hunsent, ?_, ?_⟩
  · rw [hw]
    refine h.texts.accept (h.inv.world.ledger.future n le_rfl) ?_
    exact (hmsg.forwarded cfg.hosts n).2.2
  · have haccepted : q'.world.accepted = q.world.accepted ++ [(n, a)] := by
      rw [hw]
      rfl
    refine Stage.serving haccepted hmsg (fun id hid => ?_) ?_
    · rw [hw]
      exact (Function.update_of_ne hid _ _).trans (hnone id)
    · cases hkind : a.msg with
      | query m =>
        have hfits : m.Fits := by
          have := hadm.fits a (by simp [ht.transit])
          rwa [hkind] at this
        have hdepth : toSizeT m.depth = m.depth.toNat := by
          have := hfits.depth
          unfold toSizeT
          omega
        rw [hkind] at hpending'
        have hle : m.depth.toNat ≤ 9 := by
          have := hfits.depth
          omega
        refine Serving.searching hkind hpending' (Scanning.start _ hle hdepth) ?_ ?_ hfollows'
        · intro b hb hbdst u hu
          rcases htransit' b hb with hb | rfl
          · have hplaced := h.inv.world.placed b hb
            exact absurd (hplaced.busy_of_query hbdst (by rw [hu]; rfl)).2 (hquiet b hb)
          · simp only [hfwd, hkind, Msg.forwarded, Msg.query.injEq] at hu
            subst hu
            have hpos := hfits.depth
            refine ⟨m.depth.toNat, [], ?_, ?_, rfl, rfl⟩
            · rw [← hdepth]
              rfl
            · simp only
              omega
        · intro b hb i hi
          rcases htransit' b hb with hb | rfl
          · exact absurd ((h.inv.world.placed b hb).busy_of_info hi) (hquiet b hb)
          · simp [hfwd, hkind, Msg.forwarded] at hi
      | response m => rw [hkind] at hmsg; exact hmsg.elim
      | info m => rw [hkind] at hmsg; exact hmsg.elim
      | register => rw [hkind] at hmsg; exact hmsg.elim
      | _ =>
        rw [hkind] at hpending'
        exact Serving.forwarded hpending' hin hrepos rfl hfollows'

/-- **The request that is being served is answered.** -/
theorem TakingTurns.answered (h : TakingTurns cfg q) (ht : q.Took cfg host before a after es q')
    (hinv' : q'.Inv cfg)
    (hflag' : q'.world.server.cud_blocking = true → ∃ id, QueryPending q'.world.server id)
    (hdst : a.dst = cfg.address) {init : List (ℕ × Envelope)} {n : ℕ} {r b : Envelope}
    (haccepted : q.world.accepted = init ++ [(n, r)])
    (haccepted' : q'.world.accepted = q.world.accepted)
    (hpending' : ∀ id, q'.world.server.pending id = none) (hrepo : q'.world.repo = q.world.repo)
    (hsent : q'.world.sent = q.world.sent ++ [b]) (hclient : b.dst ∉ cfg.repos)
    (hb : b.msg = .response ⟨(GraphStore.after (init.map fun p => p.2.msg)).answer r.msg, n⟩)
    (hfollows : q.Follows cfg ((GraphStore.after (init.map fun p => p.2.msg)).apply r.msg)) :
    TakingTurns cfg q' := by
  have hes : es = [b] := by
    have hsent' := ht.sent
    rw [hsent] at hsent'
    exact (List.append_cancel_left hsent').symm
  have hrev : ∀ c ∈ es, reverseMsg cfg c = none := by
    intro c hc
    rw [hes] at hc
    rw [List.mem_singleton.mp hc]
    exact reverseMsg_of_dst hclient
  have hnodup : ((init ++ [(n, r)]).map Prod.fst).Nodup := by
    rw [← haccepted, h.inv.world.ledger.numbers]
    exact List.nodup_range' _
  refine ⟨hinv', hflag', h.orderly.took ht hrev ?_, ?_, Stage.idle hpending' ?_⟩
  · rintro ⟨c, hc, -, hcdst⟩
    rw [hes] at hc
    rw [List.mem_singleton.mp hc] at hcdst
    exact absurd hcdst hclient
  · have htexts := h.texts
    rw [haccepted', haccepted, hsent]
    rw [haccepted] at htexts
    exact htexts.answer hnodup hb
  · rw [World.requests, haccepted', haccepted, List.map_append, List.map_singleton,
      GraphStore.after_append]
    exact ht.follows (reverseMsg_of_dst (hdst ▸ cfg.apart)) hrev hrepo hfollows

/-- A message that carries a request is of the one that is being served. -/
theorem TakingTurns.serving_of_busy (h : TakingTurns cfg q) (ha : a ∈ q.world.transit)
    (hbusy : Busy cfg a) : ∃ (init : List (ℕ × Envelope)) (n : ℕ) (r : Envelope) (e : Pending),
      q.world.accepted = init ++ [(n, r)] ∧ r.msg.IsRequest ∧
      (∀ id : ℤ, id ≠ n → q.world.server.pending id = none) ∧
      Serving cfg q.world n r (GraphStore.after (init.map fun p => p.2.msg)) (q.Follows cfg) ∧
      1 ≤ (n : ℤ) ∧ Carries cfg n a ∧ q.world.server.pending n = some e ∧ Awaits cfg e a := by
  obtain ⟨id, e, hid, hcarries, he, hawaits⟩ := h.inv.world.entry_of_busy ha hbusy
  cases h.stage with
  | idle hpending =>
    rw [hpending id] at he
    cases he
  | @serving init n r haccepted hrequest honly hserving =>
    have hn : id = n := by
      by_contra hne
      rw [honly id hne] at he
      cases he
    subst hn
    exact ⟨init, n, r, e, haccepted, hrequest, honly, hserving, hid, hcarries, he, hawaits⟩

theorem TakingTurns.write_served (h : TakingTurns cfg q) (ha : a ∈ q.world.transit)
    (hbusy : Busy cfg a) (hdst : a.dst ∈ cfg.repos) (hquery : a.msg.isQuery = false) :
    ∃ (init : List (ℕ × Envelope)) (n : ℕ) (r : Envelope),
      q.world.accepted = init ++ [(n, r)] ∧ r.msg.IsRequest ∧
      (∀ id : ℤ, id ≠ n → q.world.server.pending id = none) ∧ 1 ≤ (n : ℤ) ∧
      q.world.server.pending n = some ⟨r.src, none⟩ ∧ a.msg = r.msg.forwarded cfg.hosts n ∧
      q.Follows cfg (GraphStore.after (init.map fun p => p.2.msg)) := by
  obtain ⟨init, n, r, e, haccepted, hrequest, honly, hserving, hn, hcarries, he, hawaits⟩ :=
    h.serving_of_busy ha hbusy
  refine ⟨init, n, r, haccepted, hrequest, honly, hn, ?_⟩
  cases hserving with
  | @forwarded b hpending hb hbdst hmsg hg =>
    have hcb : Carries cfg n b :=
      ⟨hmsg ▸ (hrequest.forwarded cfg.hosts n).2.1, fun hclient => hclient.2 hbdst⟩
    obtain rfl := h.inv.world.carrier_unique hn ha hb hcarries hcb
    exact ⟨hpending, hmsg, hg⟩
  | @replied b hpending hb hbdst hmsg hg =>
    have hcb : Carries cfg n b := ⟨by rw [hmsg]; rfl, fun hclient => hclient.1 hbdst⟩
    obtain rfl := h.inv.world.carrier_unique hn ha hb hcarries hcb
    exact absurd (hbdst ▸ hdst) cfg.apart
  | searching _ hpending =>
    rw [hpending] at he
    cases he
    obtain ⟨u, t, queue, -, ⟨-, m, hm, -⟩ | ⟨haddr, -⟩⟩ := hawaits
    · rw [hm] at hquery
      cases hquery
    · exact absurd (haddr ▸ hdst) cfg.apart

theorem TakingTurns.reply (h : TakingTurns cfg q) (ht : q.Took cfg host before a after es q')
    (hinv' : q'.Inv cfg) (hdst : a.dst ∈ cfg.repos) {init : List (ℕ × Envelope)} {n : ℕ}
    {r b : Envelope} (haccepted : q.world.accepted = init ++ [(n, r)]) (hrequest : r.msg.IsRequest)
    (honly : ∀ id : ℤ, id ≠ n → q.world.server.pending id = none)
    (hpending : q.world.server.pending n = some ⟨r.src, none⟩)
    (hserver : q'.world.server = q.world.server)
    (haccepted' : q'.world.accepted = q.world.accepted) (horderly : Orderly cfg q')
    (hb : b ∈ es) (hbdst : b.dst = cfg.address)
    (hmsg : b.msg = .response ⟨(GraphStore.after (init.map fun p => p.2.msg)).answer r.msg, n⟩)
    (hfollows : q'.Follows cfg ((GraphStore.after (init.map fun p => p.2.msg)).apply r.msg)) :
    TakingTurns cfg q' where
  inv := hinv'
  flag := by
    rw [hserver]
    exact h.flag
  orderly := horderly
  texts := by
    rw [haccepted', ht.sent]
    refine h.texts.frame fun c hc => Or.inl ?_
    rw [ht.src c hc, ← ht.dst]
    exact World.Inv.src_ne_address hdst
  stage := by
    refine Stage.serving (haccepted'.trans haccepted) hrequest
      (fun id hid => by rw [hserver, honly id hid]) ?_
    refine Serving.replied (by rw [hserver, hpending]) ?_ hbdst hmsg hfollows
    rw [ht.transit']
    exact Multiset.mem_add.mpr (Or.inr hb)

theorem coming_reverses {m : NodeMsg} (hne : cfg.repos ≠ []) (hhosts : m.master_repos = cfg.hosts)
    (src : Host) (req : ℕ) : coming cfg (World.stamp src req (reverses m)) = spread m := by
  have hnil : m.master_repos ≠ [] := by
    rw [hhosts]
    exact List.cons_ne_nil _ _
  unfold reverses spread coming World.stamp
  rw [if_neg hnil, List.map_map, List.filterMap_map, ← List.filterMap_eq_map]
  refine List.filterMap_congr fun rel _ => ?_
  have howner := owner_mem cfg.self hne rel
  refine reverseMsg_eq_some.mpr ⟨rfl, ?_, rfl⟩
  show owner m.master_repos rel ∈ cfg.repos
  rw [hhosts]
  exact howner

/-- **A repository handles a create.** -/
theorem TakingTurns.store_create (h : TakingTurns cfg q) (hne : cfg.repos ≠ [])
    (ht : q.Took cfg host before a after es q') (hinv' : q'.Inv cfg) {m : NodeMsg}
    (hsrc : a.src = cfg.address) (hdst : a.dst ∈ cfg.repos) (hbusy : Busy cfg a)
    (hmsg : a.msg = .node m)
    (hw : q'.world = World.post
      { q.world with
        repo := Function.update q.world.repo a.dst ((q.world.repo a.dst).store m)
        transit := ↑(before ++ after ++ q.unsent) }
      (World.stamp a.dst a.req (reverses m ++ if m.request_id = 0 then []
        else [⟨cfg.address, .response ⟨storedReply (q.world.repo a.dst).storage m,
          m.request_id⟩⟩]))) : TakingTurns cfg q' := by
  have hmem : a ∈ q.world.transit := by simp [ht.transit]
  obtain ⟨init, n, r, haccepted, hrequest, honly, hn, hpending, hfwd, hg⟩ :=
    h.write_served hmem hbusy hdst (by rw [hmsg]; rfl)
  obtain ⟨m₀, hr⟩ : ∃ m₀, r.msg = .node m₀ := by
    rw [hmsg] at hfwd
    cases hkind : r.msg with
    | node m₀ => exact ⟨m₀, rfl⟩
    | _ => rw [hkind] at hfwd; cases hfwd
  have hm : m = ⟨m₀.nameA, m₀.attributes.map Attribute.wire, m₀.relations, n, cfg.hosts⟩ := by
    rw [hmsg, hr] at hfwd
    exact Msg.node.inj hfwd
  have hid : m.request_id ≠ 0 := by
    rw [hm]
    simp only
    omega
  set g := GraphStore.after (init.map fun p => p.2.msg) with hgdef
  have hes : es = World.stamp a.dst a.req (reverses m) ++ [⟨a.dst, cfg.address,
      .response ⟨storedReply (q.world.repo a.dst).storage m, m.request_id⟩, a.req⟩] := by
    have hsent := ht.sent
    rw [hw, World.post_sent, if_neg hid] at hsent
    rw [← List.append_cancel_left hsent]
    exact List.map_append
  have hrev : reverseMsg cfg a = none := by
    rw [Option.eq_none_iff_forall_not_mem]
    intro c hc
    obtain ⟨hcmsg, -, hnil⟩ := reverseMsg_eq_some.mp hc
    rw [hmsg, Msg.node.injEq] at hcmsg
    rw [← hcmsg, hm] at hnil
    cases hnil
  have hhost : a.dst = owner cfg.hosts m.nameA := by
    have hrouted := h.inv.rows.routed a hmem hdst
    rwa [hmsg] at hrouted
  have hnone : ∀ c ∈ coming cfg (q.inbox ++ q.unsent), c.nameA ≠ m.nameA := by
    have := h.none_coming ht hsrc hdst hrev
    rwa [hmsg] at this
  have hspread : coming cfg es = spread m := by
    rw [hes, coming_append, coming_reverses hne (by rw [hm]),
      coming_cons_of_none (reverseMsg_of_dst cfg.apart)]
    exact List.append_nil _
  have hcoming : coming cfg (q'.inbox ++ q'.unsent) =
      coming cfg (q.inbox ++ q.unsent) ++ spread m := by
    rw [ht.coming hrev, hspread]
  have hg : DGDB.Follows cfg g q.world.repo (coming cfg (q.inbox ++ q.unsent)) := hg
  refine h.reply ht hinv' hdst haccepted hrequest honly hpending (by rw [hw]; rfl)
    (by rw [hw]; rfl) ?_ (b := ⟨a.dst, cfg.address, .response ⟨storedReply
      (q.world.repo a.dst).storage m, m.request_id⟩, a.req⟩) (by simp [hes]) rfl ?_ ?_
  · refine Orderly.spread ht (ht.dst ▸ hdst) fun c hc hcsrc hcdst => ?_
    have hin : c ∈ q.world.transit := by
      rw [ht.transit]
      exact Multiset.mem_cons_of_mem hc
    obtain ⟨hcarries, hreq, -⟩ := (h.inv.world.placed c hin).from_server hcsrc hcdst
    exact h.inv.world.rest_idle h.stage.oneByOne ht.transit hbusy hc ⟨c.req, by omega, hcarries⟩
  · have hexists : m.nameA ∈ (q.world.repo a.dst).storage.nodes ↔ m₀.nameA ∈ g.nodes := by
      rw [hhost, show m₀.nameA = m.nameA by rw [hm], hg.nodes]
      refine (or_iff_left ?_).symm
      rintro ⟨c, hc, hcname⟩
      exact hnone c hc hcname
    show Msg.response ⟨storedReply (q.world.repo a.dst).storage m, m.request_id⟩ = _
    rw [hr]
    simp only [storedReply, GraphStore.answer, hexists]
    rw [hm]
  · show DGDB.Follows cfg _ q'.world.repo _
    rw [hcoming, hr, hw]
    have hcreate : g.create m = g.create m₀ := g.create_congr (by rw [hm]) (by rw [hm]) (by rw [hm])
    have hstore := hg.store_create hhost hnone
    rw [hcreate] at hstore
    exact hstore

theorem TakingTurns.acknowledge (h : TakingTurns cfg q)
    (ht : q.Took cfg host before a after es q') (hinv' : q'.Inv cfg) (hdst : a.dst ∈ cfg.repos)
    (hbusy : Busy cfg a) (hquery : a.msg.isQuery = false) (hnode : ∀ c, a.msg ≠ .node c)
    (hserver : q'.world.server = q.world.server) (haccepted' : q'.world.accepted = q.world.accepted)
    (hrepo : q'.world.repo = q.world.repo) (hes : ∀ b ∈ es, reverseMsg cfg b = none) {text : Str}
    (hreply : (⟨a.dst, cfg.address, .response ⟨text, a.msg.request_id⟩, a.req⟩ : Envelope) ∈ es)
    (htext : ∀ (r : Msg) (n : ℕ) (g : GraphStore), r.IsRequest →
      a.msg = r.forwarded cfg.hosts n → g.answer r = text ∧ ∀ c, r ≠ .node c) :
    TakingTurns cfg q' := by
  have hmem : a ∈ q.world.transit := by simp [ht.transit]
  obtain ⟨init, n, r, haccepted, hrequest, honly, hn, hpending, hfwd, hg⟩ :=
    h.write_served hmem hbusy hdst hquery
  obtain ⟨hanswer, hr⟩ := htext r.msg n (GraphStore.after (init.map fun p => p.2.msg)) hrequest hfwd
  have ha : reverseMsg cfg a = none := by
    rw [Option.eq_none_iff_forall_not_mem]
    intro c hc
    exact hnode c (reverseMsg_eq_some.mp hc).1
  refine h.reply ht hinv' hdst haccepted hrequest honly hpending hserver haccepted' ?_ hreply rfl
    ?_ ?_
  · refine h.orderly.took ht hes ?_
    rintro ⟨c, hc, hcsrc, -⟩
    rw [ht.src c hc, ← ht.dst] at hcsrc
    exact absurd (hcsrc ▸ hdst) cfg.apart
  · rw [hanswer, hfwd, (hrequest.forwarded cfg.hosts n).2.1]
  · rw [GraphStore.apply_of_not_node hr]
    exact ht.follows ha hes hrepo hg

theorem TakingTurns.query_served (h : TakingTurns cfg q) (ha : a ∈ q.world.transit)
    (hbusy : Busy cfg a)
    (hkind : a.msg.isQuery = true ∨ a.dst = cfg.address ∧ a.msg.isInfo = true) :
    ∃ (init : List (ℕ × Envelope)) (n : ℕ) (r : Envelope) (m : QueryMsg) (st : QueryState)
      (done : List (Str × ℕ)), q.world.accepted = init ++ [(n, r)] ∧ r.msg.IsRequest ∧
      r.msg = .query m ∧
      (∀ id : ℤ, id ≠ n → q.world.server.pending id = none) ∧ a.msg.request_id = n ∧
      q.world.server.pending n = some ⟨r.src, some st⟩ ∧
      Scanning (GraphStore.after (init.map fun p => p.2.msg)) m done st ∧
      (∀ a ∈ q.world.transit, a.dst ∈ cfg.repos → ∀ u, a.msg = .query u →
        ∃ t queue, st.node_queue = (u.nameA, t) :: queue ∧ u.depth = (t : ℕ) ∧
          u.leaf = m.leaf ∧ u.conditions = m.conditions) ∧
      (∀ a ∈ q.world.transit, ∀ i, a.msg = .info i → ∃ t queue,
        st.node_queue = (i.nameA, t) :: queue ∧
          ReplyOf (GraphStore.after (init.map fun p => p.2.msg)) m t i) ∧
      q.Follows cfg (GraphStore.after (init.map fun p => p.2.msg)) := by
  obtain ⟨init, n, r, e, haccepted, hrequest, honly, hserving, hn, hcarries, he, hawaits⟩ :=
    h.serving_of_busy ha hbusy
  -- the entry of a write waits for another kind of message
  have hwrite : e.state ≠ none := by
    intro hnone
    rw [Awaits, hnone] at hawaits
    rcases hawaits with ⟨hquery, hrepo⟩ | ⟨-, m, hm⟩
    · rcases hkind with hk | ⟨haddr, -⟩
      · rw [hk] at hquery
        cases hquery
      · exact absurd (haddr ▸ hrepo) cfg.apart
    · rw [hm] at hkind
      rcases hkind with hk | ⟨-, hk⟩ <;> cases hk
  cases hserving with
  | forwarded hpending => rw [hpending] at he; cases he; exact absurd rfl hwrite
  | replied hpending => rw [hpending] at he; cases he; exact absurd rfl hwrite
  | @searching m st done hmsg hpending hscanning hasked hreplied hg =>
    exact ⟨init, n, r, m, st, done, haccepted, hrequest, hmsg, honly, hcarries.1, hpending,
      hscanning, hasked, hreplied, hg⟩

/-- **A repository answers for a node of the query.** -/
theorem TakingTurns.ask (h : TakingTurns cfg q) (ht : q.Took cfg host before a after es q')
    (hinv' : q'.Inv cfg) (hdst : a.dst ∈ cfg.repos) {u : QueryMsg} (hmsg : a.msg = .query u)
    (hw : q'.world = World.post { q.world with transit := ↑(before ++ after ++ q.unsent) }
      [⟨a.dst, cfg.address, .info (queryReply (q.world.repo a.dst).storage u), a.req⟩]) :
    TakingTurns cfg q' := by
  have hmem : a ∈ q.world.transit := by simp [ht.transit]
  have hquery : a.msg.isQuery = true := by rw [hmsg]; rfl
  obtain ⟨hsrc, hbusy⟩ := (h.inv.world.placed a hmem).busy_of_query hdst hquery
  obtain ⟨init, n, r, m, st, done, haccepted, hrequest, hr, honly, -, hpending, hscanning, hasked,
    hreplied, hg⟩ := h.query_served hmem hbusy (Or.inl hquery)
  obtain ⟨t, queue, hqueue, hdepth, hleaf, hconditions⟩ := hasked a hmem hdst u hmsg
  set g := GraphStore.after (init.map fun p => p.2.msg) with hgdef
  have hes : es = [⟨a.dst, cfg.address, .info (queryReply (q.world.repo a.dst).storage u),
      a.req⟩] := by
    have hsent := ht.sent
    rw [hw, World.post_sent] at hsent
    exact (List.append_cancel_left hsent).symm
  have hrev : ∀ b ∈ es, reverseMsg cfg b = none := by
    intro b hb
    rw [hes] at hb
    rw [List.mem_singleton.mp hb]
    exact reverseMsg_of_dst cfg.apart
  have ha : reverseMsg cfg a = none := by
    unfold reverseMsg
    rw [hmsg]
  have hnone := h.none_coming ht hsrc hdst ha
  have hhost : a.dst = owner cfg.hosts u.nameA := by
    have hrouted := h.inv.rows.routed a hmem hdst
    rwa [hmsg] at hrouted
  have hrest : ∀ b ∈ before ++ after ++ q.unsent, ¬ Busy cfg b := fun b hb =>
    h.inv.world.rest_idle h.stage.oneByOne ht.transit hbusy hb
  have hold : ∀ b, b ∈ before ++ after ++ q.unsent → b ∈ q.world.transit := by
    intro b hb
    rw [ht.transit]
    exact Multiset.mem_cons_of_mem hb
  have htransit' : ∀ b ∈ q'.world.transit, b ∈ before ++ after ++ q.unsent ∨ b ∈ es := by
    intro b hb
    rw [ht.transit'] at hb
    exact Multiset.mem_add.mp hb
  -- every reverse relation of the name has been stored, so the rows are those of the store
  have hreply : ReplyOf g m t (queryReply (q.world.repo a.dst).storage u) := by
    have hg : DGDB.Follows cfg g q.world.repo (coming cfg (q.inbox ++ q.unsent)) := hg
    have hattributes := hg.attributes u.nameA
    have hrelations := hg.relations u.nameA
    have hnil : (coming cfg (q.inbox ++ q.unsent)).flatMap
        (fun c => if c.nameA = u.nameA then c.relations else []) = [] := by
      rw [List.flatMap_eq_nil_iff]
      intro c hc
      refine if_neg ?_
      have := hnone c hc
      rwa [hmsg] at this
    rw [hnil, List.append_nil, ← hhost] at hrelations
    rw [← hhost] at hattributes
    refine ⟨hrelations.symm, hattributes.symm, ?_⟩
    simp only [queryReply, GraphStore.valid, hattributes, hdepth, hleaf, hconditions]
  refine ⟨hinv', by rw [hw]; exact h.flag, h.orderly.took ht hrev ?_, ?_, ?_⟩
  · rintro ⟨c, hc, hcsrc, -⟩
    rw [ht.src c hc, ← ht.dst] at hcsrc
    exact absurd (hcsrc ▸ hdst) cfg.apart
  · rw [hw]
    refine h.texts.frame fun c hc => Or.inr ?_
    rw [List.mem_singleton.mp hc]
    rfl
  · refine Stage.serving (by rw [hw]; exact haccepted) hrequest
      (fun id hid => by rw [hw]; exact honly id hid) ?_
    refine Serving.searching hr (by rw [hw]; exact hpending) hscanning ?_ ?_
      (ht.follows ha hrev (by rw [hw]; rfl) hg)
    · intro b hb hbdst u' hu'
      rcases htransit' b hb with hb | hb
      · exact hasked b (hold b hb) hbdst u' hu'
      · rw [hes] at hb
        rw [List.mem_singleton.mp hb] at hu'
        cases hu'
    · intro b hb i hi
      rcases htransit' b hb with hb | hb
      · exact absurd ((h.inv.world.placed b (hold b hb)).busy_of_info hi) (hrest b hb)
      · rw [hes] at hb
        rw [List.mem_singleton.mp hb] at hi
        cases hi
        exact ⟨t, queue, hqueue, hreply⟩

/-- **The server takes a reply** after which the query goes on. -/
theorem TakingTurns.next (h : TakingTurns cfg q) (ht : q.Took cfg host before a after es q')
    (hinv' : q'.Inv cfg)
    (hflag' : q'.world.server.cud_blocking = true → ∃ id, QueryPending q'.world.server id)
    (hdst : a.dst = cfg.address) {i : InfoMsg} {client : Host} {st : QueryState} {t s : ℕ}
    {queue rest : List (Str × ℕ)} {v : Str} (hmsg : a.msg = .info i)
    (hpending : q.world.server.pending i.request_id = some ⟨client, some st⟩)
    (hqueue : st.node_queue = (i.nameA, t) :: queue)
    (hnext : (st.advance (i.nameA, t) queue i.wire).node_queue = (v, s) :: rest)
    (hw : q'.world = World.post
      { q.world with
        server := q.world.server.file i.request_id
          ⟨client, some (st.advance (i.nameA, t) queue i.wire)⟩
        transit := ↑(before ++ after ++ q.unsent) }
      [⟨cfg.address, owner cfg.hosts v,
        .query ⟨v, toInt s, st.leaf, st.attr, st.conditions, i.request_id⟩, a.req⟩]) :
    TakingTurns cfg q' := by
  have hmem : a ∈ q.world.transit := by simp [ht.transit]
  have hbusy := (h.inv.world.placed a hmem).busy_of_info hmsg
  obtain ⟨init, n, r, m, st₀, done, haccepted, hrequest, hr, honly, hid, hpending₀, hscanning,
    hasked, hreplied, hg⟩ := h.query_served hmem hbusy (Or.inr ⟨hdst, by rw [hmsg]; rfl⟩)
  have hid : i.request_id = n := by
    rw [hmsg] at hid
    exact hid
  rw [hid, hpending₀] at hpending
  cases hpending
  obtain ⟨t', queue', hqueue', hreply⟩ := hreplied a hmem i hmsg
  rw [hqueue] at hqueue'
  cases hqueue'
  have hdepth := hscanning.depth_le
  have hround := hscanning.round hqueue hreply
  have hes : es = [⟨cfg.address, owner cfg.hosts v,
      .query ⟨v, toInt s, st.leaf, st.attr, st.conditions, i.request_id⟩, a.req⟩] := by
    have hsent := ht.sent
    rw [hw, World.post_sent] at hsent
    exact (List.append_cancel_left hsent).symm
  have hrev : ∀ b ∈ es, reverseMsg cfg b = none := by
    intro b hb
    rw [hes] at hb
    rw [List.mem_singleton.mp hb]
    rfl
  have hrest : ∀ b ∈ before ++ after ++ q.unsent, ¬ Busy cfg b := fun b hb =>
    h.inv.world.rest_idle h.stage.oneByOne ht.transit hbusy hb
  have hplaced : ∀ b ∈ before ++ after ++ q.unsent, Placed cfg b := by
    intro b hb
    refine h.inv.world.placed b ?_
    rw [ht.transit]
    exact Multiset.mem_cons_of_mem hb
  have htransit' : ∀ b ∈ q'.world.transit, b ∈ before ++ after ++ q.unsent ∨ b ∈ es := by
    intro b hb
    rw [ht.transit'] at hb
    exact Multiset.mem_add.mp hb
  refine ⟨hinv', hflag', h.orderly.took ht hrev fun _ b hb => ?_, ?_, ?_⟩
  · exact h.inv.unsent_none (fun c hc _ => hrest c (List.mem_append_right _ hc)) hb
  · rw [hw]
    refine h.texts.frame fun c hc => Or.inr ?_
    rw [List.mem_singleton.mp hc]
    rfl
  · refine Stage.serving (by rw [hw]; exact haccepted) hrequest (fun id hne => ?_) ?_
    · rw [hw, hid]
      exact (Function.update_of_ne hne _ _).trans (honly id hne)
    have hadvanced : q'.world.server.pending n =
        some ⟨r.src, some (st.advance (i.nameA, t) queue i.wire)⟩ := by
      rw [hw, hid]
      exact Function.update_self _ _ _
    refine Serving.searching hr hadvanced hround ?_ ?_
      (ht.follows (reverseMsg_of_dst (hdst ▸ cfg.apart)) hrev (by rw [hw]; rfl) hg)
    · intro b hb hbdst u hu
      rcases htransit' b hb with hb | hb
      · have hbusy' := ((hplaced b hb).busy_of_query hbdst (by rw [hu]; rfl)).2
        exact absurd hbusy' (hrest b hb)
      · rw [hes] at hb
        rw [List.mem_singleton.mp hb] at hu
        cases hu
        have hs : s ≤ m.depth.toNat := (hround.search.dist (v, s) (by simp [hnext])).1
        have hleft : toInt s = (s : ℤ) := toInt_natCast (by omega)
        exact ⟨s, rest, hnext, by simp only [hleft], hscanning.leaf, hscanning.conditions⟩
    · intro b hb j hj
      rcases htransit' b hb with hb | hb
      · exact absurd ((hplaced b hb).busy_of_info hj) (hrest b hb)
      · rw [hes] at hb
        rw [List.mem_singleton.mp hb] at hj
        cases hj

/-- **The server takes the last reply** of a query. -/
theorem TakingTurns.complete (h : TakingTurns cfg q) (ht : q.Took cfg host before a after es q')
    (hinv' : q'.Inv cfg)
    (hflag' : q'.world.server.cud_blocking = true → ∃ id, QueryPending q'.world.server id)
    (hdst : a.dst = cfg.address) {i : InfoMsg} {client : Host} {st : QueryState} {t : ℕ}
    {queue : List (Str × ℕ)} (hmsg : a.msg = .info i)
    (hpending : q.world.server.pending i.request_id = some ⟨client, some st⟩)
    (hqueue : st.node_queue = (i.nameA, t) :: queue)
    (hempty : (st.advance (i.nameA, t) queue i.wire).node_queue = [])
    (hw : q'.world = World.post
      { q.world with
        server := { q.world.server.close i.request_id with cud_blocking := false }
        transit := ↑(before ++ after ++ q.unsent) }
      [⟨cfg.address, client, .response
        ⟨completeText (st.advance (i.nameA, t) queue i.wire).response, i.request_id⟩, a.req⟩]) :
    TakingTurns cfg q' := by
  have hmem : a ∈ q.world.transit := by simp [ht.transit]
  have hbusy := (h.inv.world.placed a hmem).busy_of_info hmsg
  obtain ⟨init, n, r, m, st₀, done, haccepted, -, hr, honly, hid, hpending₀, hscanning, -,
    hreplied, hg⟩ := h.query_served hmem hbusy (Or.inr ⟨hdst, by rw [hmsg]; rfl⟩)
  have hid : i.request_id = n := by
    rw [hmsg] at hid
    exact hid
  have hclient := (h.inv.world.client_of_pending hpending).2
  rw [hid, hpending₀] at hpending
  cases hpending
  obtain ⟨t', queue', hqueue', hreply⟩ := hreplied a hmem i hmsg
  rw [hqueue] at hqueue'
  cases hqueue'
  refine h.answered ht hinv' hflag' hdst haccepted (by rw [hw]; rfl) (fun id => ?_)
    (by rw [hw]; rfl) (by rw [hw]; rfl) hclient ?_ ?_
  · rw [hw, hid]
    by_cases hne : id = n
    · subst hne
      exact Function.update_self _ _ _
    · exact (Function.update_of_ne hne _ _).trans (honly id hne)
  · rw [hr, (hscanning.round hqueue hreply).complete hempty, hid]
  · rw [hr]
    exact hg

theorem TakingTurns.response (h : TakingTurns cfg q) (ht : q.Took cfg host before a after es q')
    (hinv' : q'.Inv cfg)
    (hflag' : q'.world.server.cud_blocking = true → ∃ id, QueryPending q'.world.server id)
    (hdst : a.dst = cfg.address) {m : ResponseMsg} {client : Host} (hmsg : a.msg = .response m)
    (hpending : q.world.server.pending m.request_id = some ⟨client, none⟩)
    (hw : q'.world = World.post
      { q.world with
        server := q.world.server.close m.request_id
        transit := ↑(before ++ after ++ q.unsent) }
      [⟨cfg.address, client, .response m, a.req⟩]) : TakingTurns cfg q' := by
  have hmem : a ∈ q.world.transit := by simp [ht.transit]
  have hrange := (h.inv.world.ledger.id_range hpending).1
  have hbusy : Busy cfg a :=
    ⟨m.request_id, hrange, by rw [hmsg]; rfl, fun hclient => hclient.1 hdst⟩
  have hclient := (h.inv.world.client_of_pending hpending).2
  obtain ⟨init, n, r, e, haccepted, hrequest, honly, hserving, hn, hcarries, he, -⟩ :=
    h.serving_of_busy hmem hbusy
  have hid : m.request_id = n := by
    have := hcarries.1
    rwa [hmsg] at this
  rw [hid] at hpending
  cases hserving with
  | @forwarded b _ hb hbdst hbmsg _ =>
    have hcb : Carries cfg n b :=
      ⟨hbmsg ▸ (hrequest.forwarded cfg.hosts n).2.1, fun hclient => hclient.2 hbdst⟩
    obtain rfl := h.inv.world.carrier_unique hn hmem hb hcarries hcb
    exact absurd (hdst ▸ hbdst) cfg.apart
  | @replied b _ hb hbdst hbmsg hg =>
    have hcb : Carries cfg n b := ⟨by rw [hbmsg]; rfl, fun hclient => hclient.1 hbdst⟩
    obtain rfl := h.inv.world.carrier_unique hn hmem hb hcarries hcb
    refine h.answered ht hinv' hflag' hdst haccepted (by rw [hw]; rfl) (fun id => ?_)
      (by rw [hw]; rfl) (by rw [hw]; rfl) hclient (by rw [← hmsg, hbmsg]) hg
    rw [hw, hid]
    by_cases hne : id = n
    · subst hne
      exact Function.update_self _ _ _
    · exact (Function.update_of_ne hne _ _).trans (honly id hne)
  | searching _ hpending' =>
    rw [hpending] at hpending'
    cases hpending'

/-- The server takes a request only when those before it have been answered. -/
def InTurn (cfg : Config) (q : Inboxes) : Action → Prop
  | .take host => ∀ a ∈ q.inbox.find? fun a => decide (a.dst = host),
      host = cfg.address ∧ a.msg.IsRequest →
        ∀ p ∈ q.world.accepted, answers cfg p.1 q.world.sent ≠ []
  | _ => True

instance (cfg : Config) (q : Inboxes) : DecidablePred (InTurn cfg q)
  | .take _ => inferInstanceAs (Decidable (∀ _ ∈ _, _ → _))
  | .request _ _ => inferInstanceAs (Decidable True)
  | .send _ => inferInstanceAs (Decidable True)

theorem Placed.write_cases (h : Placed cfg a) (hdst : a.dst ∈ cfg.repos) :
    a.msg.IsSecondary ∨ a.src = cfg.address ∧ Busy cfg a := by
  cases h with
  | request haddr => exact absurd (haddr ▸ hdst) cfg.apart
  | answer _ hclient => exact absurd hdst hclient.2
  | secondary _ _ hsec => exact Or.inl hsec
  | forwarded hsrc _ _ hid hreq =>
    exact Or.inr ⟨hsrc, a.req, by omega, hid, fun hclient => hclient.2 hdst⟩
  | reply _ haddr => exact absurd (haddr ▸ hdst) cfg.apart

theorem TakingTurns.updated (h : TakingTurns cfg q) (ht : q.Took cfg host before a after es q')
    (hinv' : q'.Inv cfg) {m : UpdateMsg} (hdst : a.dst ∈ cfg.repos) (hmsg : a.msg = .update m)
    (hw : q'.world = World.post { q.world with transit := ↑(before ++ after ++ q.unsent) }
      [⟨a.dst, cfg.address, .response ⟨updatedText, m.request_id⟩, a.req⟩]) :
    TakingTurns cfg q' := by
  have hplaced := h.inv.world.placed a (by simp [ht.transit])
  obtain hsec | ⟨-, hbusy⟩ := hplaced.write_cases hdst
  · rw [hmsg] at hsec
    exact hsec.elim
  have hes : es = [⟨a.dst, cfg.address, .response ⟨updatedText, m.request_id⟩, a.req⟩] := by
    refine List.append_cancel_left (ht.sent.symm.trans ?_)
    rw [hw]
    exact World.post_sent _
  have hreply : (⟨a.dst, cfg.address, .response ⟨updatedText, a.msg.request_id⟩, a.req⟩ : Envelope)
      ∈ es := by
    rw [hes, hmsg]
    exact List.mem_singleton_self _
  refine h.acknowledge ht hinv' hdst hbusy (by rw [hmsg]; rfl) (by simp [hmsg])
    (by rw [hw]; rfl) (by rw [hw]; rfl) (by rw [hw]; rfl) ?_ hreply ?_
  · intro b hb
    rw [hes] at hb
    rw [List.mem_singleton.mp hb]
    exact reverseMsg_of_dst cfg.apart
  · intro r n g hr heq
    rw [hmsg] at heq
    cases r with
    | update c => exact ⟨rfl, nofun⟩
    | _ => cases heq

theorem TakingTurns.deleted (h : TakingTurns cfg q) (ht : q.Took cfg host before a after es q')
    (hinv' : q'.Inv cfg) {m : DeleteMsg} (hdst : a.dst ∈ cfg.repos) (hmsg : a.msg = .delete m)
    (hw : q'.world = World.post { q.world with transit := ↑(before ++ after ++ q.unsent) }
      (World.stamp a.dst a.req (reversesDelete m ++ if m.request_id = 0 then []
        else [⟨cfg.address, .response ⟨deletedText m.object, m.request_id⟩⟩]))) :
    TakingTurns cfg q' := by
  have hplaced := h.inv.world.placed a (by simp [ht.transit])
  have hes : es = World.stamp a.dst a.req (reversesDelete m ++ if m.request_id = 0 then []
      else [⟨cfg.address, .response ⟨deletedText m.object, m.request_id⟩⟩]) := by
    refine List.append_cancel_left (ht.sent.symm.trans ?_)
    rw [hw]
    exact World.post_sent _
  obtain hsec | ⟨-, hbusy⟩ := hplaced.write_cases hdst
  · have hnil : es = [] := by
      rw [hmsg] at hsec
      rw [hes]
      simp [reversesDelete, hsec.1, hsec.2, World.stamp]
    refine h.quiet ht hinv' (by rw [hw]; rfl) (by rw [hw]; rfl) hsec.idle hnil fun g hg => ?_
    exact ht.follows (by unfold reverseMsg; rw [hmsg]) (by simp [hnil]) (by rw [hw]; rfl) hg
  · have hid : m.request_id ≠ 0 := by
      obtain ⟨id, hid, hcarries, -⟩ := hbusy
      rw [hmsg] at hcarries
      simp only [Msg.request_id] at hcarries
      omega
    rw [if_neg hid] at hes
    have hreply : (⟨a.dst, cfg.address, .response ⟨deletedText m.object, a.msg.request_id⟩, a.req⟩
        : Envelope) ∈ es := by
      rw [hes, hmsg]
      exact List.mem_map.mpr ⟨_, List.mem_append_right _ (List.mem_singleton_self _), rfl⟩
    refine h.acknowledge ht hinv' hdst hbusy (by rw [hmsg]; rfl) (by simp [hmsg])
      (by rw [hw]; rfl) (by rw [hw]; rfl) (by rw [hw]; rfl) ?_ hreply ?_
    · -- the `D`s to the other side and the reply are no `C`s
      intro b hb
      rw [hes] at hb
      obtain ⟨s, hs, rfl⟩ := List.mem_map.mp hb
      rcases List.mem_append.mp hs with hs | hs
      · unfold reversesDelete at hs
        split_ifs at hs
        · rw [List.mem_singleton.mp hs]
          rfl
        · exact absurd hs List.not_mem_nil
      · rw [List.mem_singleton.mp hs]
        rfl
    · intro r n g hr heq
      rw [hmsg] at heq
      cases r with
      | delete c =>
        refine ⟨?_, fun c' hc' => ?_⟩
        · rw [Msg.delete.inj heq]
          rfl
        · cases hc'
      | _ => cases heq

theorem TakingTurns.take (h : TakingTurns cfg q) (hadm : q.world.Admissible) (hne : cfg.repos ≠ [])
    (ht : q.Took cfg host before a after es q') (hinv' : q'.Inv cfg)
    (hinturn : InTurn cfg q (.take host)) : TakingTurns cfg q' := by
  have hflag' := ht.turn.flag h.inv.world h.flag
  have hplaced := h.inv.world.placed a (by simp [ht.transit])
  have hnone : a.dst = cfg.address → a.msg.IsRequest →
      ∀ id, q.world.server.pending id = none := fun hdst hmsg =>
    (h.inv.quiet (hinturn a ht.oldest ⟨ht.dst ▸ hdst, hmsg⟩)).1
  have hturn := ht.turn
  have hsent := ht.sent
  generalize hw : q'.world = w' at hturn hsent hflag'
  have hes : ∀ {out : List Envelope}, w'.sent = q.world.sent ++ out → es = out := fun heq =>
    List.append_cancel_left (hsent.symm.trans heq)
  cases hturn with
  | busy hdst hsrc hmsg hwrite hbusy =>
    obtain ⟨id, client, st, hpending⟩ := h.flag hbusy
    rw [hnone hdst hmsg id] at hpending
    cases hpending
  | accept hdst hsrc hmsg hfree =>
    exact h.accept hadm ht hinv' (hw ▸ hflag') hdst hmsg (hnone hdst hmsg) hw
      (owner_mem cfg.self hne _)
  | response hdst hsrc hmsg hpending =>
    exact h.response ht hinv' (hw ▸ hflag') hdst hmsg hpending hw
  | complete hdst hsrc hmsg hpending hqueue hempty =>
    exact h.complete ht hinv' (hw ▸ hflag') hdst hmsg hpending hqueue hempty hw
  | next hdst hsrc hmsg hpending hqueue hnext hv =>
    exact h.next ht hinv' (hw ▸ hflag') hdst hmsg hpending hqueue hnext hw
  | @stored m hdst hmsg hhosts hrels =>
    rcases hplaced.write_cases hdst with hsec | ⟨hsrc, hbusy⟩
    · refine h.store_reverse ht hinv' hdst hmsg hsec (by rw [hw]; rfl) (by rw [hw]; rfl)
        (by rw [hw]; rfl) (hes ?_)
      rw [hmsg] at hsec
      simp [World.post_sent, reverses, hsec.1, hsec.2, World.stamp]
    · exact h.store_create hne ht hinv' hsrc hdst hbusy hmsg hw
  | asked hdst hmsg => exact h.ask ht hinv' hdst hmsg hw
  | updated hdst hmsg => exact h.updated ht hinv' hdst hmsg hw
  | deleted hdst hmsg hhosts hrel => exact h.deleted ht hinv' hdst hmsg hw
  | taken hdst =>
    refine h.quiet ht hinv' (by rw [hw]) (by rw [hw]) ?_ (hes (by simp)) fun g hg =>
      ht.follows (reverseMsg_of_dst hdst.2) ?_ (by rw [hw]) hg
    · rintro ⟨id, hid, -, hclient⟩
      exact hclient hdst
    · have hnil : es = [] := hes (List.append_nil _).symm
      simp [hnil]

theorem TakingTurns.send (h : TakingTurns cfg q) {l₁ l₂ : List Envelope}
    (hunsent : q.unsent = l₁ ++ a :: l₂) (hl₁ : ∀ b ∈ l₁, b.src ≠ a.src)
    (hinv' : Inboxes.Inv cfg ⟨q.world, q.inbox ++ [a], l₁ ++ l₂⟩) :
    TakingTurns cfg ⟨q.world, q.inbox ++ [a], l₁ ++ l₂⟩ where
  inv := hinv'
  flag := h.flag
  orderly := h.orderly.send hunsent q.world
  texts := h.texts
  stage := by
    refine h.stage.frame h.inv.world rfl rfl (fun b hb _ => hb) (fun b hb => Or.inl hb) ?_
    intro g hg
    show DGDB.Follows cfg g q.world.repo _
    rw [h.inv.coming_send h.stage.oneByOne hunsent hl₁]
    exact hg

theorem TakingTurns.request (h : TakingTurns cfg q) {client : Host} (hclient : cfg.IsClient client)
    {msg : Msg} (hmsg : msg.IsRequest)
    (hinv' : Inboxes.Inv cfg ⟨q.world.post [⟨client, cfg.address, msg, 0⟩],
      q.inbox ++ [⟨client, cfg.address, msg, 0⟩], q.unsent⟩) :
    TakingTurns cfg ⟨q.world.post [⟨client, cfg.address, msg, 0⟩],
      q.inbox ++ [⟨client, cfg.address, msg, 0⟩], q.unsent⟩ where
  inv := hinv'
  flag := h.flag
  orderly := h.orderly.request hclient msg _
  texts := by
    refine h.texts.frame fun b hb => Or.inl ?_
    rw [List.mem_singleton.mp hb]
    exact hclient.1
  stage := by
    refine h.stage.frame h.inv.world rfl rfl ?_ ?_ ?_
    · intro b hb _
      rw [World.post_transit]
      exact Multiset.mem_add.mpr (Or.inl hb)
    · intro b hb
      rw [World.post_transit] at hb
      rcases Multiset.mem_add.mp hb with hb | hb
      · exact Or.inl hb
      · rw [Multiset.mem_coe, List.mem_singleton] at hb
        subst hb
        refine Or.inr ⟨fun hdst => absurd hdst cfg.apart, fun i hi => ?_⟩
        rw [show msg = .info i from hi] at hmsg
        exact hmsg.elim
    · intro g hg
      show DGDB.Follows cfg g q.world.repo _
      have hnone : reverseMsg cfg ⟨client, cfg.address, msg, 0⟩ = none :=
        reverseMsg_of_dst cfg.apart
      rw [List.append_assoc, coming_append, List.singleton_append, coming_cons_of_none hnone,
        ← coming_append]
      exact hg

theorem TakingTurns.start (cfg : Config) : TakingTurns cfg (Inboxes.start cfg) where
  inv := Inboxes.Inv.start cfg
  flag := nofun
  orderly := Orderly.start cfg
  texts := by
    intro init p rest heq
    cases init <;> cases heq
  stage := by
    refine Stage.idle (fun _ => rfl) ⟨fun _ => rfl, fun _ => rfl, fun x => ?_, nofun⟩
    show x ∈ (∅ : Finset Str) ↔ x ∈ ([] : List Str) ∨ ∃ m ∈ ([] : List NodeMsg), m.nameA = x
    simp

theorem TakingTurns.step (h : TakingTurns cfg q) (hadm : q.world.Admissible) (hne : cfg.repos ≠ [])
    {e : Action} (hinturn : InTurn cfg q e) (hstep : q.step cfg e = some q') :
    TakingTurns cfg q' := by
  have hinv' := h.inv.step hadm hne hstep
  cases e with
  | request client msg =>
    obtain ⟨hclient, hmsg, rfl⟩ := Inboxes.step_request hstep
    exact h.request hclient hmsg hinv'
  | take host =>
    obtain ⟨before, a, after, es, ht⟩ := h.inv.took hadm hne hstep
    exact h.take hadm hne ht hinv' hinturn
  | send host =>
    obtain ⟨l₁, a, l₂, hunsent, hl₁, hsrc, rfl⟩ := Inboxes.step_send hstep
    exact h.send hunsent (by rwa [hsrc]) hinv'

/-- With no message left, no request is being served and no reverse relation is coming. -/
theorem TakingTurns.settled (h : TakingTurns cfg q) (hinbox : q.inbox = [])
    (hunsent : q.unsent = []) :
    DGDB.Follows cfg (GraphStore.after q.world.requests) q.world.repo [] ∧
      ∀ id, q.world.server.pending id = none := by
  have hempty : q.world.transit = 0 := by
    rw [h.inv.transit, hinbox, hunsent]
    rfl
  have hnone : ∀ id, q.world.server.pending id = none := by
    intro id
    rw [Option.eq_none_iff_forall_not_mem]
    intro e he
    obtain ⟨a, ha, -⟩ := h.inv.world.ledger.awaits id e he
    rw [hempty, Multiset.filter_zero] at ha
    exact absurd ha.symm (Multiset.singleton_ne_zero a)
  refine ⟨?_, hnone⟩
  cases h.stage with
  | idle _ hfollows =>
    have hfollows : DGDB.Follows cfg _ q.world.repo (coming cfg (q.inbox ++ q.unsent)) := hfollows
    rwa [hinbox, hunsent] at hfollows
  | @serving init n r _ _ _ hserving =>
    obtain ⟨e, he⟩ : ∃ e, q.world.server.pending n = some e := by
      cases hserving with
      | forwarded hpending => exact ⟨_, hpending⟩
      | replied hpending => exact ⟨_, hpending⟩
      | searching _ hpending => exact ⟨_, hpending⟩
    rw [hnone n] at he
    cases he

end Step

/-! ## Whole runs -/

section Runs

variable {cfg : Config} {q : Inboxes}

/-- **The deployment is the graph store.** In every run in which the messages fit the wire, names
start with an ASCII byte and fewer than 1000 requests are accepted, and in which the server takes a
request only when those before it have been answered, each request gets the answer of the store
after the requests before it, and goes to the client that sent it; and once no message is left, each
request has its answer and the repositories have the nodes, relations and attributes of the store
after all of them, each row once and in the same order. -/
theorem store_refined (hne : cfg.repos ≠ []) {es : List Action}
    (hadm : Along (Inboxes.step cfg) (fun q => q.world.Admissible) (Inboxes.start cfg) es)
    (hturns : Meets (Inboxes.step cfg) (InTurn cfg) (Inboxes.start cfg) es)
    (hrun : run (Inboxes.step cfg) (Inboxes.start cfg) es = some q) :
    (∀ init p rest, q.world.accepted = init ++ p :: rest → ∀ b ∈ answers cfg p.1 q.world.sent,
      b.dst = p.2.src ∧
        b.msg = .response ⟨(GraphStore.after (init.map fun p => p.2.msg)).answer p.2.msg, p.1⟩) ∧
    (q.inbox = [] → q.unsent = [] →
      (∀ p ∈ q.world.accepted, ∃ b, answers cfg p.1 q.world.sent = [b]) ∧
      ∀ x, (q.world.tables cfg).relations x =
          (GraphStore.after q.world.requests).tables.relations x ∧
        (q.world.tables cfg).attributes x =
          (GraphStore.after q.world.requests).tables.attributes x ∧
        (x ∈ (q.world.repo (owner cfg.hosts x)).storage.nodes ↔
          x ∈ (GraphStore.after q.world.requests).nodes)) := by
  have h : TakingTurns cfg q := (Along.of_step (fun s e s' hA _ hC hI hs => hI.step hA hne hC hs)
    (TakingTurns.start cfg) hadm hturns).last hrun
  refine ⟨fun init p rest heq b hb => ⟨?_, h.texts init p rest heq b hb⟩, fun hinbox hunsent => ?_⟩
  · have hmem : p ∈ q.world.accepted := by simp [heq]
    have hpending : q.world.server.pending p.1 = none := by
      by_contra hne
      rw [h.inv.world.ledger.unanswered p hmem hne] at hb
      exact absurd hb List.not_mem_nil
    obtain ⟨c, hc, hdst⟩ := h.inv.world.ledger.answered p hmem hpending
    rw [hc] at hb
    rwa [List.mem_singleton.mp hb]
  · obtain ⟨hfollows, hnone⟩ := h.settled hinbox hunsent
    refine ⟨fun p hp => ?_, fun x => ⟨?_, ?_, ?_⟩⟩
    · obtain ⟨b, hb, -⟩ := h.inv.world.ledger.answered p hp (hnone p.1)
      exact ⟨b, hb⟩
    · rw [hfollows.relations x]
      exact (List.append_nil _).symm
    · exact (hfollows.attributes x).symm
    · rw [hfollows.nodes x]
      simp

end Runs

/-- Client 7 creates a node, client 8 queries it, and client 9 creates the node that it is related
to, each after the answer of the one before. -/
def threeInTurn : List Action :=
  let server := oneRepository.address
  let repository : Host := ⟨str "10.0.0.2", 50001⟩
  createThenQuery ++ .take server :: serveQuery ++
    [.request (clientHost 9) (.node ⟨str "b", [], [], 0, []⟩), .take server, .send server,
      .take repository, .send repository, .take server, .send server, .take (clientHost 9)]

/-- The third request is answered that its node exists: the reverse relation has created it. -/
theorem store_refined_three : ∃ (q : Inboxes) (b : Envelope),
    q.world.requests = [.node ⟨str "a", [], [str "b"], 0, []⟩,
      .query ⟨str "b", 1, false, false, [], 0⟩, .node ⟨str "b", [], [], 0, []⟩] ∧
    answers oneRepository 3 q.world.sent = [b] ∧ b.dst = clientHost 9 ∧
    b.msg = .response ⟨existsText ++ storedText, 3⟩ ∧
    ∀ x, (q.world.tables oneRepository).relations x =
      (GraphStore.after q.world.requests).tables.relations x := by
  have hrun : ∃ q, run (Inboxes.step oneRepository) (Inboxes.start oneRepository) threeInTurn =
      some q ∧ q.inbox = [] ∧ q.unsent = [] ∧
      q.world.accepted = [(1, ⟨clientHost 7, oneRepository.address,
          .node ⟨str "a", [], [str "b"], 0, []⟩, 0⟩),
        (2, ⟨clientHost 8, oneRepository.address,
          .query ⟨str "b", 1, false, false, [], 0⟩, 0⟩),
        (3, ⟨clientHost 9, oneRepository.address, .node ⟨str "b", [], [], 0, []⟩, 0⟩)] :=
    exists_of_check (by decide +kernel)
  obtain ⟨q, hq, hinbox, hunsent, haccepted⟩ := hrun
  obtain ⟨hanswers, hsettled⟩ := store_refined (show oneRepository.repos ≠ [] by decide)
    (by decide +kernel) (by decide +kernel) hq
  obtain ⟨hanswered, htables⟩ := hsettled hinbox hunsent
  have hlast : (3, (⟨clientHost 9, oneRepository.address,
      .node ⟨str "b", [], [], 0, []⟩, 0⟩ : Envelope)) ∈ q.world.accepted := by
    rw [haccepted]
    simp
  obtain ⟨b, hb⟩ := hanswered _ hlast
  have hmem : b ∈ answers oneRepository 3 q.world.sent := by
    show b ∈ answers oneRepository ((3 : ℕ) : ℤ) q.world.sent
    rw [hb]
    exact List.mem_singleton_self b
  obtain ⟨hdst, hmsg⟩ := hanswers [_, _] (3, _) [] haccepted b hmem
  exact ⟨q, b, by rw [World.requests, haccepted]; rfl, hb, hdst, hmsg, fun x => (htables x).1⟩

end DGDB
