import Mathlib
import DGDB.Delivery
import DGDB.Exclusion

/-!
# Requests and replies

Every turn keeps the invariant of a deployment, and what the invariant says about the correlation of
requests and replies in every run.
-/

namespace DGDB

open EventSystem

/-! ## The ledger after a turn -/

section Filters

variable {cfg : Config} {id : ℤ} {a b : Envelope} {rest : Multiset Envelope}
  {sent es : List Envelope}

theorem not_carries_client (h : cfg.IsClient a.dst) : ¬ Carries cfg id a := fun hc => hc.2 h

theorem not_carries_id (h : a.msg.request_id ≠ id) : ¬ Carries cfg id a := fun hc => h hc.1

theorem filter_post (es : List Envelope) :
    (rest + (es : Multiset Envelope)).filter (Carries cfg id) =
      rest.filter (Carries cfg id) +
        (es.filter fun b => decide (Carries cfg id b) : List Envelope) := by
  rw [Multiset.filter_add, Multiset.filter_coe]

theorem filter_frame (ha : ¬ Carries cfg id a) (hes : ∀ b ∈ es, ¬ Carries cfg id b) :
    (rest + (es : Multiset Envelope)).filter (Carries cfg id) =
      (a ::ₘ rest).filter (Carries cfg id) := by
  have hnil : es.filter (fun b => decide (Carries cfg id b)) = [] := by
    rw [List.filter_eq_nil_iff]
    intro b hb
    simpa using hes b hb
  rw [filter_post, hnil, Multiset.filter_cons_of_neg _ ha, Multiset.coe_nil, add_zero]

theorem filter_rest (hfilter : (a ::ₘ rest).filter (Carries cfg id) = {a}) (ha : Carries cfg id a) :
    rest.filter (Carries cfg id) = 0 := by
  rw [Multiset.filter_cons_of_pos _ ha] at hfilter
  exact (Multiset.cons_inj_right a).mp hfilter

theorem answers_append : answers cfg id (sent ++ es) = answers cfg id sent ++ answers cfg id es :=
  List.filter_append ..

theorem answers_frame (h : ∀ b ∈ es, b.src ≠ cfg.address ∨ b.msg.isResponse = false ∨
    b.msg.request_id ≠ id) : answers cfg id (sent ++ es) = answers cfg id sent := by
  have hnil : answers cfg id es = [] := by
    unfold answers
    rw [List.filter_eq_nil_iff]
    intro b hb
    have := h b hb
    simp only [decide_eq_true_eq]
    rintro ⟨hsrc, hresponse, hid⟩
    rcases this with h | h | h
    · exact h hsrc
    · rw [hresponse] at h
      cases h
    · exact h hid
  rw [answers_append, hnil, List.append_nil]

end Filters

theorem Msg.IsSecondary.request_id {m : Msg} (h : m.IsSecondary) : m.request_id = 0 := by
  cases m with
  | node m => exact h.1
  | delete m => exact h.1
  | _ => exact h.elim

namespace World.Inv

variable {cfg : Config} {w : World} {a b : Envelope} {rest : Multiset Envelope}
  {es : List Envelope}

/-- Secondary messages, as repositories send them. -/
def Secondaries (cfg : Config) (es : List Envelope) : Prop :=
  ∀ b ∈ es, b.src ∈ cfg.repos ∧ b.dst ∈ cfg.repos ∧ b.msg.IsSecondary

theorem secondaries_nil : Secondaries cfg [] := fun _ hb => absurd hb List.not_mem_nil

theorem src_ne_address {h : Host} (hmem : h ∈ cfg.repos) : h ≠ cfg.address := by
  rintro rfl
  exact cfg.apart hmem

/-- A turn that takes no request and answers none. -/
theorem frame_ledger (h : w.Inv cfg) (htransit : w.transit = a ::ₘ rest)
    (ha : ∀ id, 1 ≤ id → ¬ Carries cfg id a)
    (hes : ∀ id, 1 ≤ id → ∀ b ∈ es, ¬ Carries cfg id b ∧ (b.src ≠ cfg.address ∨
      b.msg.isResponse = false ∨ b.msg.request_id ≠ id)) :
    Ledger cfg w.server.pending w.server.current_request w.accepted (rest + es) (w.sent ++ es) := by
  refine h.ledger.frame (fun id hid => ?_) fun id hid => ?_
  · rw [htransit]
    exact filter_frame (ha id hid) fun b hb => (hes id hid b hb).1
  · exact answers_frame fun b hb => (hes id hid b hb).2

theorem reply_ledger (h : w.Inv cfg) (htransit : w.transit = a ::ₘ rest) (hdst : a.dst ∈ cfg.repos)
    (hid : a.msg.request_id = a.req) (hreq : 1 ≤ a.req) (hes : Secondaries cfg es)
    (hbsrc : b.src = a.dst) (hbdst : b.dst = cfg.address)
    (hbid : b.msg.request_id = a.msg.request_id) (hawaits : ∀ e, Awaits cfg e a → Awaits cfg e b) :
    Ledger cfg w.server.pending w.server.current_request w.accepted
      (rest + ((es ++ [b] : List Envelope) : Multiset Envelope)) (w.sent ++ (es ++ [b])) := by
  have hcarries : Carries cfg a.msg.request_id a := ⟨rfl, fun hclient => hclient.2 hdst⟩
  obtain ⟨e, he, hfilter, ha⟩ := h.ledger.pending_of_carries (a := a) (by simp [htransit])
    (by omega) hcarries
  have hquiet : ∀ id : ℤ, 1 ≤ id → ∀ c ∈ es, ¬ Carries cfg id c := by
    intro id hpos c hc
    refine not_carries_id ?_
    rw [(hes c hc).2.2.request_id]
    omega
  rw [htransit] at hfilter
  refine h.ledger.move he (hawaits e ha) ?_ (fun id' hpos hne => ?_) fun id' hpos => ?_
  · have hb : Carries cfg a.msg.request_id b := by
      refine ⟨hbid, fun hclient => hclient.1 hbdst⟩
    have hnil : es.filter (fun c => decide (Carries cfg a.msg.request_id c)) = [] := by
      rw [List.filter_eq_nil_iff]
      intro c hc
      simpa using hquiet _ (by omega) c hc
    rw [filter_post, filter_rest hfilter hcarries, List.filter_append, hnil]
    simp [hb]
  · rw [htransit]
    refine filter_frame (not_carries_id hne.symm) fun c hc => ?_
    rcases List.mem_append.mp hc with hc | hc
    · exact hquiet id' hpos c hc
    · rw [List.mem_singleton.mp hc]
      exact not_carries_id (by rw [hbid]; exact hne.symm)
  · refine answers_frame fun c hc => ?_
    rcases List.mem_append.mp hc with hc | hc
    · exact Or.inl (src_ne_address (hes c hc).1)
    · rw [List.mem_singleton.mp hc, hbsrc]
      exact Or.inl (src_ne_address hdst)

theorem close_ledger (h : w.Inv cfg) (htransit : w.transit = a ::ₘ rest) {e : Pending}
    (hpending : w.server.pending a.msg.request_id = some e) (hdst : a.dst = cfg.address)
    (hbsrc : b.src = cfg.address) (hbdst : b.dst = e.client_sock)
    (hbid : b.msg.request_id = a.msg.request_id) (hresponse : b.msg.isResponse = true) :
    Ledger cfg (Function.update w.server.pending a.msg.request_id none) w.server.current_request
      w.accepted (rest + (([b] : List Envelope) : Multiset Envelope)) (w.sent ++ [b]) := by
  have hpos := h.ledger.id_range hpending
  have hclient : cfg.IsClient b.dst := by
    rw [hbdst]
    exact h.client_of_pending hpending
  have hcarries : Carries cfg a.msg.request_id a := ⟨rfl, fun hclient => hclient.1 hdst⟩
  obtain ⟨e', -, hfilter, -⟩ := h.ledger.pending_of_carries (a := a) (by simp [htransit])
    hpos.1 hcarries
  rw [htransit] at hfilter
  refine h.ledger.close (a := b) hpending hbdst ?_ (fun id' _ hne => ?_) ?_ fun id' _ hne => ?_
  · rw [filter_post, filter_rest hfilter hcarries]
    simp [not_carries_client hclient]
  · rw [htransit]
    refine filter_frame (not_carries_id hne.symm) fun c hc => ?_
    rw [List.mem_singleton.mp hc]
    exact not_carries_client hclient
  · rw [answers_append]
    simp [answers, hbsrc, hresponse, hbid]
  · refine answers_frame fun c hc => ?_
    rw [List.mem_singleton.mp hc, hbid]
    exact Or.inr (Or.inr hne.symm)

theorem next_ledger (h : w.Inv cfg) (htransit : w.transit = a ::ₘ rest) {client : Host}
    {st st' : QueryState} (hpending : w.server.pending a.msg.request_id = some ⟨client, some st⟩)
    (hdst : a.dst = cfg.address) (hbdst : b.dst ∈ cfg.repos)
    (hbid : b.msg.request_id = a.msg.request_id) (hresponse : b.msg.isResponse = false)
    (hnames : ∀ x ∈ st'.node_queue, AsciiName x.1)
    (hawaits : Awaits cfg ⟨client, some st'⟩ b) :
    Ledger cfg (Function.update w.server.pending a.msg.request_id (some ⟨client, some st'⟩))
      w.server.current_request w.accepted (rest + (([b] : List Envelope) : Multiset Envelope))
      (w.sent ++ [b]) := by
  have hpos := h.ledger.id_range hpending
  have hcarries : Carries cfg a.msg.request_id a := ⟨rfl, fun hclient => hclient.1 hdst⟩
  have hb : Carries cfg a.msg.request_id b := ⟨hbid, fun hclient => hclient.2 hbdst⟩
  obtain ⟨e', -, hfilter, -⟩ := h.ledger.pending_of_carries (a := a) (by simp [htransit])
    hpos.1 hcarries
  rw [htransit] at hfilter
  refine h.ledger.pass (a := b) hpending rfl ?_ hawaits ?_ (fun id' _ hne => ?_) fun id' _ => ?_
  · rintro st₁ hst
    cases hst
    exact hnames
  · rw [filter_post, filter_rest hfilter hcarries]
    simp [hb]
  · rw [htransit]
    refine filter_frame (not_carries_id hne.symm) fun c hc => ?_
    rw [List.mem_singleton.mp hc]
    exact not_carries_id (by rw [hbid]; exact hne.symm)
  · refine answers_frame fun c hc => ?_
    rw [List.mem_singleton.mp hc]
    exact Or.inr (Or.inl hresponse)

theorem book_ledger (h : w.Inv cfg) (htransit : w.transit = a ::ₘ rest)
    (hsrc : cfg.IsClient a.src) (hid : a.msg.request_id = 0) (hbdst : b.dst ∈ cfg.repos)
    (hbid : b.msg.request_id = w.server.current_request) (hresponse : b.msg.isResponse = false)
    {state : Option QueryState}
    (hnames : ∀ st, state = some st → ∀ x ∈ st.node_queue, AsciiName x.1)
    (hawaits : Awaits cfg ⟨a.src, state⟩ b) :
    Ledger cfg (Function.update w.server.pending w.server.current_request (some ⟨a.src, state⟩))
      (w.server.current_request + 1) (w.accepted ++ [(w.server.current_request, a)])
      (rest + (([b] : List Envelope) : Multiset Envelope)) (w.sent ++ [b]) := by
  have hpos := h.ledger.pos
  have hb : Carries cfg w.server.current_request b := ⟨hbid, fun hclient => hclient.2 hbdst⟩
  have ha : ∀ id : ℤ, 1 ≤ id → ¬ Carries cfg id a := by
    intro id hpos
    exact not_carries_id (by omega)
  refine h.ledger.book hsrc hnames hawaits ?_ (fun id' hpos' hne => ?_) fun id' _ => ?_
  · rw [filter_post, htransit, Multiset.filter_cons_of_neg _ (ha _ (by omega)), add_comm]
    simp [hb]
  · rw [htransit]
    refine filter_frame (ha id' hpos') fun c hc => ?_
    rw [List.mem_singleton.mp hc]
    exact not_carries_id (by rw [hbid]; exact hne.symm)
  · refine answers_frame fun c hc => ?_
    rw [List.mem_singleton.mp hc]
    exact Or.inr (Or.inl hresponse)

end World.Inv

theorem Msg.IsRequest.forwarded {m : Msg} (h : m.IsRequest) (hosts : List Host) (n : ℕ) :
    (m.forwarded hosts n).IsForwarded hosts ∧ (m.forwarded hosts n).request_id = n ∧
      (m.forwarded hosts n).isResponse = false := by
  cases m with
  | node m => exact ⟨rfl, rfl, rfl⟩
  | query m => exact ⟨trivial, rfl, rfl⟩
  | update m => exact ⟨trivial, rfl, rfl⟩
  | delete m => exact ⟨rfl, rfl, rfl⟩
  | _ => exact h.elim

/-- The forwarded request is what the entry filed for it waits for. -/
theorem awaits_forwarded {cfg : Config} {m : Msg} (h : m.IsRequest) {client host : Host} {n : ℕ}
    (hhost : host ∈ cfg.repos) :
    Awaits cfg ⟨client, m.state⟩ ⟨cfg.address, host, m.forwarded cfg.hosts n, n⟩ := by
  cases m with
  | query m => exact ⟨_, _, _, rfl, Or.inl ⟨hhost, _, rfl, rfl⟩⟩
  | node m => exact Or.inl ⟨rfl, hhost⟩
  | update m => exact Or.inl ⟨rfl, hhost⟩
  | delete m => exact Or.inl ⟨rfl, hhost⟩
  | _ => exact h.elim

theorem names_state {m : Msg} (h : m.Ascii) {st : QueryState} (hst : m.state = some st) :
    ∀ x ∈ st.node_queue, AsciiName x.1 := by
  cases m with
  | query m =>
    cases hst
    intro x hx
    rw [List.mem_singleton.mp hx]
    exact h
  | _ => cases hst

/-- A reply that is no `I` is the answer to a write. -/
theorem awaits_response {cfg : Config} {e : Pending} {a b : Envelope} {m : ResponseMsg}
    (hdst : a.dst ∈ cfg.repos) (hquery : a.msg.isQuery = false) (hbdst : b.dst = cfg.address)
    (hb : b.msg = .response m) (h : Awaits cfg e a) : Awaits cfg e b := by
  obtain ⟨client, state⟩ := e
  cases state with
  | none => exact Or.inr ⟨hbdst, m, hb⟩
  | some st =>
    obtain ⟨u, t, queue, -, ⟨-, q, hq, -⟩ | ⟨haddr, -⟩⟩ := h
    · rw [hq] at hquery
      cases hquery
    · rw [haddr] at hdst
      exact absurd hdst cfg.apart

theorem awaits_info {cfg : Config} {e : Pending} {a b : Envelope} {q : QueryMsg} {i : InfoMsg}
    (hdst : a.dst ∈ cfg.repos) (hquery : a.msg = .query q) (hbdst : b.dst = cfg.address)
    (hb : b.msg = .info i) (hname : i.nameA = q.nameA) (h : Awaits cfg e a) : Awaits cfg e b := by
  obtain ⟨client, state⟩ := e
  cases state with
  | none =>
    rcases h with ⟨hno, -⟩ | ⟨haddr, -⟩
    · rw [hquery] at hno
      cases hno
    · rw [haddr] at hdst
      exact absurd hdst cfg.apart
  | some st =>
    obtain ⟨u, t, queue, hqueue, ⟨-, q', hq', hu⟩ | ⟨haddr, -⟩⟩ := h
    · rw [hquery] at hq'
      cases hq'
      exact ⟨u, t, queue, hqueue, Or.inr ⟨hbdst, i, hb, hname.trans hu⟩⟩
    · rw [haddr] at hdst
      exact absurd hdst cfg.apart

/-! ## Every turn keeps the invariant -/

section Preservation

variable {cfg : Config} {w w' : World} {a : Envelope} {rest : Multiset Envelope}

theorem World.Inv.post (h : w.Inv cfg) (htransit : w.transit = a ::ₘ rest) {db : Process}
    {accepted : List (ℕ × Envelope)} {es : List Envelope} (hserver : db.server = true)
    (hhosts : db.repositories = cfg.hosts) (hes : ∀ b ∈ es, Placed cfg b)
    (hledger : Ledger cfg db.pending db.current_request accepted (rest + es) (w.sent ++ es)) :
    (World.post ⟨db, w.repo, rest, accepted, w.sent⟩ es).Inv cfg where
  server := hserver
  hosts := hhosts
  repo := h.repo
  placed := by
    intro b hb
    rcases Multiset.mem_add.mp hb with hb | hb
    · exact h.placed b (by simp [htransit, show b ∈ rest from hb])
    · exact hes b hb
  ledger := hledger

theorem World.Inv.postRepo (h : w.Inv cfg) (htransit : w.transit = a ::ₘ rest) {db : Process}
    {es : List Envelope} (hdb : IsRepository cfg.address db) (hes : ∀ b ∈ es, Placed cfg b)
    (hledger : Ledger cfg w.server.pending w.server.current_request w.accepted (rest + es)
      (w.sent ++ es)) :
    (World.post ⟨w.server, Function.update w.repo a.dst db, rest, w.accepted, w.sent⟩ es).Inv
      cfg where
  server := h.server
  hosts := h.hosts
  repo := by
    intro x hx
    by_cases hxa : x = a.dst
    · subst hxa
      simpa using hdb
    · simpa [hxa] using h.repo x hx
  placed := by
    intro b hb
    rcases Multiset.mem_add.mp hb with hb | hb
    · exact h.placed b (by simp [htransit, show b ∈ rest from hb])
    · exact hes b hb
  ledger := hledger

theorem Placed.response_of_client (h : Placed cfg a) (hdst : cfg.IsClient a.dst) :
    ∃ m : ResponseMsg, a.msg = .response m := by
  cases h with
  | request haddr => exact absurd haddr hdst.1
  | answer _ _ hmsg => exact ⟨_, hmsg⟩
  | secondary _ hrepo => exact absurd hrepo hdst.2
  | forwarded _ hrepo => exact absurd hrepo hdst.2
  | reply _ haddr => exact absurd haddr hdst.1

/-- What a repository is given: a secondary message or a forwarded request. -/
theorem Placed.at_repo (h : Placed cfg a) (hdst : a.dst ∈ cfg.repos) :
    a.msg.IsSecondary ∨
      (a.msg.IsForwarded cfg.hosts ∧ a.msg.request_id = a.req ∧ 1 ≤ a.req) := by
  cases h with
  | request haddr _ _ _ => exact absurd (haddr ▸ hdst) cfg.apart
  | answer _ hclient _ => exact absurd hdst hclient.2
  | secondary _ _ hmsg => exact Or.inl hmsg
  | forwarded _ _ hmsg hid hreq => exact Or.inr ⟨hmsg, hid, hreq⟩
  | reply _ haddr _ _ _ => exact absurd (haddr ▸ hdst) cfg.apart

theorem Placed.at_server (h : Placed cfg a) (hdst : a.dst = cfg.address)
    (hsrc : a.src ∈ cfg.repos) : a.msg.request_id = a.req ∧ 1 ≤ a.req := by
  cases h with
  | request _ hclient _ _ => exact absurd hsrc hclient.2
  | answer _ hclient _ => exact absurd hdst hclient.1
  | secondary _ hrepo _ => exact absurd (hdst ▸ hrepo) cfg.apart
  | forwarded _ hrepo _ _ _ => exact absurd (hdst ▸ hrepo) cfg.apart
  | reply _ _ _ hid hreq => exact ⟨hid, hreq⟩

theorem Placed.reply_at_server (h : Placed cfg a) (hdst : a.dst = cfg.address)
    (hmsg : a.msg.IsReply) : a.msg.request_id = a.req ∧ 1 ≤ a.req := by
  cases h with
  | request _ _ hreq _ =>
    cases hkind : a.msg <;> rw [hkind] at hmsg hreq <;> first | exact hmsg.elim | exact hreq.elim
  | answer _ hclient _ => exact absurd hdst hclient.1
  | secondary _ hrepo _ => exact absurd (hdst ▸ hrepo) cfg.apart
  | forwarded _ hrepo _ _ _ => exact absurd (hdst ▸ hrepo) cfg.apart
  | reply _ _ _ hid hreq => exact ⟨hid, hreq⟩

theorem secondaries_reverses {m : NodeMsg} (hne : cfg.repos ≠ []) (hdst : a.dst ∈ cfg.repos)
    (hhosts : m.master_repos = [] ∨ m.master_repos = cfg.hosts) :
    World.Inv.Secondaries cfg (World.stamp a.dst a.req (reverses m)) := by
  intro b hb
  obtain ⟨s, hs, rfl⟩ := List.mem_map.mp hb
  unfold reverses at hs
  by_cases hnil : m.master_repos = []
  · simp [hnil] at hs
  · rw [if_neg hnil] at hs
    obtain ⟨rel, -, rfl⟩ := List.mem_map.mp hs
    rw [hhosts.resolve_left hnil]
    exact ⟨hdst, owner_mem cfg.self hne rel, rfl, rfl⟩

theorem secondaries_reversesDelete {m : DeleteMsg} (hne : cfg.repos ≠ []) (hdst : a.dst ∈ cfg.repos)
    (hhosts : m.master_repos = [] ∨ m.master_repos = cfg.hosts) :
    World.Inv.Secondaries cfg (World.stamp a.dst a.req (reversesDelete m)) := by
  intro b hb
  obtain ⟨s, hs, rfl⟩ := List.mem_map.mp hb
  unfold reversesDelete at hs
  split_ifs at hs with hcond
  · rw [List.mem_singleton.mp hs, hhosts.resolve_left hcond.2]
    exact ⟨hdst, owner_mem cfg.self hne _, rfl, rfl⟩
  · simp at hs

theorem placed_secondaries {es : List Envelope} (hes : World.Inv.Secondaries cfg es) :
    ∀ b ∈ es, Placed cfg b :=
  fun b hb => Placed.secondary (hes b hb).1 (hes b hb).2.1 (hes b hb).2.2

/-- The ledger and the places after a turn of a repository that sends secondary messages and, to
a forwarded request, a reply. -/
theorem World.Inv.repo_ledger (h : w.Inv cfg) (htransit : w.transit = a ::ₘ rest)
    (hdst : a.dst ∈ cfg.repos) (hquery : a.msg.isQuery = false) {secondary : List Send}
    (hes : Secondaries cfg (stamp a.dst a.req secondary)) {text : Str} {es : List Envelope}
    (heq : es = stamp a.dst a.req (secondary ++ if a.msg.request_id = 0 then []
      else [⟨cfg.address, .response ⟨text, a.msg.request_id⟩⟩])) :
    (∀ b ∈ es, Placed cfg b) ∧
      Ledger cfg w.server.pending w.server.current_request w.accepted (rest + es)
        (w.sent ++ es) := by
  have hmem : a ∈ w.transit := by simp [htransit]
  subst heq
  rcases (h.placed a hmem).at_repo hdst with hsec | ⟨-, hid, hreq⟩
  · have hzero := hsec.request_id
    rw [if_pos hzero, List.append_nil]
    refine ⟨placed_secondaries hes,
      h.frame_ledger htransit (fun id hpos => ?_) fun id hpos b hb => ?_⟩
    · exact not_carries_id (by omega)
    · have hb0 := (hes b hb).2.2.request_id
      exact ⟨not_carries_id (by omega), Or.inl (src_ne_address (hes b hb).1)⟩
  · rw [if_neg (by omega)]
    set b : Envelope := ⟨a.dst, cfg.address, .response ⟨text, a.msg.request_id⟩, a.req⟩ with hb
    have hsplit : stamp a.dst a.req
        (secondary ++ [⟨cfg.address, .response ⟨text, a.msg.request_id⟩⟩]) =
          stamp a.dst a.req secondary ++ [b] := by
      simp [stamp, hb]
    rw [hsplit]
    refine ⟨fun c hc => ?_, h.reply_ledger htransit hdst hid hreq hes rfl rfl rfl fun e he =>
      awaits_response hdst hquery rfl rfl he⟩
    rcases List.mem_append.mp hc with hc | hc
    · exact placed_secondaries hes c hc
    · rw [List.mem_singleton.mp hc]
      exact Placed.reply hdst rfl trivial hid hreq

/-- **A turn keeps the invariant.** -/
theorem Turn.inv (h : w.Inv cfg) (hadm : w.Admissible) (hne : cfg.repos ≠ [])
    (htransit : w.transit = a ::ₘ rest) (hturn : Turn cfg { w with transit := rest } a w') :
    w'.Inv cfg := by
  have hmem : a ∈ w.transit := by simp [htransit]
  have hascii := hadm.ascii a hmem
  cases hturn with
  | busy hdst hsrc hmsg hwrite hbusy =>
    refine h.post htransit h.server h.hosts ?_ (h.frame_ledger htransit (fun id hpos => ?_) ?_)
    · intro b hb
      rw [List.mem_singleton.mp hb]
      exact Placed.answer rfl hsrc rfl
    · exact not_carries_id (by rw [hmsg.request_id]; omega)
    · intro id hpos b hb
      rw [List.mem_singleton.mp hb]
      exact ⟨not_carries_client hsrc, Or.inr (Or.inr (by simp only [Msg.request_id]; omega))⟩
  | accept hdst hsrc hmsg hfree =>
    have howner := owner_mem cfg.self hne a.msg.name
    obtain ⟨hfwd, hid, hresponse⟩ := hmsg.forwarded cfg.hosts w.server.current_request
    refine h.post htransit h.server h.hosts ?_ ?_
    · intro b hb
      rw [List.mem_singleton.mp hb]
      exact Placed.forwarded rfl howner hfwd hid h.ledger.pos
    · exact h.book_ledger htransit hsrc hmsg.request_id howner hid hresponse
        (fun st hst => names_state hascii hst) (awaits_forwarded hmsg howner)
  | @response m client hdst hsrc hmsg hpending =>
    have hid : a.msg.request_id = m.request_id := by rw [hmsg]; rfl
    have hclient := h.client_of_pending hpending
    refine h.post htransit h.server h.hosts ?_ ?_
    · intro b hb
      rw [List.mem_singleton.mp hb]
      exact Placed.answer rfl hclient rfl
    · rw [← hid] at hpending ⊢
      exact h.close_ledger htransit hpending hdst rfl rfl hid.symm rfl
  | @complete i client st t queue hdst hsrc hmsg hpending hqueue hempty =>
    have hid : a.msg.request_id = i.request_id := by rw [hmsg]; rfl
    have hclient := h.client_of_pending hpending
    refine h.post htransit h.server h.hosts ?_ ?_
    · intro b hb
      rw [List.mem_singleton.mp hb]
      exact Placed.answer rfl hclient rfl
    · rw [← hid] at hpending ⊢
      exact h.close_ledger htransit hpending hdst rfl rfl rfl rfl
  | @next i client st t s queue queue' v hdst hsrc hmsg hpending hqueue hnext hv =>
    have hid : a.msg.request_id = i.request_id := by rw [hmsg]; rfl
    obtain ⟨hreq, hpos⟩ := (h.placed a hmem).at_server hdst hsrc
    have howner := owner_mem cfg.self hne v
    rw [hmsg] at hascii
    refine h.post htransit h.server h.hosts ?_ ?_
    · intro b hb
      rw [List.mem_singleton.mp hb]
      exact Placed.forwarded rfl howner trivial (hid.symm.trans hreq) hpos
    · have hnames : ∀ x ∈ (st.advance (i.nameA, t) queue i.wire).node_queue, AsciiName x.1 := by
        intro x hx
        rcases mem_advance_queue hx with hold | ⟨hrel, -⟩
        · refine h.ledger.names _ _ _ hpending x ?_
          rw [hqueue]
          exact List.mem_cons_of_mem _ hold
        · exact hascii.2 _ hrel
      rw [← hid] at hpending ⊢
      exact h.next_ledger htransit hpending hdst howner rfl rfl hnames
        ⟨v, s, queue', hnext, Or.inl ⟨howner, _, rfl, rfl⟩⟩
  | @stored m hdst hmsg hhosts hrels =>
    have hid : a.msg.request_id = m.request_id := by rw [hmsg]; rfl
    have hdb := h.repo _ hdst
    rw [← hid]
    obtain ⟨hplaced, hledger⟩ := h.repo_ledger htransit hdst (by rw [hmsg]; rfl)
      (secondaries_reverses hne hdst hhosts) rfl
    exact h.postRepo htransit ⟨hdb.server, hdb.repository, hdb.repositories, hdb.free⟩ hplaced
      hledger
  | @asked m hdst hmsg =>
    have hid : a.msg.request_id = m.request_id := by rw [hmsg]; rfl
    rcases (h.placed a hmem).at_repo hdst with hsec | ⟨-, hreq, hpos⟩
    · rw [hmsg] at hsec
      exact hsec.elim
    · refine h.post htransit h.server h.hosts ?_ ?_
      · intro b hb
        rw [List.mem_singleton.mp hb]
        exact Placed.reply hdst rfl trivial (hid.symm.trans hreq) hpos
      · exact h.reply_ledger htransit hdst hreq hpos World.Inv.secondaries_nil
          rfl rfl hid.symm fun e he => awaits_info hdst hmsg rfl rfl rfl he
  | @updated m hdst hmsg =>
    have hid : a.msg.request_id = m.request_id := by rw [hmsg]; rfl
    rcases (h.placed a hmem).at_repo hdst with hsec | ⟨-, hreq, hpos⟩
    · rw [hmsg] at hsec
      exact hsec.elim
    · refine h.post htransit h.server h.hosts ?_ ?_
      · intro b hb
        rw [List.mem_singleton.mp hb]
        exact Placed.reply hdst rfl trivial (hid.symm.trans hreq) hpos
      · exact h.reply_ledger htransit hdst hreq hpos World.Inv.secondaries_nil
          rfl rfl hid.symm fun e he => awaits_response hdst (by rw [hmsg]; rfl) rfl rfl he
  | @deleted m hdst hmsg hhosts hrel =>
    have hid : a.msg.request_id = m.request_id := by rw [hmsg]; rfl
    rw [← hid]
    obtain ⟨hplaced, hledger⟩ := h.repo_ledger htransit hdst (by rw [hmsg]; rfl)
      (secondaries_reversesDelete hne hdst hhosts) rfl
    exact h.post htransit h.server h.hosts hplaced hledger
  | taken hdst =>
    have hframe : Ledger cfg w.server.pending w.server.current_request w.accepted
        (rest + ([] : List Envelope)) (w.sent ++ []) :=
      h.frame_ledger htransit (fun id _ => not_carries_client hdst) (by simp)
    have := h.post htransit h.server h.hosts (by simp) hframe
    simpa [World.post] using this

end Preservation

/-! ## Runs -/

/-- Storage calls that do not throw. -/
def Event.Steady : Event → Prop
  | .request _ _ => True
  | .deliver _ throws => throws = noThrow

section Runs

variable {cfg : Config} {w w' : World}

theorem World.Inv.request (h : w.Inv cfg) {client : Host} {msg : Msg}
    (hclient : cfg.IsClient client) (hmsg : msg.IsRequest) :
    (w.post [⟨client, cfg.address, msg, 0⟩]).Inv cfg where
  server := h.server
  hosts := h.hosts
  repo := h.repo
  placed := by
    intro b hb
    rcases Multiset.mem_add.mp hb with hb | hb
    · exact h.placed b hb
    · rw [List.mem_singleton.mp hb]
      exact Placed.request rfl hclient hmsg rfl
  ledger := by
    have hzero := hmsg.request_id
    refine h.ledger.frame (fun id hpos => ?_) fun id hpos => ?_
    · have hnot : ¬ Carries cfg id ⟨client, cfg.address, msg, 0⟩ :=
        not_carries_id (by simp only; omega)
      rw [World.post_transit, filter_post]
      simp [hnot]
    · refine answers_frame fun b hb => Or.inl ?_
      rw [List.mem_singleton.mp hb]
      exact hclient.1

theorem World.Inv.turn_of_step (hne : cfg.repos ≠ []) {a : Envelope} {throws : ℕ → Option Str}
    (h : w.Inv cfg) (hadm : w.Admissible) (hsteady : (Event.deliver a throws).Steady)
    (hstep : w.step cfg (.deliver a throws) = some w') :
    ∃ rest, w.transit = a ::ₘ rest ∧ Turn cfg { w with transit := rest } a w' := by
  have hthrows : throws = noThrow := hsteady
  subst hthrows
  obtain ⟨rest, htransit, hhandle⟩ := step_deliver hstep
  obtain ⟨w₁, hw₁, hturn⟩ := h.turn rest hadm hne (a := a) (by simp [htransit])
  rw [hhandle] at hw₁
  cases hw₁
  exact ⟨rest, htransit, hturn⟩

theorem World.Inv.step (hne : cfg.repos ≠ []) {e : Event} (h : w.Inv cfg) (hadm : w.Admissible)
    (hsteady : e.Steady) (hstep : w.step cfg e = some w') : w'.Inv cfg := by
  cases e with
  | request client msg =>
    obtain ⟨hclient, hmsg, rfl⟩ := step_request hstep
    exact h.request hclient hmsg
  | deliver a throws =>
    obtain ⟨rest, htransit, hturn⟩ := h.turn_of_step hne hadm hsteady hstep
    exact hturn.inv h hadm hne htransit

/-- **Invariant rule for steady runs.** What every turn and every new request preserve holds along
a run of admissible states, beside the invariant. -/
theorem along_turns (hne : cfg.repos ≠ []) {I : World → Prop}
    (hrequest : ∀ w client msg, I w → cfg.IsClient client → Msg.IsRequest msg →
      I (w.post [⟨client, cfg.address, msg, 0⟩]))
    (hturn : ∀ w a rest w', World.Inv cfg w → World.Admissible w → I w → w.transit = a ::ₘ rest →
      Turn cfg { w with transit := rest } a w' → I w') {es : List Event} :
    ∀ {w : World}, w.Inv cfg → I w → (∀ e ∈ es, e.Steady) →
      Along (World.step cfg) World.Admissible w es →
      Along (World.step cfg) (fun w => (w.Inv cfg ∧ w.Admissible) ∧ I w) w es := by
  induction es with
  | nil => exact fun h hI _ hadm => ⟨⟨h, hadm⟩, hI⟩
  | cons e es ih =>
    intro w h hI hsteady hadm
    refine ⟨⟨⟨h, hadm.1⟩, hI⟩, fun w' hstep => ?_⟩
    have hsteady' := hsteady e List.mem_cons_self
    have hI' : I w' := by
      cases e with
      | request client msg =>
        obtain ⟨hclient, hmsg, rfl⟩ := step_request hstep
        exact hrequest w client msg hI hclient hmsg
      | deliver a throws =>
        obtain ⟨rest, htransit, hw⟩ := h.turn_of_step hne hadm.1 hsteady' hstep
        exact hturn w a rest w' h hadm.1 hI htransit hw
    exact ih (h.step hne hadm.1 hsteady' hstep) hI'
      (fun e' he' => hsteady e' (List.mem_cons_of_mem _ he')) (hadm.2 w' hstep)

/-- Requests and replies are correlated. -/
structure Correlated (cfg : Config) (w : World) : Prop where
  /-- An `M` on its way to the server is for a pending write. -/
  response : ∀ a ∈ w.transit, a.dst = cfg.address → ∀ m, a.msg = .response m →
    ∃ client, w.server.pending m.request_id = some ⟨client, none⟩
  /-- An `I` on its way to the server is for a pending query and for the front of its queue. -/
  info : ∀ a ∈ w.transit, a.dst = cfg.address → ∀ i, a.msg = .info i →
    ∃ client st t queue, w.server.pending i.request_id = some ⟨client, some st⟩ ∧
      st.node_queue = (i.nameA, t) :: queue
  /-- A pending query has one `R` or `I` in transit, for the front of its queue. -/
  query : ∀ id client st, w.server.pending id = some ⟨client, some st⟩ →
    ∃ u t queue a, st.node_queue = (u, t) :: queue ∧ a.msg.name = u ∧
      w.transit.filter (fun b => b.msg.request_id = id ∧ (b.msg.isQuery || b.msg.isInfo)) = {a}
  /-- A request is answered at most once, and to the address it came from. -/
  answered : ∀ p ∈ w.accepted, (answers cfg p.1 w.sent).length ≤ 1 ∧
    ∀ b ∈ answers cfg p.1 w.sent, b.dst = p.2.src
  /-- Every request is answered when nothing is in transit. -/
  quiescent : w.transit = 0 → ∀ p ∈ w.accepted, (answers cfg p.1 w.sent).length = 1
  /-- No delivery ends in a fault. -/
  handled : ∀ a ∈ w.transit, ∃ w', w.step cfg (.deliver a noThrow) = some w'

theorem World.Inv.query (h : w.Inv cfg) {id : ℤ} {client : Host} {st : QueryState}
    (hpending : w.server.pending id = some ⟨client, some st⟩) :
    ∃ u t queue a, st.node_queue = (u, t) :: queue ∧ a.msg.name = u ∧
      w.transit.filter (fun b => b.msg.request_id = id ∧ (b.msg.isQuery || b.msg.isInfo)) =
        {a} := by
  obtain ⟨a, hfilter, u, t, queue, hqueue, hmsg⟩ := h.ledger.awaits _ _ hpending
  have hid := (h.ledger.id_range hpending).1
  have ha : (a.msg.isQuery || a.msg.isInfo) = true ∧ a.msg.name = u := by
    rcases hmsg with ⟨-, q, hq, rfl⟩ | ⟨-, i, hi, rfl⟩
    · rw [hq]
      exact ⟨rfl, rfl⟩
    · rw [hi]
      exact ⟨rfl, rfl⟩
  refine ⟨u, t, queue, a, hqueue, ha.2, ?_⟩
  have hcongr :
      w.transit.filter (fun b => b.msg.request_id = id ∧ (b.msg.isQuery || b.msg.isInfo)) =
      (w.transit.filter (Carries cfg id)).filter
        fun b => (b.msg.isQuery || b.msg.isInfo) = true := by
    rw [Multiset.filter_filter]
    refine Multiset.filter_congr fun b hb => ?_
    constructor
    · rintro ⟨hbid, hkind⟩
      refine ⟨hkind, hbid, fun hclient => ?_⟩
      obtain ⟨m, hmsg⟩ := (h.placed b hb).response_of_client hclient
      rw [hmsg] at hkind
      cases hkind
    · rintro ⟨hkind, hbid, -⟩
      exact ⟨hbid, hkind⟩
  rw [hcongr, hfilter, Multiset.filter_singleton, if_pos ha.1]

theorem World.Inv.correlated (h : w.Inv cfg) (hadm : w.Admissible) (hne : cfg.repos ≠ []) :
    Correlated cfg w where
  response := by
    intro a ha hdst m hmsg
    obtain ⟨hid, hreq⟩ := (h.placed a ha).reply_at_server hdst (by rw [hmsg]; trivial)
    exact h.response_pending ha hdst hmsg hid hreq
  info := by
    intro a ha hdst i hmsg
    obtain ⟨hid, hreq⟩ := (h.placed a ha).reply_at_server hdst (by rw [hmsg]; trivial)
    exact h.info_pending ha hdst hmsg hid hreq
  query := fun id client st hpending => h.query hpending
  answered := by
    intro p hp
    by_cases hpending : w.server.pending p.1 = none
    · obtain ⟨b, hb, hdst⟩ := h.ledger.answered p hp hpending
      rw [hb]
      refine ⟨le_rfl, fun c hc => ?_⟩
      rw [List.mem_singleton.mp hc, hdst]
    · rw [h.ledger.unanswered p hp hpending]
      simp
  quiescent := by
    intro hzero p hp
    have hpending : w.server.pending p.1 = none := by
      by_contra hpending
      obtain ⟨e, he⟩ := Option.ne_none_iff_exists'.mp hpending
      obtain ⟨a, ha, -⟩ := h.ledger.awaits _ _ he
      simp [hzero] at ha
    obtain ⟨b, hb, -⟩ := h.ledger.answered p hp hpending
    rw [hb]
    rfl
  handled := by
    intro a ha
    obtain ⟨w', hw', -⟩ := h.turn (w.transit.erase a) hadm hne ha
    exact ⟨w', by simp only [World.step]; rw [if_pos ha, hw']⟩

/-- **Request and reply correlation.** In every run of a deployment with a repository, in which the
messages fit the wire, names start with an ASCII byte, fewer than 1000 requests are accepted and the
storage does not throw, requests and replies are correlated. -/
theorem requests_correlated (hne : cfg.repos ≠ []) {es : List Event} (hsteady : ∀ e ∈ es, e.Steady)
    (hadm : Along (World.step cfg) World.Admissible (World.start cfg) es) :
    Along (World.step cfg) (Correlated cfg) (World.start cfg) es :=
  (along_turns hne (I := fun _ => True) (fun _ _ _ _ _ _ => trivial)
    (fun _ _ _ _ _ _ _ _ _ => trivial) (World.Inv.start cfg) trivial hsteady hadm).mono
    fun _ h => h.1.1.correlated h.1.2 hne

end Runs

/-- Client 7 creates a node with a relation. -/
def oneCreate : List Event :=
  let server := oneRepository.address
  let repository : Host := ⟨str "10.0.0.2", 50001⟩
  let create (id : ℤ) (hosts : List Host) : Msg := .node ⟨str "a", [], [str "b"], id, hosts⟩
  let reply : Msg := .response ⟨storedText, 1⟩
  [.request (clientHost 7) (create 0 []),
    .deliver ⟨clientHost 7, server, create 0 [], 0⟩ noThrow,
    .deliver ⟨server, repository, create 1 oneRepository.hosts, 1⟩ noThrow,
    .deliver ⟨repository, server, reply, 1⟩ noThrow,
    .deliver ⟨repository, repository, .node ⟨str "b", [], [str "a"], 0, []⟩, 1⟩ noThrow,
    .deliver ⟨server, clientHost 7, reply, 1⟩ noThrow]

/-- The create is answered once, and nothing is left in transit. -/
theorem requests_correlated_create :
    ∃ w, run (World.step oneRepository) (World.start oneRepository) oneCreate = some w ∧
      w.transit = 0 ∧ w.accepted.map Prod.fst = [1] ∧ Correlated oneRepository w := by
  have halong := requests_correlated (show oneRepository.repos ≠ [] by decide)
    (show ∀ e ∈ oneCreate, e.Steady by simp [oneCreate, Event.Steady]) (by decide +kernel)
  have hrun : ∃ w, run (World.step oneRepository) (World.start oneRepository) oneCreate = some w ∧
      w.transit = 0 ∧ w.accepted.map Prod.fst = [1] := exists_of_check (by decide +kernel)
  obtain ⟨w, hw, hzero, haccepted⟩ := hrun
  exact ⟨w, hw, hzero, haccepted, halong.last hw⟩

end DGDB
