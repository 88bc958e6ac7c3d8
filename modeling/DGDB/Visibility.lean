import Mathlib
import DGDB.Inbox
import DGDB.Traversal

/-!
# Acknowledged creates are visible

A query that is accepted when every accepted request has been answered sees the whole graph of the
acknowledged creates: the reverse messages of those creates are in the inboxes ahead of every `R` of
the query, so each repository answers with exactly the neighbours of the name it is asked for.
-/

namespace DGDB

open EventSystem GraphSearch

/-! ## The response -/

/-- The graph of the acknowledged creates. -/
def Edge (cfg : Config) (w : World) (x y : Str) : Prop :=
  ∃ p ∈ w.accepted, answers cfg p.1 w.sent ≠ [] ∧ ∃ m, p.2.msg = .node m ∧
    (m.nameA = x ∧ y ∈ m.relations ∨ m.nameA = y ∧ x ∈ m.relations)

/-- The lines of a response: names with their distances and attributes. -/
def linesText (attr : Bool) (log : List (Str × ℕ × List Attribute)) : Str :=
  log.flatMap fun l => nodeLines attr l.1 l.2.1 l.2.2

/-- `text` lists the names within `depth` steps of `root` and no others, each once and with its
distance. -/
def Lists (R : Str → Str → Prop) (attr : Bool) (depth : ℕ) (root text : Str) : Prop :=
  ∃ log : List (Str × ℕ × List Attribute), text = completeText (linesText attr log) ∧
    (log.map Prod.fst).Nodup ∧ (∀ x, x ∈ log.map Prod.fst ↔ Within R depth root x) ∧
    ∀ l ∈ log, IsDist R root l.1 l.2.1

/-- The state of a query without conditions and without leaf that has searched `done`. -/
structure Searching (R : Str → Str → Prop) (m : QueryMsg) (depth : ℕ) (done : List (Str × ℕ))
    (st : QueryState) : Prop where
  search : Search R m.nameA depth done st.node_queue st.visited
  leaf : st.leaf = false
  attr : st.attr = m.attr
  conditions : st.conditions = []
  depth_eq : st.depth = depth
  response : ∃ log : List (Str × ℕ × List Attribute), st.response = linesText m.attr log ∧
    log.map (fun l => (l.1, l.2.1)) = done.map fun a => (a.1, depth - a.2)

namespace Searching

variable {R : Str → Str → Prop} {m : QueryMsg} {depth : ℕ} {done : List (Str × ℕ)}
  {st : QueryState}

theorem start (hleaf : m.leaf = false) (hconditions : m.conditions = [])
    (hdepth : toSizeT m.depth = depth) : Searching R m depth [] (QueryState.start m) where
  search := by
    simp only [QueryState.start, hdepth]
    exact Search.start R m.nameA depth
  leaf := hleaf
  attr := rfl
  conditions := hconditions
  depth_eq := hdepth
  response := ⟨[], rfl, rfl⟩

theorem round (h : Searching R m depth done st) (hdepth : depth ≤ 9) {i : InfoMsg} {t : ℕ}
    {queue : List (Str × ℕ)} (hqueue : st.node_queue = (i.nameA, t) :: queue)
    (hrelations : ∀ y, y ∈ i.relations ↔ R i.nameA y) (hvalid : i.valid_node = true) :
    Searching R m depth (done ++ [(i.nameA, t)]) (st.advance (i.nameA, t) queue i) where
  search := by
    have hsearch := h.search
    rw [hqueue] at hsearch
    exact hsearch.round i.relations hrelations
  leaf := h.leaf
  attr := h.attr
  conditions := h.conditions
  depth_eq := h.depth_eq
  response := by
    obtain ⟨log, hlog, hdone⟩ := h.response
    have hle : t ≤ depth := (h.search.dist (i.nameA, t) (by simp [hqueue])).1
    have hsub : subSizeT st.depth t = depth - t := by
      rw [h.depth_eq]
      exact subSizeT_of_le hle (by omega)
    refine ⟨log ++ [(i.nameA, depth - t, i.attributes)], ?_, by simp [hdone]⟩
    simp [QueryState.advance, linesText, hvalid, hlog, h.attr, hsub]

theorem lists (h : Searching R m depth done st) (hempty : st.node_queue = []) :
    Lists R m.attr depth m.nameA (completeText st.response) := by
  obtain ⟨log, hlog, hdone⟩ := h.response
  have hsearch := h.search
  rw [hempty] at hsearch
  have hnames : log.map Prod.fst = done.map Prod.fst := by
    have := congrArg (List.map Prod.fst) hdone
    simpa [Function.comp_def] using this
  refine ⟨log, by rw [hlog], ?_, ?_, ?_⟩
  · rw [hnames]
    simpa using hsearch.nodup
  · intro x
    rw [hnames]
    exact hsearch.mem_iff_within x
  · intro l hl
    have hmem : (l.1, l.2.1) ∈ done.map fun a => (a.1, depth - a.2) := by
      rw [← hdone]
      exact List.mem_map_of_mem hl
    obtain ⟨a, ha, heq⟩ := List.mem_map.mp hmem
    obtain ⟨hfst, hsnd⟩ := Prod.mk.inj heq
    rw [← hfst, ← hsnd]
    exact (hsearch.dist a (by simpa using ha)).2

end Searching

/-! ## While the query is pending -/

/-- The world while the query `m` of the request `r` is pending under the id `n`, and nothing
else. -/
structure Asking (cfg : Config) (n : ℕ) (r : Envelope) (m : QueryMsg) (depth : ℕ)
    (accepted : List (ℕ × Envelope)) (w : World) : Prop where
  pending : ∃ st done, w.server.pending n = some ⟨r.src, some st⟩ ∧
    Searching (fun u v => v ∈ neighbours accepted u) m depth done st ∧
    (asked cfg n w.sent).length = done.length + 1
  only : ∀ id : ℤ, id ≠ n → w.server.pending id = none
  blocked : w.server.cud_blocking = true
  edges : w.accepted = accepted ++ [(n, r)]
  queries : ∀ a ∈ w.transit, a.dst ∈ cfg.repos → ∀ m, a.msg = .query m →
    m.leaf = false ∧ m.conditions = []
  infos : ∀ a ∈ w.transit, ∀ i, a.msg = .info i →
    (∀ y, y ∈ i.relations ↔ y ∈ neighbours accepted i.nameA) ∧ i.valid_node = true

/-- The query has been answered. -/
structure Answered (cfg : Config) (n : ℕ) (r : Envelope) (m : QueryMsg) (depth : ℕ)
    (accepted : List (ℕ × Envelope)) (w : World) : Prop where
  mem : (n, r) ∈ w.accepted
  answer : ∃ b text, answers cfg n w.sent = [b] ∧ b.dst = r.src ∧ b.msg = .response ⟨text, n⟩ ∧
    Lists (fun u v => v ∈ neighbours accepted u) m.attr depth m.nameA text
  bounded : (asked cfg n w.sent).length ≤ (ball (neighbours accepted) depth m.nameA).length

section Turns

variable {cfg : Config} {n : ℕ} {r : Envelope} {m : QueryMsg} {depth : ℕ}
  {accepted : List (ℕ × Envelope)} {w w' : World} {a : Envelope} {rest : Multiset Envelope}
  {es : List Envelope}

theorem neighbours_append_query {p : ℕ × Envelope} (hp : p.2.msg = .query m) (x : Str) :
    neighbours (accepted ++ [p]) x = neighbours accepted x := by
  simp [neighbours, hp]

namespace Asking

theorem isQuery (h : Asking cfg n r m depth accepted w) (hinv : w.Inv cfg)
    (hmem : a ∈ w.transit) (hdst : a.dst ∈ cfg.repos) (hid : a.msg.request_id = a.req)
    (hreq : 1 ≤ a.req) : a.msg.isQuery = true := by
  have hcarries : Carries cfg a.msg.request_id a := ⟨rfl, fun hclient => hclient.2 hdst⟩
  obtain ⟨e, he, -, hawaits⟩ := hinv.ledger.pending_of_carries hmem (by omega) hcarries
  have heq : a.msg.request_id = n := by
    by_contra hne
    rw [h.only _ hne] at he
    cases he
  obtain ⟨st, done, hst, -⟩ := h.pending
  rw [heq, hst] at he
  cases he
  obtain ⟨u, t, queue, -, ⟨-, q, hq, -⟩ | ⟨haddr, -⟩⟩ := hawaits
  · rw [hq]
    rfl
  · rw [haddr] at hdst
    exact absurd hdst cfg.apart

theorem secondary (h : Asking cfg n r m depth accepted w) (hinv : w.Inv cfg)
    (hmem : a ∈ w.transit) (hdst : a.dst ∈ cfg.repos) (hquery : a.msg.isQuery = false) :
    a.msg.IsSecondary := by
  rcases (hinv.placed a hmem).at_repo hdst with hsec | ⟨-, hid, hreq⟩
  · exact hsec
  · rw [h.isQuery hinv hmem hdst hid hreq] at hquery
    cases hquery

theorem frame (h : Asking cfg n r m depth accepted w) (hserver : w'.server = w.server)
    (haccepted : w'.accepted = w.accepted) (htransit : ∀ b ∈ w'.transit, b ∈ w.transit ∨ b ∈ es)
    (hsent : w'.sent = w.sent ++ es)
    (hquery : ∀ b ∈ es, b.msg.isQuery = false ∨ cfg.IsClient b.src ∧ b.dst = cfg.address)
    (hinfo : ∀ b ∈ es, ∀ i, b.msg = .info i →
      (∀ y, y ∈ i.relations ↔ y ∈ neighbours accepted i.nameA) ∧ i.valid_node = true) :
    Asking cfg n r m depth accepted w' where
  pending := by
    obtain ⟨st, done, hst, hsearch, hlen⟩ := h.pending
    refine ⟨st, done, by rw [hserver, hst], hsearch, ?_⟩
    rw [hsent, asked_frame, hlen]
    intro b hb
    rcases hquery b hb with hquery | ⟨hclient, -⟩
    · exact Or.inr (Or.inl hquery)
    · exact Or.inl hclient.1
  only := fun id hid => by rw [hserver, h.only id hid]
  blocked := by rw [hserver, h.blocked]
  edges := by rw [haccepted, h.edges]
  queries := by
    intro b hb hdst q hq
    rcases htransit b hb with hb | hb
    · exact h.queries b hb hdst q hq
    · rcases hquery b hb with hquery | ⟨-, haddr⟩
      · rw [hq] at hquery
        cases hquery
      · rw [haddr] at hdst
        exact absurd hdst cfg.apart
  infos := by
    intro b hb i hi
    rcases htransit b hb with hb | hb
    · exact h.infos b hb i hi
    · exact hinfo b hb i hi

theorem id_eq (h : Asking cfg n r m depth accepted w) {id : ℤ} {e : Pending}
    (he : w.server.pending id = some e) : id = n := by
  by_contra hne
  rw [h.only id hne] at he
  cases he

theorem next (h : Asking cfg n r m depth accepted w) (hdepth : depth ≤ 9)
    (htransit : w.transit = a ::ₘ rest) {i : InfoMsg} {client : Host} {st : QueryState} {t s : ℕ}
    {queue : List (Str × ℕ)} {v : Str} {req : ℕ} (hmsg : a.msg = .info i)
    (hpending : w.server.pending i.request_id = some ⟨client, some st⟩)
    (hqueue : st.node_queue = (i.nameA, t) :: queue) :
    Asking cfg n r m depth accepted (World.post
      { w with
        server := w.server.file i.request_id ⟨client, some (st.advance (i.nameA, t) queue i.wire)⟩
        transit := rest }
      [⟨cfg.address, owner cfg.hosts v,
        .query ⟨v, toInt s, st.leaf, st.attr, st.conditions, i.request_id⟩, req⟩]) := by
  have hid := h.id_eq hpending
  obtain ⟨st₀, done, hst, hsearch, hlen⟩ := h.pending
  rw [hid, hst] at hpending
  cases hpending
  obtain ⟨hrelations, hvalid⟩ := h.infos a (by simp [htransit]) i hmsg
  refine ⟨⟨_, _, ?_, hsearch.round hdepth (i := i.wire) hqueue hrelations hvalid, ?_⟩, ?_,
    h.blocked, h.edges, ?_, ?_⟩
  · simp [Process.file, hid]
  · rw [World.post_sent, asked_append, List.length_append, hlen]
    simp [asked, Msg.isQuery, Msg.request_id, hid]
  · intro id' hne
    have hne' : id' ≠ i.request_id := by rwa [hid]
    simp [Process.file, hne', h.only id' hne]
  · intro b hb hdst q hq
    rcases Multiset.mem_add.mp hb with hb | hb
    · exact h.queries b (by rw [htransit]; exact Multiset.mem_cons_of_mem hb) hdst q hq
    · rw [List.mem_singleton.mp hb] at hq
      cases hq
      exact ⟨hsearch.leaf, hsearch.conditions⟩
  · intro b hb i' hi'
    rcases Multiset.mem_add.mp hb with hb | hb
    · exact h.infos b (by rw [htransit]; exact Multiset.mem_cons_of_mem hb) i' hi'
    · rw [List.mem_singleton.mp hb] at hi'
      cases hi'

theorem complete (h : Asking cfg n r m depth accepted w) (hinv : w.Inv cfg) (hdepth : depth ≤ 9)
    (htransit : w.transit = a ::ₘ rest) {i : InfoMsg} {client : Host} {st : QueryState} {t : ℕ}
    {queue : List (Str × ℕ)} {req : ℕ} (hmsg : a.msg = .info i)
    (hpending : w.server.pending i.request_id = some ⟨client, some st⟩)
    (hqueue : st.node_queue = (i.nameA, t) :: queue)
    (hempty : (st.advance (i.nameA, t) queue i.wire).node_queue = []) :
    Answered cfg n r m depth accepted (World.post
      { w with
        server := { w.server.close i.request_id with cud_blocking := false }
        transit := rest }
      [⟨cfg.address, client, .response
        ⟨completeText (st.advance (i.nameA, t) queue i.wire).response, i.request_id⟩, req⟩]) := by
  have hid := h.id_eq hpending
  obtain ⟨st₀, done, hst, hsearch, hlen⟩ := h.pending
  have hmem : (n, r) ∈ w.accepted := by
    rw [h.edges]
    exact List.mem_append_right _ (List.mem_singleton_self _)
  have hunanswered : answers cfg n w.sent = [] :=
    hinv.ledger.unanswered (n, r) hmem (by simp [hst])
  rw [hid, hst] at hpending
  cases hpending
  obtain ⟨hrelations, hvalid⟩ := h.infos a (by simp [htransit]) i hmsg
  have hround := hsearch.round hdepth (i := i.wire) hqueue hrelations hvalid
  refine ⟨hmem, ⟨⟨cfg.address, r.src, .response ⟨_, n⟩, req⟩, _, ?_, rfl, rfl,
    hround.lists hempty⟩, ?_⟩
  · rw [World.post_sent, answers_append, hunanswered]
    simp [answers, Msg.isResponse, Msg.request_id, hid]
  · rw [World.post_sent, asked_frame fun b hb => Or.inr (Or.inl (by
      rw [List.mem_singleton.mp hb]; rfl)), hlen]
    have hball := hround.search.length_le_ball
    rw [List.length_append] at hball
    exact (Nat.le_add_right _ _).trans hball

/-- **One turn while the query is pending**, if a repository that is asked has exactly the rows of
the graph: the query stays pending and no `C` is sent, or it is answered. -/
theorem turn (h : Asking cfg n r m depth accepted w) (hinv : w.Inv cfg) (hdepth : depth ≤ 9)
    (htransit : w.transit = a ::ₘ rest) (hturn : Turn cfg { w with transit := rest } a w')
    (hrow : a.dst ∈ cfg.repos → ∀ q, a.msg = .query q → ∀ y,
      y ∈ (w.repo a.dst).storage.relationsOf q.nameA ↔ y ∈ neighbours accepted q.nameA)
    (halone : w'.server.pending n ≠ none → ∀ p ∈ w'.accepted, n < p.1 → p.2.msg.isQuery = false) :
    Asking cfg n r m depth accepted w' ∧
        (∃ es, w'.sent = w.sent ++ es ∧ ∀ b ∈ es, ∀ c, b.msg ≠ .node c) ∨
      Answered cfg n r m depth accepted w' := by
  have hmem : a ∈ w.transit := by simp [htransit]
  have hsub : ∀ (es : List Envelope), ∀ b ∈ rest + (es : Multiset Envelope),
      b ∈ w.transit ∨ b ∈ es := by
    intro es b hb
    rw [htransit]
    exact (Multiset.mem_add.mp hb).imp (Multiset.mem_cons_of_mem ·) Multiset.mem_coe.mp
  have hquiet : ∀ w', w'.server = w.server → w'.accepted = w.accepted →
      w'.transit = rest + (([] : List Envelope) : Multiset Envelope) → w'.sent = w.sent ++ [] →
      Asking cfg n r m depth accepted w' ∧
        ∃ es, w'.sent = w.sent ++ es ∧ ∀ b ∈ es, ∀ c, b.msg ≠ .node c := by
    intro w' hserver haccepted htransit' hsent
    refine ⟨h.frame hserver haccepted ?_ hsent (by simp) (by simp), [], hsent, by simp⟩
    rw [htransit']
    exact hsub []
  cases hturn with
  | busy hdst hsrc hmsg hwrite hbusy =>
    refine Or.inl ⟨h.frame rfl rfl (hsub _) rfl ?_ ?_, _, rfl, ?_⟩
    · intro b hb
      rw [List.mem_singleton.mp hb]
      exact Or.inl rfl
    · intro b hb i hi
      rw [List.mem_singleton.mp hb] at hi
      cases hi
    · intro b hb c hc
      rw [List.mem_singleton.mp hb] at hc
      cases hc
  | accept hdst hsrc hmsg hfree =>
    -- a write would have been refused, and no other query is accepted
    obtain ⟨st, done, hst, -⟩ := h.pending
    have hlt : n < w.server.current_request := (hinv.ledger.mem_range (p := (n, r)) (by
      rw [h.edges]
      exact List.mem_append_right _ (List.mem_singleton_self _))).2
    have hsome : (w.server.book a.src a.msg).pending n ≠ none := by
      have hne : (n : ℤ) ≠ w.server.current_request := by omega
      simp [Process.book, Process.file, hne, hst]
    have hquery := halone hsome (w.server.current_request, a)
      (List.mem_append_right _ (List.mem_singleton_self _)) hlt
    have hfree' := hfree hquery
    simp only at hfree'
    rw [h.blocked] at hfree'
    cases hfree'
  | @response m' client hdst hsrc hmsg hpending =>
    obtain ⟨st, done, hst, -⟩ := h.pending
    simp only at hpending
    rw [h.id_eq hpending, hst] at hpending
    cases hpending
  | @complete i client st t queue hdst hsrc hmsg hpending hqueue hempty =>
    exact Or.inr (h.complete hinv hdepth htransit hmsg hpending hqueue hempty)
  | @next i client st t s queue queue' v hdst hsrc hmsg hpending hqueue hnext hv =>
    refine Or.inl ⟨h.next hdepth htransit hmsg hpending hqueue, _, rfl, ?_⟩
    intro b hb c hc
    rw [List.mem_singleton.mp hb] at hc
    cases hc
  | @stored c hdst hmsg hhosts hrels =>
    have hsec := h.secondary hinv hmem hdst (by rw [hmsg]; rfl)
    rw [hmsg] at hsec
    obtain ⟨hid, hnil⟩ := hsec
    refine Or.inl (hquiet _ rfl rfl ?_ ?_) <;> simp [reverses, hid, hnil, World.stamp, World.post]
  | @asked q hdst hmsg =>
    obtain ⟨hleaf, hconditions⟩ := h.queries a hmem hdst q hmsg
    refine Or.inl ⟨h.frame rfl rfl (hsub _) rfl ?_ ?_, _, rfl, ?_⟩
    · intro b hb
      rw [List.mem_singleton.mp hb]
      exact Or.inl rfl
    · intro b hb i hi
      rw [List.mem_singleton.mp hb] at hi
      cases hi
      refine ⟨hrow hdst q hmsg, ?_⟩
      simp [queryReply, validNode, hleaf, hconditions, evaluate]
    · intro b hb c hc
      rw [List.mem_singleton.mp hb] at hc
      cases hc
  | @updated c hdst hmsg =>
    have hsec := h.secondary hinv hmem hdst (by rw [hmsg]; rfl)
    rw [hmsg] at hsec
    exact hsec.elim
  | @deleted c hdst hmsg hhosts hrel =>
    have hsec := h.secondary hinv hmem hdst (by rw [hmsg]; rfl)
    rw [hmsg] at hsec
    obtain ⟨hid, hnil⟩ := hsec
    refine Or.inl (hquiet _ rfl rfl ?_ ?_) <;>
      simp [reversesDelete, hid, hnil, World.stamp, World.post]
  | taken hdst => exact Or.inl (hquiet _ rfl rfl (by simp) (by simp))

end Asking

theorem Answered.turn (h : Answered cfg n r m depth accepted w) (hinv : w.Inv cfg)
    (hinv' : w'.Inv cfg) (hplaced : Placed cfg a)
    (hturn : Turn cfg { w with transit := rest } a w') : Answered cfg n r m depth accepted w' := by
  have haccepted := hturn.accepted_subset
  obtain ⟨b, text, hanswer, hdst, hmsg, hlists⟩ := h.answer
  obtain ⟨es, hsent, -⟩ := hturn.sends hplaced
  have hnone : w.server.pending n = none := by
    by_contra hsome
    rw [hinv.ledger.unanswered (n, r) h.mem hsome] at hanswer
    cases hanswer
  have hlt := (hinv.ledger.mem_range h.mem).2
  refine ⟨haccepted h.mem, ⟨b, text, ?_, hdst, hmsg, hlists⟩, ?_⟩
  · have hone : answers cfg n w'.sent = [b] ++ answers cfg n es := by
      rw [hsent, answers_append, hanswer]
    by_cases hpending : w'.server.pending n = none
    · obtain ⟨c, hc, -⟩ := hinv'.ledger.answered (n, r) (haccepted h.mem) hpending
      rw [hone] at hc
      have hnil : answers cfg n es = [] := (List.cons.inj hc).2
      rw [hone, hnil, List.append_nil]
    · have := hinv'.ledger.unanswered (n, r) (haccepted h.mem) hpending
      rw [hone] at this
      cases this
  · rw [asked_of_turn hturn hnone fun heq => by simp only at hlt; omega]
    exact h.bounded

end Turns

/-! ## The order of the inboxes -/

/-- Behind the `R`s to a repository there is no `C` to it, nor is one to be sent. -/
structure Ordered (cfg : Config) (q : Inboxes) : Prop where
  unsent : ∀ a ∈ q.unsent, a.dst ∈ cfg.repos → ∀ c, a.msg ≠ .node c
  inbox : q.inbox.Pairwise fun a b =>
    a.dst ∈ cfg.repos → a.msg.isQuery = true → b.dst = a.dst → ∀ c, b.msg ≠ .node c

section Order

variable {cfg : Config} {n : ℕ} {r : Envelope} {m : QueryMsg} {depth : ℕ}
  {accepted : List (ℕ × Envelope)} {q q' : Inboxes} {host : Host} {before after es : List Envelope}
  {a : Envelope}

theorem Ordered.enter (h : Ordered cfg q) {b : Envelope} {l : List Envelope} (hl : l ⊆ q.unsent)
    (hb : b.dst ∈ cfg.repos → ∀ c, b.msg ≠ .node c) (w : World) :
    Ordered cfg ⟨w, q.inbox ++ [b], l⟩ where
  unsent := fun a ha => h.unsent a (hl ha)
  inbox := by
    refine List.pairwise_append.mpr ⟨h.inbox, List.pairwise_singleton _ _, ?_⟩
    intro a _ b' hb' hdst _ heq
    rw [List.mem_singleton.mp hb'] at heq ⊢
    exact hb (heq ▸ hdst)

theorem Ordered.took (h : Ordered cfg q) (ht : q.Took cfg host before a after es q')
    (hes : ∀ b ∈ es, ∀ c, b.msg ≠ .node c) : Ordered cfg q' where
  unsent := by
    intro b hb hdst
    rw [ht.unsent'] at hb
    rcases List.mem_append.mp hb with hb | hb
    · exact h.unsent b hb hdst
    · exact hes b hb
  inbox := by
    rw [ht.inbox']
    have hinbox := h.inbox
    rw [ht.inbox] at hinbox
    exact hinbox.sublist ((List.sublist_cons_self a after).append_left before)

/-- **A repository that is asked has exactly the rows of the graph.** -/
theorem Ordered.rows (h : Ordered cfg q) (hask : Asking cfg n r m depth accepted q.world)
    (hquery : r.msg = .query m) (hinv : q.Inv cfg) (ht : q.Took cfg host before a after es q')
    (hdst : a.dst ∈ cfg.repos) {u : QueryMsg} (hmsg : a.msg = .query u) (y : Str) :
    y ∈ (q.world.repo a.dst).storage.relationsOf u.nameA ↔ y ∈ neighbours accepted u.nameA := by
  have hgraph : ∀ x, neighbours q.world.accepted x = neighbours accepted x := by
    intro x
    rw [hask.edges]
    exact neighbours_append_query hquery x
  have hmem : a ∈ q.world.transit := by simp [ht.transit]
  have howner := hinv.rows.routed a hmem hdst
  rw [Storage.mem_relationsOf]
  constructor
  · intro hrow
    have := hinv.rows.sound a.dst hdst _ hrow
    rwa [hgraph] at this
  · intro hy
    rw [← hgraph] at hy
    rcases hinv.rows.complete _ _ hy with hrow | ⟨b, hb, hbdst, c, hc, hedge⟩
    · rw [howner, hmsg]
      exact hrow
    · -- every `C` still in transit is behind the `R`, or a forwarded one
      exfalso
      have hsec := hask.secondary hinv.world hb hbdst (by rw [hc]; rfl)
      rw [hc] at hsec
      rcases hedge with ⟨hname, -⟩ | ⟨hhosts, -⟩
      · have hsame : b.dst = a.dst := by
          rw [hinv.rows.routed b hb hbdst, howner, hc, hmsg]
          show owner cfg.hosts c.nameA = owner cfg.hosts u.nameA
          rw [hname]
        rw [hinv.transit, ht.inbox, Multiset.mem_coe] at hb
        rcases List.mem_append.mp hb with hb | hb
        · rcases List.mem_append.mp hb with hb | hb
          · exact ht.skipped b hb (hsame.trans ht.dst)
          · rcases List.mem_cons.mp hb with rfl | hb
            · rw [hmsg] at hc
              cases hc
            · have hinbox := h.inbox
              rw [ht.inbox] at hinbox
              exact List.rel_of_pairwise_cons (List.pairwise_append.mp hinbox).2.1 hb hdst
                (by rw [hmsg]; rfl) hsame c hc
        · exact h.unsent b hb hbdst c hc
      · exact hhosts hsec.2

end Order

/-! ## The query is accepted -/

theorem Turn.of_query {cfg : Config} {w w' : World} {a : Envelope} {rest : Multiset Envelope}
    {m : QueryMsg} (hturn : Turn cfg { w with transit := rest } a w') (hdst : a.dst = cfg.address)
    (hmsg : a.msg = .query m) :
    w' = World.post { w with
        server := w.server.book a.src a.msg
        transit := rest
        accepted := w.accepted ++ [(w.server.current_request, a)] }
      [⟨cfg.address, owner cfg.hosts a.msg.name,
        a.msg.forwarded cfg.hosts w.server.current_request, w.server.current_request⟩] := by
  have hrepo : a.dst ∉ cfg.repos := hdst ▸ cfg.apart
  cases hturn with
  | busy _ _ _ hwrite _ =>
    rw [hmsg] at hwrite
    cases hwrite
  | accept => rfl
  | response _ _ hmsg' _ => rw [hmsg] at hmsg'; cases hmsg'
  | complete _ _ hmsg' _ _ _ => rw [hmsg] at hmsg'; cases hmsg'
  | next _ _ hmsg' _ _ _ _ => rw [hmsg] at hmsg'; cases hmsg'
  | stored hdst' => exact absurd hdst' hrepo
  | asked hdst' => exact absurd hdst' hrepo
  | updated hdst' => exact absurd hdst' hrepo
  | deleted hdst' => exact absurd hdst' hrepo
  | taken hclient => exact absurd hdst hclient.1

section Accept

variable {cfg : Config} {q q' : Inboxes} {before after es : List Envelope} {a : Envelope}
  {m : QueryMsg}

/-- With every accepted request answered, no message in transit carries one. -/
theorem Inboxes.Inv.quiet (h : q.Inv cfg)
    (hanswered : ∀ p ∈ q.world.accepted, answers cfg p.1 q.world.sent ≠ []) :
    (∀ id, q.world.server.pending id = none) ∧
      ∀ b ∈ q.world.transit, ∀ id, 1 ≤ id → ¬ Carries cfg id b := by
  have hnone : ∀ id, q.world.server.pending id = none := by
    intro id
    by_contra hsome
    obtain ⟨e, he⟩ := Option.ne_none_iff_exists'.mp hsome
    obtain ⟨p, hp, rfl, -⟩ := h.world.ledger.entry id e he
    exact hanswered p hp (h.world.ledger.unanswered p hp hsome)
  refine ⟨hnone, fun b hb id hid hcarries => ?_⟩
  obtain ⟨e, he, -⟩ := h.world.ledger.pending_of_carries hb hid hcarries
  rw [hnone id] at he
  cases he

theorem Asking.start (h : q.Inv cfg) (hadm : q.world.Admissible)
    (ht : q.Took cfg cfg.address before a after es q') (hmsg : a.msg = .query m)
    (hleaf : m.leaf = false) (hconditions : m.conditions = [])
    (hanswered : ∀ p ∈ q.world.accepted, answers cfg p.1 q.world.sent ≠ []) :
    Asking cfg q.world.server.current_request a m m.depth.toNat q.world.accepted q'.world := by
  obtain ⟨hnone, hquiet⟩ := h.quiet hanswered
  have hmem : a ∈ q.world.transit := by simp [ht.transit]
  have hfits : m.Fits := by
    have := hadm.fits a hmem
    rwa [hmsg] at this
  have hdepth : toSizeT m.depth = m.depth.toNat := by
    have := hfits.depth
    unfold toSizeT
    omega
  have hold : ∀ b ∈ (↑(before ++ after ++ q.unsent) : Multiset Envelope), b ∈ q.world.transit := by
    intro b hb
    rw [ht.transit]
    exact Multiset.mem_cons_of_mem hb
  rw [ht.turn.of_query ht.dst hmsg, hmsg]
  refine ⟨⟨QueryState.start m, [], ?_, Searching.start hleaf hconditions hdepth, ?_⟩, ?_, ?_, rfl,
    ?_, ?_⟩
  · simp [Process.book, Process.file, Msg.state]
  · rw [World.post_sent, asked_append, h.unasked _ le_rfl]
    simp [asked, Msg.forwarded, Msg.isQuery, Msg.request_id]
  · intro id hne
    simp [Process.book, Process.file, hne, hnone id]
  · simp [Process.book, Msg.isQuery]
  · intro b hb hdst u hu
    rcases Multiset.mem_add.mp hb with hb | hb
    · rcases (h.world.placed b (hold b hb)).at_repo hdst with hsec | ⟨-, hid, hreq⟩
      · rw [hu] at hsec
        exact hsec.elim
      · exact absurd ⟨rfl, fun hclient => hclient.2 hdst⟩
          (hquiet b (hold b hb) b.msg.request_id (by omega))
    · rw [List.mem_singleton.mp hb] at hu
      cases hu
      exact ⟨hleaf, hconditions⟩
  · intro b hb i hi
    rcases Multiset.mem_add.mp hb with hb | hb
    · cases h.world.placed b (hold b hb) with
      | reply _ hdst _ hid hreq =>
        exact absurd ⟨rfl, fun hclient => hclient.1 hdst⟩
          (hquiet b (hold b hb) b.msg.request_id (by omega))
      | answer _ _ hresponse => rw [hi] at hresponse; cases hresponse
      | request _ _ hrequest _ => rw [hi] at hrequest; exact hrequest.elim
      | secondary _ _ hsec => rw [hi] at hsec; exact hsec.elim
      | forwarded _ _ hfwd _ _ => rw [hi] at hfwd; exact hfwd.elim
    · rw [List.mem_singleton.mp hb] at hi
      cases hi

/-- The reverse messages of the answered creates have been sent, so they are ahead of the query. -/
theorem Ordered.start (h : q.Inv cfg) (ht : q.Took cfg cfg.address before a after es q')
    (hmsg : a.msg = .query m)
    (hanswered : ∀ p ∈ q.world.accepted, answers cfg p.1 q.world.sent ≠ []) : Ordered cfg q' := by
  obtain ⟨-, hquiet⟩ := h.quiet hanswered
  have hold : ∀ b ∈ before ++ after ++ q.unsent, b ∈ q.world.transit := by
    intro b hb
    rw [ht.transit]
    exact Multiset.mem_cons_of_mem hb
  have hsecondary : ∀ b ∈ before ++ after ++ q.unsent, b.dst ∈ cfg.repos →
      b.src ∈ cfg.repos ∧ b.msg.IsSecondary := by
    intro b hb hdst
    cases h.world.placed b (hold b hb) with
    | secondary hsrc _ hsec => exact ⟨hsrc, hsec⟩
    | forwarded _ _ _ hid hreq =>
      exact absurd ⟨rfl, fun hclient => hclient.2 hdst⟩
        (hquiet b (hold b hb) b.msg.request_id (by omega))
    | request haddr _ _ _ => exact absurd (haddr ▸ hdst) cfg.apart
    | answer _ hclient _ => exact absurd hdst hclient.2
    | reply _ haddr _ _ _ => exact absurd (haddr ▸ hdst) cfg.apart
  have hes : es = [⟨cfg.address, owner cfg.hosts a.msg.name,
      a.msg.forwarded cfg.hosts q.world.server.current_request,
      q.world.server.current_request⟩] := by
    have hsent := ht.sent
    rw [ht.turn.of_query ht.dst hmsg, World.post_sent] at hsent
    exact (List.append_cancel_left hsent).symm
  constructor
  · intro b hb hdst c hc
    rw [ht.unsent'] at hb
    rcases List.mem_append.mp hb with hb | hb
    · -- its sender would still have the reply to send that answers the create
      have hsrc := (hsecondary b (List.mem_append_right _ hb) hdst).1
      have hin : b ∈ q.unsent.filter fun a => decide (a.src = b.src) := by simpa using hb
      rcases h.replies b.src hsrc with hnil | ⟨es', b', heq, hdst', hid⟩
      · rw [hnil] at hin
        cases hin
      · have hb' : b' ∈ q.unsent := by
          refine List.mem_of_mem_filter (p := fun a => decide (a.src = b.src)) ?_
          rw [heq]
          exact List.mem_append_right _ (List.mem_singleton_self _)
        exact hquiet b' (hold b' (List.mem_append_right _ hb')) b'.msg.request_id hid
          ⟨rfl, fun hclient => hclient.1 hdst'⟩
    · rw [hes] at hb
      rw [List.mem_singleton.mp hb, hmsg] at hc
      cases hc
  · rw [ht.inbox']
    refine List.pairwise_of_forall_mem_list fun b hb b' _ hdst hquery _ c _ => ?_
    have hsec := (hsecondary b (List.mem_append_left _ hb) hdst).2
    cases hkind : b.msg with
    | query u => rw [hkind] at hsec; exact hsec
    | _ => rw [hkind] at hquery; cases hquery

end Accept

/-! ## Runs -/

/-- While the query `n` is pending, no later query has been accepted. -/
def Alone (n : ℕ) (q : Inboxes) : Prop :=
  q.world.server.pending n ≠ none → ∀ p ∈ q.world.accepted, n < p.1 → p.2.msg.isQuery = false

instance (n : ℕ) : DecidablePred (Alone n) := fun _ => inferInstanceAs (Decidable (_ → _))

section Runs

variable {cfg : Config} {n : ℕ} {r : Envelope} {m : QueryMsg} {depth : ℕ}
  {accepted : List (ℕ × Envelope)} {q q' : Inboxes}

/-- The query is pending, with the inboxes in order, or answered. -/
def Served (cfg : Config) (n : ℕ) (r : Envelope) (m : QueryMsg) (depth : ℕ)
    (accepted : List (ℕ × Envelope)) (q : Inboxes) : Prop :=
  Asking cfg n r m depth accepted q.world ∧ Ordered cfg q ∨
    Answered cfg n r m depth accepted q.world

theorem Served.step (h : Served cfg n r m depth accepted q) (hquery : r.msg = .query m)
    (hdepth : depth ≤ 9) (hinv : q.Inv cfg) (hadm : q.world.Admissible) (hne : cfg.repos ≠ [])
    {e : Action} (hstep : q.step cfg e = some q') (halone : Alone n q') :
    Served cfg n r m depth accepted q' := by
  have hinv' := hinv.step hadm hne hstep
  cases e with
  | request client msg =>
    obtain ⟨hclient, hmsg, rfl⟩ := Inboxes.step_request hstep
    rcases h with ⟨hask, hord⟩ | hans
    · refine Or.inl ⟨hask.frame rfl rfl ?_ rfl ?_ ?_, hord.enter (List.Subset.refl _) ?_ _⟩
      · exact fun b hb => (Multiset.mem_add.mp hb).imp_right Multiset.mem_coe.mp
      · intro b hb
        rw [List.mem_singleton.mp hb]
        exact Or.inr ⟨hclient, rfl⟩
      · intro b hb i hi
        rw [List.mem_singleton.mp hb] at hi
        subst hi
        exact hmsg.elim
      · intro hdst
        exact absurd hdst cfg.apart
    · obtain ⟨b, text, hanswer, hb⟩ := hans.answer
      have hsrc : ∀ b ∈ [(⟨client, cfg.address, msg, 0⟩ : Envelope)], b.src ≠ cfg.address := by
        intro b hb
        rw [List.mem_singleton.mp hb]
        exact hclient.1
      refine Or.inr ⟨hans.mem, ⟨b, text, ?_, hb⟩, ?_⟩
      · rw [World.post_sent, answers_frame fun b hb => Or.inl (hsrc b hb), hanswer]
      · rw [World.post_sent, asked_frame fun b hb => Or.inl (hsrc b hb)]
        exact hans.bounded
  | take host =>
    obtain ⟨before, a, after, es, ht⟩ := hinv.took hadm hne hstep
    rcases h with ⟨hask, hord⟩ | hans
    · rcases hask.turn hinv.world hdepth ht.transit ht.turn
        (fun hdst u hu => hord.rows hask hquery hinv ht hdst hu) halone with
        ⟨hask', es', hsent, hes⟩ | hans
      · refine Or.inl ⟨hask', hord.took ht ?_⟩
        rwa [List.append_cancel_left (ht.sent.symm.trans hsent)]
      · exact Or.inr hans
    · have hplaced := hinv.world.placed a (by simp [ht.transit])
      exact Or.inr (hans.turn hinv.world hinv'.world hplaced ht.turn)
  | send host =>
    obtain ⟨l₁, a, l₂, hunsent, -, -, rfl⟩ := Inboxes.step_send hstep
    rcases h with ⟨hask, hord⟩ | hans
    · refine Or.inl ⟨hask, hord.enter ?_ ?_ _⟩
      · rw [hunsent]
        exact ((List.sublist_cons_self a l₂).append_left l₁).subset
      · exact hord.unsent a (by simp [hunsent])
    · exact Or.inr hans

/-- Some process can go on as long as a message is in an inbox or to be sent. -/
theorem Inboxes.Inv.moves (h : q.Inv cfg) (hadm : q.world.Admissible) (hne : cfg.repos ≠ [])
    (hsome : q.inbox ++ q.unsent ≠ []) :
    ∃ e q', q.step cfg e = some q' ∧ ∀ client msg, e ≠ .request client msg := by
  cases hunsent : q.unsent with
  | cons a unsent =>
    refine ⟨.send a.src, ⟨q.world, q.inbox ++ [a], q.unsent.erase a⟩, ?_, by simp⟩
    simp [Inboxes.step, hunsent]
  | nil =>
    cases hinbox : q.inbox with
    | nil => simp [hinbox, hunsent] at hsome
    | cons a inbox =>
      have hmem : a ∈ q.world.transit := by simp [h.transit, hinbox]
      obtain ⟨w, hw, -⟩ := h.world.turn (q.world.transit.erase a) hadm hne hmem
      have hw' : q.world.step cfg (.deliver a noThrow) = some w := by
        simp only [World.step]
        rw [if_pos hmem, hw]
      refine ⟨.take a.dst, ⟨w, q.inbox.erase a, w.sent.drop q.world.sent.length⟩, ?_, by simp⟩
      simp [Inboxes.step, hunsent, hinbox, hw']

end Runs

/-- Client 7 creates a node with a relation, and the create is answered while its reverse message is
still in the inbox of the repository. Client 8 has sent a query. -/
def createThenQuery : List Action :=
  let server := oneRepository.address
  let repository : Host := ⟨str "10.0.0.2", 50001⟩
  [.request (clientHost 7) (.node ⟨str "a", [], [str "b"], 0, []⟩), .take server, .send server,
    .take repository, .send repository, .send repository, .take server, .send server,
    .request (clientHost 8) (.query ⟨str "b", 1, false, false, [], 0⟩)]

/-- The query is served to its end. -/
def serveQuery : List Action :=
  let server := oneRepository.address
  let repository : Host := ⟨str "10.0.0.2", 50001⟩
  [.send server, .take repository, .take repository, .send repository, .take server, .send server,
    .take repository, .send repository, .take server, .send server, .take (clientHost 7),
    .take (clientHost 8)]

end DGDB
