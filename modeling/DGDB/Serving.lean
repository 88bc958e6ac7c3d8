import Mathlib
import DGDB.Coming

/-!
# The request that is being served

What is known of the deployment while one request is being served: the search of a query in the
store, the stage of the request and the answers of the requests before it.
-/

namespace DGDB

open EventSystem GraphSearch

/-! ## The search of a query -/

/-- The state of the query `m` that has searched `done` in the store `g`. -/
structure Scanning (g : GraphStore) (m : QueryMsg) (done : List (Str × ℕ)) (st : QueryState) :
    Prop where
  depth_le : m.depth.toNat ≤ 9
  search : Search (fun u v => v ∈ g.tables.relations u) m.nameA m.depth.toNat done st.node_queue
    st.visited
  leaf : st.leaf = m.leaf
  attr : st.attr = m.attr
  conditions : st.conditions = m.conditions
  depth_eq : st.depth = m.depth.toNat
  response : st.response = g.lines m done
  /-- What is left are the names that the search of the store has still to visit. -/
  visits : g.visits m = done ++ order g.tables.relations
    ((ball g.tables.relations m.depth.toNat m.nameA).length - done.length) st.node_queue st.visited

/-- The reply of the store `g` to the query `m` for the name at the front. -/
structure ReplyOf (g : GraphStore) (m : QueryMsg) (t : ℕ) (i : InfoMsg) : Prop where
  relations : i.relations = g.tables.relations i.nameA
  attributes : i.attributes = g.tables.attributes i.nameA
  valid_node : i.valid_node = g.valid m i.nameA t

namespace Scanning

variable {g : GraphStore} {m : QueryMsg} {done : List (Str × ℕ)} {st : QueryState}

theorem start (g : GraphStore) (hle : m.depth.toNat ≤ 9)
    (hdepth : toSizeT m.depth = m.depth.toNat) :
    Scanning g m [] (QueryState.start m) where
  depth_le := hle
  search := by
    simp only [QueryState.start, hdepth]
    exact Search.start _ m.nameA m.depth.toNat
  leaf := rfl
  attr := rfl
  conditions := rfl
  depth_eq := hdepth
  response := rfl
  visits := by
    simp only [QueryState.start, hdepth]
    rfl

/-- **One reply of the store** is one round of its search. -/
theorem round (h : Scanning g m done st) {i : InfoMsg} {t : ℕ} {queue : List (Str × ℕ)}
    (hqueue : st.node_queue = (i.nameA, t) :: queue)
    (hreply : ReplyOf g m t i) :
    Scanning g m (done ++ [(i.nameA, t)]) (st.advance (i.nameA, t) queue i.wire) where
  depth_le := h.depth_le
  search := by
    have hsearch := h.search
    rw [hqueue] at hsearch
    exact hsearch.round i.relations fun y => by rw [hreply.relations]
  leaf := h.leaf
  attr := h.attr
  conditions := h.conditions
  depth_eq := h.depth_eq
  response := by
    have hle : t ≤ m.depth.toNat := (h.search.dist (i.nameA, t) (by simp [hqueue])).1
    have hsub : subSizeT st.depth t = m.depth.toNat - t := by
      rw [h.depth_eq]
      exact subSizeT_of_le hle (by have := h.depth_le; omega)
    unfold GraphStore.lines listing
    rw [List.flatMap_append, List.flatMap_singleton]
    show st.response ++ (if i.valid_node = true then nodeLines st.attr i.nameA
      (subSizeT st.depth t) (i.attributes.map Attribute.wire) else []) = _
    rw [h.response, nodeLines_wire, hsub, h.attr, hreply.valid_node, hreply.attributes]
    rfl
  visits := by
    have hball := h.search.length_le_ball
    rw [hqueue, List.length_cons] at hball
    obtain ⟨k, hk⟩ : ∃ k, (ball g.tables.relations m.depth.toNat m.nameA).length - done.length =
        k + 1 := ⟨_, (Nat.succ_pred_eq_of_pos (by omega)).symm⟩
    have hk' : (ball g.tables.relations m.depth.toNat m.nameA).length -
        (done ++ [(i.nameA, t)]).length = k := by
      rw [List.length_append, List.length_singleton]
      omega
    rw [h.visits, hk, hk', hqueue, order, List.append_assoc, ← hreply.relations]
    rfl

theorem complete (h : Scanning g m done st) (hempty : st.node_queue = []) :
    completeText st.response = g.answer (.query m) := by
  have hvisits := h.visits
  rw [hempty] at hvisits
  have hnil : ∀ k, order g.tables.relations k [] st.visited = [] := by
    intro k
    cases k <;> rfl
  rw [hnil, List.append_nil] at hvisits
  rw [h.response, GraphStore.answer, hvisits]

end Scanning

/-! ## The request that is being served -/

/-- What is known of the last accepted request `r`, number `n`, and of the store `g` after the
requests before it. -/
inductive Serving (cfg : Config) (w : World) (n : ℕ) (r : Envelope) (g : GraphStore)
    (follows : GraphStore → Prop) : Prop
  /-- A write on its way to its repository. -/
  | forwarded {a : Envelope} (hpending : w.server.pending n = some ⟨r.src, none⟩)
      (ha : a ∈ w.transit) (hdst : a.dst ∈ cfg.repos) (hmsg : a.msg = r.msg.forwarded cfg.hosts n)
      (hfollows : follows g)
  /-- The reply to a write on its way to the server. -/
  | replied {a : Envelope} (hpending : w.server.pending n = some ⟨r.src, none⟩)
      (ha : a ∈ w.transit) (hdst : a.dst = cfg.address)
      (hmsg : a.msg = .response ⟨g.answer r.msg, n⟩) (hfollows : follows (g.apply r.msg))
  /-- A query that searches the store. -/
  | searching {m : QueryMsg} {st : QueryState} {done : List (Str × ℕ)} (hmsg : r.msg = .query m)
      (hpending : w.server.pending n = some ⟨r.src, some st⟩) (hscanning : Scanning g m done st)
      (hasked : ∀ a ∈ w.transit, a.dst ∈ cfg.repos → ∀ q, a.msg = .query q →
        ∃ t queue, st.node_queue = (q.nameA, t) :: queue ∧ q.depth = (t : ℕ) ∧
          q.leaf = m.leaf ∧ q.conditions = m.conditions)
      (hreplied : ∀ a ∈ w.transit, ∀ i, a.msg = .info i →
        ∃ t queue, st.node_queue = (i.nameA, t) :: queue ∧ ReplyOf g m t i)
      (hfollows : follows g)

/-- Either no request is being served, or the last one that has been accepted. -/
inductive Stage (cfg : Config) (w : World) (follows : GraphStore → Prop) : Prop
  | idle (hpending : ∀ id, w.server.pending id = none)
      (hfollows : follows (GraphStore.after w.requests))
  | serving {init : List (ℕ × Envelope)} {n : ℕ} {r : Envelope}
      (haccepted : w.accepted = init ++ [(n, r)]) (hrequest : r.msg.IsRequest)
      (honly : ∀ id : ℤ, id ≠ n → w.server.pending id = none)
      (hserving : Serving cfg w n r (GraphStore.after (init.map fun p => p.2.msg)) follows)

section Serve

variable {cfg : Config} {w w' : World} {a b : Envelope} {rest : Multiset Envelope}
  {follows follows' : GraphStore → Prop}

theorem Stage.oneByOne (h : Stage cfg w follows) : w.OneByOne := by
  intro id id' hid hid'
  cases h with
  | idle hpending => exact absurd (hpending id) hid
  | @serving init n r _ _ honly _ =>
    have hn : ∀ k : ℤ, w.server.pending k ≠ none → k = n := fun k hk => by
      by_contra hne
      exact hk (honly k hne)
    rw [hn id hid, hn id' hid']

theorem World.Inv.entry_of_busy (h : w.Inv cfg) (ha : a ∈ w.transit) (hbusy : Busy cfg a) :
    ∃ id e, 1 ≤ id ∧ Carries cfg id a ∧ w.server.pending id = some e ∧ Awaits cfg e a := by
  obtain ⟨id, hid, hcarries⟩ := hbusy
  obtain ⟨e, he, -, hawaits⟩ := h.ledger.pending_of_carries ha hid hcarries
  exact ⟨id, e, hid, hcarries, he, hawaits⟩

theorem World.Inv.rest_idle (h : w.Inv cfg) (hone : w.OneByOne) (htransit : w.transit = a ::ₘ rest)
    (ha : Busy cfg a) (hb : b ∈ rest) : ¬ Busy cfg b := by
  rintro ⟨id', hid', hcb⟩
  obtain ⟨id, hid, hca⟩ := ha
  have hmem : b ∈ w.transit := by rw [htransit]; exact Multiset.mem_cons_of_mem hb
  obtain ⟨e, he, hfilter, -⟩ := h.ledger.pending_of_carries (a := a) (by simp [htransit]) hid hca
  obtain ⟨e', he', -⟩ := h.ledger.pending_of_carries hmem hid' hcb
  obtain rfl := hone id id' (by simp [he]) (by simp [he'])
  rw [htransit] at hfilter
  have hin : b ∈ rest.filter (Carries cfg id) := Multiset.mem_filter.mpr ⟨hb, hcb⟩
  rw [filter_rest hfilter hca] at hin
  exact absurd hin (Multiset.notMem_zero b)

theorem Placed.busy_of_query (h : Placed cfg a) (hdst : a.dst ∈ cfg.repos)
    (hquery : a.msg.isQuery = true) : a.src = cfg.address ∧ Busy cfg a := by
  cases h with
  | request haddr => exact absurd (haddr ▸ hdst) cfg.apart
  | answer _ hclient => exact absurd hdst hclient.2
  | secondary _ _ hsec =>
    cases hmsg : a.msg with
    | query m => rw [hmsg] at hsec; exact hsec.elim
    | _ => rw [hmsg] at hquery; cases hquery
  | forwarded hsrc _ _ hid hreq =>
    exact ⟨hsrc, a.req, by omega, hid, fun hclient => hclient.2 hdst⟩
  | reply _ haddr => exact absurd (haddr ▸ hdst) cfg.apart

theorem Placed.busy_of_info (h : Placed cfg a) {i : InfoMsg} (hmsg : a.msg = .info i) :
    Busy cfg a := by
  cases h with
  | request _ _ hrequest => rw [hmsg] at hrequest; exact hrequest.elim
  | answer _ _ hresponse => rw [hmsg] at hresponse; cases hresponse
  | secondary _ _ hsec => rw [hmsg] at hsec; exact hsec.elim
  | forwarded _ _ hfwd => rw [hmsg] at hfwd; exact hfwd.elim
  | reply _ hdst _ hid hreq => exact ⟨a.req, by omega, hid, fun hclient => hclient.1 hdst⟩

/-- What takes and sends no message of the request leaves its stage as it is. -/
theorem Stage.frame (h : Stage cfg w follows) (hinv : w.Inv cfg)
    (hserver : w'.server = w.server) (haccepted : w'.accepted = w.accepted)
    (hkeep : ∀ b ∈ w.transit, Busy cfg b → b ∈ w'.transit)
    (hnew : ∀ b ∈ w'.transit, b ∈ w.transit ∨
      (b.dst ∈ cfg.repos → b.msg.isQuery = false) ∧ ∀ i, b.msg ≠ .info i)
    (hfollows : ∀ g, follows g → follows' g) : Stage cfg w' follows' := by
  cases h with
  | idle hpending hg =>
    refine Stage.idle (fun id => by rw [hserver, hpending id]) ?_
    rw [World.requests, haccepted]
    exact hfollows _ hg
  | @serving init n r hw hrequest honly hserving =>
    refine Stage.serving (haccepted.trans hw) hrequest
      (fun id hid => by rw [hserver, honly id hid]) ?_
    cases hserving with
    | @forwarded a hpending ha hdst hmsg hg =>
      have hid : a.msg.request_id = n := hmsg ▸ (hrequest.forwarded cfg.hosts n).2.1
      have hbusy : Busy cfg a :=
        ⟨n, (hinv.ledger.id_range hpending).1, hid, fun hclient => hclient.2 hdst⟩
      exact Serving.forwarded (by rw [hserver, hpending]) (hkeep a ha hbusy) hdst hmsg
        (hfollows _ hg)
    | @replied a hpending ha hdst hmsg hg =>
      have hbusy : Busy cfg a :=
        ⟨n, (hinv.ledger.id_range hpending).1, by rw [hmsg]; rfl, fun hclient => hclient.1 hdst⟩
      exact Serving.replied (by rw [hserver, hpending]) (hkeep a ha hbusy) hdst hmsg (hfollows _ hg)
    | @searching m st done hmsg hpending hscanning hasked hreplied hg =>
      refine Serving.searching hmsg (by rw [hserver, hpending]) hscanning ?_ ?_ (hfollows _ hg)
      · intro b hb hdst q hq
        rcases hnew b hb with hb | ⟨hquery, -⟩
        · exact hasked b hb hdst q hq
        · have := hquery hdst
          rw [hq] at this
          cases this
      · intro b hb i hi
        rcases hnew b hb with hb | ⟨-, hinfo⟩
        · exact hreplied b hb i hi
        · exact absurd hi (hinfo i)

end Serve

/-! ## The answers -/

/-- Each answer is that of the store after the requests before it. -/
def Texts (cfg : Config) (accepted : List (ℕ × Envelope)) (sent : List Envelope) : Prop :=
  ∀ init p rest, accepted = init ++ p :: rest → ∀ b ∈ answers cfg p.1 sent,
    b.msg = .response ⟨(GraphStore.after (init.map fun p => p.2.msg)).answer p.2.msg, p.1⟩

section Texts

variable {cfg : Config} {accepted init : List (ℕ × Envelope)} {sent es : List Envelope}
  {n : ℕ} {r b : Envelope}

theorem Texts.frame (h : Texts cfg accepted sent)
    (hes : ∀ b ∈ es, b.src ≠ cfg.address ∨ b.msg.isResponse = false) :
    Texts cfg accepted (sent ++ es) := by
  intro init p rest heq b hb
  rw [answers_frame fun c hc => (hes c hc).imp_right Or.inl] at hb
  exact h init p rest heq b hb

theorem Texts.accept (h : Texts cfg accepted sent) (hfuture : answers cfg n sent = [])
    (hb : b.msg.isResponse = false) : Texts cfg (accepted ++ [(n, r)]) (sent ++ [b]) := by
  have hframe : ∀ id, answers cfg id (sent ++ [b]) = answers cfg id sent := fun id =>
    answers_frame fun c hc => by
      rw [List.mem_singleton.mp hc]
      exact Or.inr (Or.inl hb)
  intro init p rest heq c hc
  rw [hframe] at hc
  rcases List.eq_nil_or_concat rest with rfl | ⟨rest', p', rfl⟩
  · obtain ⟨-, hp⟩ := List.append_inj' heq rfl
    obtain rfl := (List.cons.inj hp).1
    rw [hfuture] at hc
    exact absurd hc List.not_mem_nil
  · rw [List.concat_eq_append, ← List.cons_append, ← List.append_assoc] at heq
    exact h init p rest' (List.append_inj' heq rfl).1 c hc

theorem Texts.answer (h : Texts cfg (init ++ [(n, r)]) sent)
    (hnodup : ((init ++ [(n, r)]).map Prod.fst).Nodup)
    (hb : b.msg = .response ⟨(GraphStore.after (init.map fun p => p.2.msg)).answer r.msg, n⟩) :
    Texts cfg (init ++ [(n, r)]) (sent ++ [b]) := by
  intro init' p rest heq c hc
  rw [answers_append] at hc
  rcases List.mem_append.mp hc with hc | hc
  · exact h init' p rest heq c hc
  · obtain ⟨hc, hid⟩ := List.mem_filter.mp hc
    obtain rfl := List.mem_singleton.mp hc
    have hp : n = p.1 := by
      have hid' := (of_decide_eq_true hid).2.2
      rw [hb] at hid'
      exact Int.ofNat.inj hid'
    -- the last request is the only one with its number
    rcases List.eq_nil_or_concat rest with rfl | ⟨rest', p', rfl⟩
    · obtain ⟨rfl, hlast⟩ := List.append_inj' heq rfl
      obtain rfl := (List.cons.inj hlast).1
      exact hb
    · rw [List.concat_eq_append, ← List.cons_append, ← List.append_assoc] at heq
      obtain ⟨rfl, -⟩ := List.append_inj' heq rfl
      rw [List.map_append, List.nodup_append] at hnodup
      refine absurd hp.symm (hnodup.2.2 p.1 ?_ n (by simp))
      simp

end Texts

end DGDB
