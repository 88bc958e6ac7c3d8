import Mathlib
import DGDB.Lib.GrowingSearch
import DGDB.Recorded
import DGDB.Visibility

/-!
# Queries beside creates

A query is not atomic: between two of its replies the repositories store what creates bring. The
tables only grow, so its answer lies between the tables at the time it was accepted and those at the
time it is answered, whatever else the deployment does meanwhile.
-/

namespace DGDB

open EventSystem GraphSearch

/-! ## The tables of a deployment -/

/-- What a query reads of each name. -/
structure Tables where
  relations : Str → List Str
  attributes : Str → List Attribute

namespace Tables

/-- Rows are only added, behind those that are there. -/
instance : Preorder Tables where
  le s t := ∀ x, s.relations x <+: t.relations x ∧ s.attributes x <+: t.attributes x
  le_refl _ _ := ⟨List.prefix_rfl, List.prefix_rfl⟩
  le_trans _ _ _ h h' x := ⟨(h x).1.trans (h' x).1, (h x).2.trans (h' x).2⟩

def Edge (t : Tables) (x y : Str) : Prop := y ∈ t.relations x

theorem Edge.mono {s t : Tables} (h : s ≤ t) (x y : Str) (hxy : s.Edge x y) : t.Edge x y :=
  (h x).1.subset hxy

end Tables

/-- The tables of the repositories, each name at the one that owns it. -/
def World.tables (cfg : Config) (w : World) : Tables where
  relations x := (w.repo (owner cfg.hosts x)).storage.relationsOf x
  attributes x := (w.repo (owner cfg.hosts x)).storage.attributesOf x

theorem Storage.relationsOf_mono {st st' : Storage} (h : st.relations <+: st'.relations) (x : Str) :
    st.relationsOf x <+: st'.relationsOf x :=
  (h.filter _).map _

theorem Storage.attributesOf_mono {st st' : Storage} (h : st.attributes <+: st'.attributes)
    (x : Str) : st.attributesOf x <+: st'.attributesOf x :=
  h.filter _

theorem tables_le_of_rows {cfg : Config} {w w' : World}
    (h : ∀ host, (w.repo host).storage.relations <+: (w'.repo host).storage.relations ∧
      (w.repo host).storage.attributes <+: (w'.repo host).storage.attributes) :
    w.tables cfg ≤ w'.tables cfg := fun x =>
  ⟨Storage.relationsOf_mono (h _).1 x, Storage.attributesOf_mono (h _).2 x⟩

/-- **Every turn leaves the tables as they are or adds rows.** -/
theorem Turn.tables_le {cfg : Config} {w w' : World} {a : Envelope} {rest : Multiset Envelope}
    (hturn : Turn cfg { w with transit := rest } a w') : w.tables cfg ≤ w'.tables cfg := by
  cases hturn with
  | @stored m hdst hmsg hhosts hascii =>
    refine tables_le_of_rows fun host => ?_
    show _ <+: (Function.update w.repo a.dst ((w.repo a.dst).store m) host).storage.relations ∧
      _ <+: (Function.update w.repo a.dst ((w.repo a.dst).store m) host).storage.attributes
    by_cases heq : host = a.dst
    · subst heq
      rw [Function.update_self]
      exact ⟨⟨_, (relations_stored _ m.wire).symm⟩, ⟨_, (attributes_stored _ m.wire).symm⟩⟩
    · rw [Function.update_of_ne heq]
      exact ⟨List.prefix_rfl, List.prefix_rfl⟩
  | _ => exact le_rfl

/-! ## Visits -/

/-- A name that a query was answered for, with the depth that was left and the attributes it was
judged by. -/
structure Visit where
  name : Str
  left : ℕ
  attributes : List Attribute

namespace Visit

/-- Whether the query `m` lists the name. -/
def Listed (m : QueryMsg) (v : Visit) : Prop :=
  validNode v.left m.leaf m.conditions v.attributes = true

instance (m : QueryMsg) (v : Visit) : Decidable (v.Listed m) :=
  inferInstanceAs (Decidable (_ = true))

/-- How far the name is from the root. -/
def distance (m : QueryMsg) (v : Visit) : ℕ := m.depth.toNat - v.left

/-- What the response of `m` says about the name. -/
def lines (m : QueryMsg) (v : Visit) : Str :=
  if v.Listed m then nodeLines m.attr v.name (v.distance m) v.attributes else []

/-- The name as it stands in the queue. -/
def entry (v : Visit) : Str × ℕ := (v.name, v.left)

end Visit

/-- The lines of a node show keys and values only. -/
theorem nodeLines_wire (attr : Bool) (name : Str) (distance : ℕ) (attributes : List Attribute) :
    nodeLines attr name distance (attributes.map Attribute.wire) =
      nodeLines attr name distance attributes := by
  simp [nodeLines, List.flatMap_map, Attribute.wire]

/-- The state of the query `m` that has made the visits `log`, on tables between `lo` and `hi`. -/
structure Probing (lo hi : Tables) (m : QueryMsg) (log : List Visit) (st : QueryState) : Prop where
  search : Grown lo.Edge hi.Edge m.nameA m.depth.toNat (log.map Visit.entry) st.node_queue
    st.visited
  leaf : st.leaf = m.leaf
  attr : st.attr = m.attr
  conditions : st.conditions = m.conditions
  depth_eq : st.depth = m.depth.toNat
  response : st.response = log.flatMap (Visit.lines m)
  attributes : ∀ v ∈ log, lo.attributes v.name <+: v.attributes ∧
    v.attributes <+: hi.attributes v.name

/-- A reply to the query `m` for a name with the depth `t` left, on tables between `lo` and `hi`. -/
structure Snapshot (lo hi : Tables) (m : QueryMsg) (t : ℕ) (i : InfoMsg) : Prop where
  relations : lo.relations i.nameA <+: i.relations ∧ i.relations <+: hi.relations i.nameA
  attributes : lo.attributes i.nameA <+: i.attributes ∧ i.attributes <+: hi.attributes i.nameA
  valid_node : i.valid_node = validNode t m.leaf m.conditions i.attributes

theorem Snapshot.mono {lo hi hi' : Tables} {m : QueryMsg} {t : ℕ} {i : InfoMsg}
    (h : Snapshot lo hi m t i) (hle : hi ≤ hi') : Snapshot lo hi' m t i where
  relations := ⟨h.relations.1, h.relations.2.trans (hle _).1⟩
  attributes := ⟨h.attributes.1, h.attributes.2.trans (hle _).2⟩
  valid_node := h.valid_node

namespace Probing

variable {lo hi hi' : Tables} {m : QueryMsg} {log : List Visit} {st : QueryState}

theorem start (lo : Tables) (hdepth : toSizeT m.depth = m.depth.toNat) :
    Probing lo lo m [] (QueryState.start m) where
  search := by
    simp only [QueryState.start, hdepth]
    exact Grown.start lo.Edge lo.Edge m.nameA m.depth.toNat
  leaf := rfl
  attr := rfl
  conditions := rfl
  depth_eq := hdepth
  response := rfl
  attributes := nofun

theorem mono (h : Probing lo hi m log st) (hle : hi ≤ hi') : Probing lo hi' m log st :=
  { h with
    search := h.search.mono (Tables.Edge.mono hle)
    attributes := fun v hv => ⟨(h.attributes v hv).1, (h.attributes v hv).2.trans (hle _).2⟩ }

theorem round (h : Probing lo hi m log st) (hdepth : m.depth.toNat ≤ 9) {i : InfoMsg} {t : ℕ}
    {queue : List (Str × ℕ)} (hqueue : st.node_queue = (i.nameA, t) :: queue)
    (hreply : Snapshot lo hi m t i) :
    Probing lo hi m (log ++ [⟨i.nameA, t, i.attributes⟩])
      (st.advance (i.nameA, t) queue i.wire) where
  search := by
    have hsearch := h.search
    rw [hqueue] at hsearch
    rw [List.map_append]
    exact hsearch.round i.relations (fun y hy => hreply.relations.1.subset hy)
      fun y hy => hreply.relations.2.subset hy
  leaf := h.leaf
  attr := h.attr
  conditions := h.conditions
  depth_eq := h.depth_eq
  response := by
    have hle : t ≤ m.depth.toNat := (h.search.upper (i.nameA, t) (by simp [hqueue])).1
    have hsub : subSizeT st.depth t = m.depth.toNat - t := by
      rw [h.depth_eq]
      exact subSizeT_of_le hle (by omega)
    rw [List.flatMap_append, ← h.response, List.flatMap_singleton]
    show st.response ++ (if i.valid_node = true then nodeLines st.attr i.nameA
      (subSizeT st.depth t) (i.attributes.map Attribute.wire) else []) = _
    rw [nodeLines_wire, hsub, h.attr, hreply.valid_node]
    rfl
  attributes := by
    intro v hv
    rcases List.mem_append.mp hv with hv | hv
    · exact h.attributes v hv
    · rw [List.mem_singleton.mp hv]
      exact hreply.attributes

end Probing

/-! ## What a query reports -/

/-- The visits `log` of the query `m` on tables that have grown from `lo` to `hi`: every name that
was within the depth at first and none that is not at last, each once, nearest first, and with a
distance and attributes between the two. -/
structure Reports (lo hi : Tables) (m : QueryMsg) (log : List Visit) : Prop where
  nodup : (log.map Visit.name).Nodup
  sorted : log.Pairwise fun u v => u.distance m ≤ v.distance m
  lower : ∀ x, Within lo.Edge m.depth.toNat m.nameA x → x ∈ log.map Visit.name
  upper : ∀ v ∈ log, v.left ≤ m.depth.toNat ∧ Walk hi.Edge (v.distance m) m.nameA v.name
  nearest : ∀ v ∈ log, ∀ k ≤ m.depth.toNat, Walk lo.Edge k m.nameA v.name → v.distance m ≤ k
  attributes : ∀ v ∈ log, lo.attributes v.name <+: v.attributes ∧
    v.attributes <+: hi.attributes v.name

theorem Probing.reports {lo hi : Tables} {m : QueryMsg} {log : List Visit} {st : QueryState}
    (h : Probing lo hi m log st) (hempty : st.node_queue = []) : Reports lo hi m log := by
  have hsearch := h.search
  rw [hempty] at hsearch
  have hnames : (log.map Visit.entry).map Prod.fst = log.map Visit.name := by simp [Visit.entry]
  have hmem : ∀ v ∈ log, v.entry ∈ log.map Visit.entry := fun v hv => List.mem_map_of_mem hv
  refine ⟨?_, ?_, fun x hx => ?_, fun v hv => ?_, fun v hv => ?_, h.attributes⟩
  · rw [← hnames]
    simpa using hsearch.nodup
  · have hsorted := hsearch.sorted
    rw [List.append_nil, List.pairwise_map] at hsorted
    exact hsorted.imp fun huv => Nat.sub_le_sub_left huv _
  · rw [← hnames]
    exact (hsearch.between x).1 hx
  · exact ⟨(hsearch.upper v.entry (by simpa using hmem v hv)).1,
      (hsearch.dist_between (hmem v hv)).1⟩
  · exact (hsearch.dist_between (hmem v hv)).2

theorem Reports.mono {lo hi hi' : Tables} {m : QueryMsg} {log : List Visit}
    (h : Reports lo hi m log) (hle : hi ≤ hi') : Reports lo hi' m log :=
  { h with
    upper := fun v hv => ⟨(h.upper v hv).1, (h.upper v hv).2.mono (Tables.Edge.mono hle)⟩
    attributes := fun v hv => ⟨(h.attributes v hv).1, (h.attributes v hv).2.trans (hle _).2⟩ }

/-- The text of a query that reports `log`. -/
def reportText (m : QueryMsg) (log : List Visit) : Str := completeText (log.flatMap (Visit.lines m))

/-! ## Later queries -/

theorem Condition.holds_mono {c : Condition} {l l' : List Attribute} (h : l <+: l')
    (hc : c.holds l = true) : c.holds l' = true := by
  obtain ⟨t, rfl⟩ := h
  unfold Condition.holds at hc ⊢
  rw [List.find?_append]
  cases hfind : l.find? fun a => a.key == c.key with
  | none => simp [hfind] at hc
  | some a => simpa [hfind] using hc

/-- More attributes make no condition fail, as there are no negations. -/
theorem evaluate_mono {l l' : List Attribute} (h : l <+: l') (conditions : List Condition) :
    ∀ {valid valid' next_or : Bool}, (valid = true → valid' = true) →
      evaluate l conditions valid next_or = true →
      evaluate l' conditions valid' next_or = true := by
  induction conditions with
  | nil => exact fun hvalid heval => hvalid heval
  | cons c conditions ih =>
    intro valid valid' next_or hvalid heval
    refine ih ?_ heval
    cases next_or with
    | true =>
      simp only [if_true, Bool.or_eq_true]
      exact Or.imp hvalid (Condition.holds_mono h)
    | false =>
      simp only [Bool.false_eq_true, if_false, Bool.and_eq_true]
      exact And.imp hvalid (Condition.holds_mono h)

/-- **Later reports extend earlier ones**: they have every name of an earlier report of the same
root, no farther and with at least its attributes. -/
theorem Reports.extends {lo hi lo' hi' : Tables} {m m' : QueryMsg} {log log' : List Visit}
    (h : Reports lo hi m log) (h' : Reports lo' hi' m' log') (hle : hi ≤ lo')
    (hroot : m'.nameA = m.nameA) (hdepth : m.depth.toNat ≤ m'.depth.toNat) {u : Visit}
    (hu : u ∈ log) : ∃ v ∈ log', v.name = u.name ∧ v.distance m' ≤ u.distance m ∧
      u.attributes <+: v.attributes := by
  have hwalk : Walk lo'.Edge (u.distance m) m'.nameA u.name := by
    rw [hroot]
    exact (h.upper u hu).2.mono (Tables.Edge.mono hle)
  have hnear : u.distance m ≤ m'.depth.toNat := (Nat.sub_le _ _).trans hdepth
  obtain ⟨v, hv, hname⟩ := List.mem_map.mp (h'.lower u.name ⟨_, hnear, hwalk⟩)
  refine ⟨v, hv, hname, h'.nearest v hv _ hnear (hname ▸ hwalk), ?_⟩
  calc u.attributes <+: hi.attributes u.name := (h.attributes u hu).2
    _ <+: lo'.attributes u.name := (hle u.name).2
    _ <+: v.attributes := hname ▸ (h'.attributes v hv).1

/-! ## While the query is pending -/

/-- The query `m` of the request `r` is pending under the id `n` since the tables were `lo`. -/
structure Probed (cfg : Config) (n : ℕ) (r : Envelope) (m : QueryMsg) (lo : Tables)
    (st : QueryState) (log : List Visit) (w : World) : Prop where
  pending : w.server.pending n = some ⟨r.src, some st⟩
  mem : (n, r) ∈ w.accepted
  le : lo ≤ w.tables cfg
  probing : Probing lo (w.tables cfg) m log st
  /-- An `R` of the query asks for the name at the front of its queue. -/
  asked : ∀ a ∈ w.transit, a.dst ∈ cfg.repos → ∀ q, a.msg = .query q → q.request_id = n →
    ∃ t queue, st.node_queue = (q.nameA, t) :: queue ∧ q.depth = (t : ℕ) ∧ q.leaf = m.leaf ∧
      q.conditions = m.conditions
  /-- An `I` of the query shows tables between those at its start and those of now. -/
  replied : ∀ a ∈ w.transit, a.dst = cfg.address → ∀ i, a.msg = .info i → i.request_id = n →
    ∃ t queue, st.node_queue = (i.nameA, t) :: queue ∧ Snapshot lo (w.tables cfg) m t i

/-- The query has been answered. -/
structure Reported (cfg : Config) (n : ℕ) (r : Envelope) (m : QueryMsg) (lo : Tables) (w : World) :
    Prop where
  mem : (n, r) ∈ w.accepted
  answer : ∃ b log, Reports lo (w.tables cfg) m log ∧ answers cfg n w.sent = [b] ∧
    b.dst = r.src ∧ b.msg = .response ⟨reportText m log, n⟩

section Turns

variable {cfg : Config} {n : ℕ} {r : Envelope} {m : QueryMsg} {lo : Tables} {st : QueryState}
  {log : List Visit} {w w' : World} {a : Envelope} {rest : Multiset Envelope} {es : List Envelope}

/-- `b` is neither an `R` nor an `I` of the request `n`. -/
def Foreign (n : ℕ) (b : Envelope) : Prop :=
  (∀ q, b.msg = .query q → q.request_id ≠ n) ∧ ∀ i, b.msg = .info i → i.request_id ≠ n

theorem reverses_spreads {c : NodeMsg} {s : Send} (hs : s ∈ reverses c) : s.msg.spreads = true := by
  unfold reverses at hs
  split_ifs at hs
  · exact absurd hs List.not_mem_nil
  · obtain ⟨rel, -, rfl⟩ := List.mem_map.mp hs
    rfl

theorem reversesDelete_spreads {c : DeleteMsg} {s : Send} (hs : s ∈ reversesDelete c) :
    s.msg.spreads = true := by
  unfold reversesDelete at hs
  split_ifs at hs
  · rw [List.mem_singleton.mp hs]
    rfl
  · exact absurd hs List.not_mem_nil

theorem foreign_reverses {src : Host} {req : ℕ} {out : List Send} {id : ℤ} {message : Str}
    (hout : ∀ s ∈ out, s.msg.spreads = true) :
    ∀ b ∈ World.stamp src req (out ++ if id = 0 then []
      else [⟨cfg.address, .response ⟨message, id⟩⟩]), Foreign n b := fun b hb =>
  have hne := stamp_reverses_ne hout b hb
  ⟨fun q hq => absurd hq (hne.1 q), fun i hi => absurd hi (hne.2 i)⟩

theorem Probed.frame (h : Probed cfg n r m lo st log w) (hle : w.tables cfg ≤ w'.tables cfg)
    (hpending : w'.server.pending n = w.server.pending n) (haccepted : w.accepted ⊆ w'.accepted)
    (htransit : w.transit = a ::ₘ rest) (htransit' : w'.transit = rest + es)
    (hes : ∀ b ∈ es, Foreign n b) : Probed cfg n r m lo st log w' where
  pending := hpending.trans h.pending
  mem := haccepted h.mem
  le := h.le.trans hle
  probing := h.probing.mono hle
  asked := by
    intro b hb hdst q hq hid
    rw [htransit'] at hb
    rcases Multiset.mem_add.mp hb with hb | hb
    · exact h.asked b (by rw [htransit]; exact Multiset.mem_cons_of_mem hb) hdst q hq hid
    · exact absurd hid ((hes b hb).1 q hq)
  replied := by
    intro b hb hdst i hi hid
    rw [htransit'] at hb
    rcases Multiset.mem_add.mp hb with hb | hb
    · obtain ⟨t, queue, hqueue, hsnapshot⟩ :=
        h.replied b (by rw [htransit]; exact Multiset.mem_cons_of_mem hb) hdst i hi hid
      exact ⟨t, queue, hqueue, hsnapshot.mono hle⟩
    · exact absurd hid ((hes b hb).2 i hi)

theorem Probed.rest_foreign (h : Probed cfg n r m lo st log w) (hinv : w.Inv cfg)
    (htransit : w.transit = a ::ₘ rest) (ha : Carries cfg n a) :
    ∀ b ∈ rest, ¬ Carries cfg n b := by
  have hn := (hinv.ledger.id_range h.pending).1
  obtain ⟨-, -, hfilter, -⟩ := hinv.ledger.pending_of_carries (by simp [htransit]) hn ha
  rw [htransit] at hfilter
  intro b hb hcarries
  have hnil := filter_rest hfilter ha
  have hmem : b ∈ rest.filter (Carries cfg n) := Multiset.mem_filter.mpr ⟨hb, hcarries⟩
  rw [hnil] at hmem
  exact absurd hmem (Multiset.notMem_zero b)

theorem Probed.reply (h : Probed cfg n r m lo st log w) (hinv : w.Inv cfg)
    (hrows : Rows cfg w.repo w.accepted w.transit) (htransit : w.transit = a ::ₘ rest)
    (hdst : a.dst ∈ cfg.repos) {q : QueryMsg} (hmsg : a.msg = .query q) (hid : q.request_id = n) :
    Probed cfg n r m lo st log (World.post { w with transit := rest }
      [⟨a.dst, cfg.address, .info (queryReply (w.repo a.dst).storage q), a.req⟩]) := by
  have hmem : a ∈ w.transit := by simp [htransit]
  obtain ⟨t, queue, hqueue, hdepth, hleaf, hconditions⟩ := h.asked a hmem hdst q hmsg hid
  have howner : a.dst = owner cfg.hosts q.nameA := by
    have hrouted := hrows.routed a hmem hdst
    rwa [hmsg] at hrouted
  have hrest := h.rest_foreign hinv htransit (a := a)
    ⟨by rw [hmsg]; exact hid, fun hclient => hclient.2 hdst⟩
  refine ⟨h.pending, h.mem, h.le, h.probing, ?_, ?_⟩
  · intro b hb hbdst q' hq' hid'
    rcases Multiset.mem_add.mp hb with hb | hb
    · exact h.asked b (by rw [htransit]; exact Multiset.mem_cons_of_mem hb) hbdst q' hq' hid'
    · rw [List.mem_singleton.mp hb] at hq'
      cases hq'
  · intro b hb hbdst i hi hid'
    rcases Multiset.mem_add.mp hb with hb | hb
    · exact absurd ⟨by rw [hi]; exact hid', fun hclient => hclient.1 hbdst⟩ (hrest b hb)
    · rw [List.mem_singleton.mp hb] at hi
      cases hi
      refine ⟨t, queue, hqueue, ?_, ?_, ?_⟩
      · show _ <+: (w.repo a.dst).storage.relationsOf q.nameA ∧
          (w.repo a.dst).storage.relationsOf q.nameA <+: _
        rw [howner]
        exact ⟨(h.le q.nameA).1, List.prefix_rfl⟩
      · show _ <+: (w.repo a.dst).storage.attributesOf q.nameA ∧
          (w.repo a.dst).storage.attributesOf q.nameA <+: _
        rw [howner]
        exact ⟨(h.le q.nameA).2, List.prefix_rfl⟩
      · simp only [queryReply, hdepth, hleaf, hconditions]

theorem Probed.next (h : Probed cfg n r m lo st log w) (hinv : w.Inv cfg)
    (hdepth : m.depth.toNat ≤ 9) (htransit : w.transit = a ::ₘ rest) (hdst : a.dst = cfg.address)
    {i : InfoMsg} {t s : ℕ} {queue queue' : List (Str × ℕ)} {v : Str} (hmsg : a.msg = .info i)
    (hid : i.request_id = n) (hqueue : st.node_queue = (i.nameA, t) :: queue)
    (hnext : (st.advance (i.nameA, t) queue i.wire).node_queue = (v, s) :: queue') :
    Probed cfg n r m lo (st.advance (i.nameA, t) queue i.wire)
      (log ++ [⟨i.nameA, t, i.attributes⟩]) (World.post
        { w with
          server := w.server.file i.request_id
            ⟨r.src, some (st.advance (i.nameA, t) queue i.wire)⟩
          transit := rest }
        [⟨cfg.address, owner cfg.hosts v,
          .query ⟨v, toInt s, st.leaf, st.attr, st.conditions, i.request_id⟩, a.req⟩]) := by
  obtain ⟨t', queue₂, hqueue₂, hsnapshot⟩ := h.replied a (by simp [htransit]) hdst i hmsg hid
  rw [hqueue] at hqueue₂
  cases hqueue₂
  have hround := h.probing.round hdepth hqueue hsnapshot
  have hrest := h.rest_foreign hinv htransit (a := a)
    ⟨by rw [hmsg]; exact hid, fun hclient => hclient.1 hdst⟩
  refine ⟨?_, h.mem, h.le, hround, ?_, ?_⟩
  · show Function.update _ _ _ _ = _
    rw [hid, Function.update_self]
  · intro b hb hbdst q hq hbid
    rcases Multiset.mem_add.mp hb with hb | hb
    · exact absurd ⟨by rw [hq]; exact hbid, fun hclient => hclient.2 hbdst⟩ (hrest b hb)
    · rw [List.mem_singleton.mp hb] at hq
      cases hq
      have hs : s ≤ m.depth.toNat := (hround.search.upper (v, s) (by simp [hnext])).1
      have hleft : toInt s = (s : ℤ) := toInt_natCast (by omega)
      exact ⟨s, queue', hnext, by simp only [hleft], h.probing.leaf, h.probing.conditions⟩
  · intro b hb hbdst i' hi' hbid
    rcases Multiset.mem_add.mp hb with hb | hb
    · exact absurd ⟨by rw [hi']; exact hbid, fun hclient => hclient.1 hbdst⟩ (hrest b hb)
    · rw [List.mem_singleton.mp hb] at hi'
      cases hi'

theorem Probed.complete (h : Probed cfg n r m lo st log w) (hinv : w.Inv cfg)
    (hdepth : m.depth.toNat ≤ 9) (htransit : w.transit = a ::ₘ rest) (hdst : a.dst = cfg.address)
    {i : InfoMsg} {t : ℕ} {queue : List (Str × ℕ)} (hmsg : a.msg = .info i)
    (hid : i.request_id = n) (hqueue : st.node_queue = (i.nameA, t) :: queue)
    (hempty : (st.advance (i.nameA, t) queue i.wire).node_queue = []) :
    Reported cfg n r m lo (World.post
      { w with
        server := { w.server.close i.request_id with cud_blocking := false }
        transit := rest }
      [⟨cfg.address, r.src, .response
        ⟨completeText (st.advance (i.nameA, t) queue i.wire).response, i.request_id⟩, a.req⟩]) := by
  obtain ⟨t', queue₂, hqueue₂, hsnapshot⟩ := h.replied a (by simp [htransit]) hdst i hmsg hid
  rw [hqueue] at hqueue₂
  cases hqueue₂
  have hround := h.probing.round hdepth hqueue hsnapshot
  have hunanswered : answers cfg n w.sent = [] :=
    hinv.ledger.unanswered (n, r) h.mem (by simp [h.pending])
  refine ⟨h.mem, ⟨cfg.address, r.src, .response ⟨_, n⟩, a.req⟩, _, hround.reports hempty, ?_, rfl,
    rfl⟩
  rw [World.post_sent, answers_append, hunanswered, hid, hround.response]
  simp [answers, Msg.isResponse, Msg.request_id, reportText]

/-- **One turn while the query is pending**: it stays pending, or it is answered. -/
theorem Probed.turn (h : Probed cfg n r m lo st log w) (hinv : w.Inv cfg)
    (hrows : Rows cfg w.repo w.accepted w.transit) (hdepth : m.depth.toNat ≤ 9)
    (htransit : w.transit = a ::ₘ rest) (hturn : Turn cfg { w with transit := rest } a w') :
    (∃ st' log', Probed cfg n r m lo st' log' w') ∨ Reported cfg n r m lo w' := by
  have hle := hturn.tables_le
  have haccepted := hturn.accepted_subset
  cases hturn with
  | busy hdst hsrc hmsg hwrite hbusy =>
    refine Or.inl ⟨st, log, h.frame hle rfl haccepted htransit rfl fun b hb => ?_⟩
    rw [List.mem_singleton.mp hb]
    exact ⟨nofun, nofun⟩
  | accept hdst hsrc hmsg hfree =>
    -- the new request has another number
    have hlt := (hinv.ledger.mem_range h.mem).2
    have hne : (n : ℤ) ≠ w.server.current_request := by omega
    refine Or.inl ⟨st, log, h.frame hle (Function.update_of_ne hne _ _) haccepted htransit rfl
      fun b hb => ?_⟩
    have hid := (hmsg.forwarded cfg.hosts w.server.current_request).2.1
    rw [List.mem_singleton.mp hb]
    refine ⟨fun q hq heq => ?_, fun i hi heq => ?_⟩
    · have hq' : a.msg.forwarded cfg.hosts w.server.current_request = .query q := hq
      rw [hq'] at hid
      exact hne (heq.symm.trans hid)
    · have hi' : a.msg.forwarded cfg.hosts w.server.current_request = .info i := hi
      rw [hi'] at hid
      exact hne (heq.symm.trans hid)
  | @response m' client hdst hsrc hmsg hpending =>
    have hne : (n : ℤ) ≠ m'.request_id := by
      intro heq
      simp only at hpending
      rw [← heq, h.pending] at hpending
      cases hpending
    refine Or.inl ⟨st, log, h.frame hle (Function.update_of_ne hne _ _) haccepted htransit rfl
      fun b hb => ?_⟩
    rw [List.mem_singleton.mp hb]
    exact ⟨nofun, nofun⟩
  | @complete i client st₀ t queue hdst hsrc hmsg hpending hqueue hempty =>
    by_cases hid : (n : ℤ) = i.request_id
    · simp only at hpending
      rw [← hid, h.pending] at hpending
      cases hpending
      exact Or.inr (h.complete hinv hdepth htransit hdst hmsg hid.symm hqueue hempty)
    · refine Or.inl ⟨st, log, h.frame hle (Function.update_of_ne hid _ _) haccepted htransit rfl
        fun b hb => ?_⟩
      rw [List.mem_singleton.mp hb]
      exact ⟨nofun, nofun⟩
  | @next i client st₀ t s queue queue' v hdst hsrc hmsg hpending hqueue hnext hv =>
    by_cases hid : (n : ℤ) = i.request_id
    · simp only at hpending
      rw [← hid, h.pending] at hpending
      cases hpending
      exact Or.inl ⟨_, _, h.next hinv hdepth htransit hdst hmsg hid.symm hqueue hnext⟩
    · refine Or.inl ⟨st, log, h.frame hle (Function.update_of_ne hid _ _) haccepted htransit rfl
        fun b hb => ?_⟩
      rw [List.mem_singleton.mp hb]
      refine ⟨fun q hq heq => ?_, nofun⟩
      cases hq
      exact hid heq.symm
  | @stored c hdst hmsg hhosts hrels =>
    refine Or.inl ⟨st, log, h.frame hle rfl haccepted htransit rfl fun b hb => ?_⟩
    exact foreign_reverses (fun s hs => reverses_spreads hs) b hb
  | @asked q hdst hmsg =>
    by_cases hid : q.request_id = n
    · exact Or.inl ⟨st, log, h.reply hinv hrows htransit hdst hmsg hid⟩
    · refine Or.inl ⟨st, log, h.frame hle rfl haccepted htransit rfl fun b hb => ?_⟩
      rw [List.mem_singleton.mp hb]
      refine ⟨nofun, fun i hi heq => ?_⟩
      cases hi
      exact hid heq
  | @updated c hdst hmsg =>
    refine Or.inl ⟨st, log, h.frame hle rfl haccepted htransit rfl fun b hb => ?_⟩
    rw [List.mem_singleton.mp hb]
    exact ⟨nofun, nofun⟩
  | @deleted c hdst hmsg hhosts hrel =>
    refine Or.inl ⟨st, log, h.frame hle rfl haccepted htransit rfl fun b hb => ?_⟩
    exact foreign_reverses (fun s hs => reversesDelete_spreads hs) b hb
  | taken hdst =>
    have hnothing : rest = rest + (([] : List Envelope) : Multiset Envelope) := by simp
    exact Or.inl ⟨st, log, h.frame hle rfl haccepted htransit hnothing nofun⟩

theorem Probed.request (h : Probed cfg n r m lo st log w) {client : Host} {msg : Msg}
    (hmsg : msg.IsRequest) :
    Probed cfg n r m lo st log (w.post [⟨client, cfg.address, msg, 0⟩]) where
  pending := h.pending
  mem := h.mem
  le := h.le
  probing := h.probing
  asked := by
    intro b hb hdst q hq hid
    rcases Multiset.mem_add.mp hb with hb | hb
    · exact h.asked b hb hdst q hq hid
    · rw [List.mem_singleton.mp hb] at hdst
      exact absurd hdst cfg.apart
  replied := by
    intro b hb hdst i hi hid
    rcases Multiset.mem_add.mp hb with hb | hb
    · exact h.replied b hb hdst i hi hid
    · rw [List.mem_singleton.mp hb] at hi
      have hinfo : msg = .info i := hi
      rw [hinfo] at hmsg
      exact hmsg.elim

/-- A request that has been answered gets no other answer. -/
theorem answers_turn (hinv' : w'.Inv cfg) (hplaced : Placed cfg a)
    (hturn : Turn cfg { w with transit := rest } a w') (hmem : (n, r) ∈ w.accepted) {b : Envelope}
    (hanswer : answers cfg n w.sent = [b]) : answers cfg n w'.sent = [b] := by
  obtain ⟨es, hsent, -⟩ := hturn.sends hplaced
  have hmem' := hturn.accepted_subset hmem
  have hone : answers cfg n w'.sent = b :: answers cfg n es := by
    rw [hsent, answers_append, hanswer]
    rfl
  by_cases hpending : w'.server.pending n = none
  · obtain ⟨c, hc, -⟩ := hinv'.ledger.answered (n, r) hmem' hpending
    rw [hone] at hc
    rw [hone, (List.cons.inj hc).2]
  · have hnil := hinv'.ledger.unanswered (n, r) hmem' hpending
    rw [hone] at hnil
    cases hnil

theorem Reported.turn (h : Reported cfg n r m lo w) (hinv' : w'.Inv cfg)
    (hplaced : Placed cfg a) (hturn : Turn cfg { w with transit := rest } a w') :
    Reported cfg n r m lo w' := by
  obtain ⟨b, log, hlog, hanswer, hb⟩ := h.answer
  exact ⟨hturn.accepted_subset h.mem, b, log, hlog.mono hturn.tables_le,
    answers_turn hinv' hplaced hturn h.mem hanswer, hb⟩

theorem Probed.start (hinv : w.Inv cfg) (hadm : w.Admissible) (htransit : w.transit = a ::ₘ rest)
    (hdst : a.dst = cfg.address) (hmsg : a.msg = .query m)
    (hturn : Turn cfg { w with transit := rest } a w') :
    Probed cfg w.server.current_request a m (w.tables cfg) (QueryState.start m) [] w' := by
  have hmem : a ∈ w.transit := by simp [htransit]
  have hfits : m.Fits := by
    have := hadm.fits a hmem
    rwa [hmsg] at this
  have hdepth : toSizeT m.depth = m.depth.toNat := by
    have := hfits.depth
    unfold toSizeT
    omega
  have hrest : ∀ b ∈ rest, ¬ Carries cfg w.server.current_request b := by
    intro b hb hcarries
    have hpos := hinv.ledger.pos
    obtain ⟨e, he, -⟩ := hinv.ledger.pending_of_carries (a := b)
      (by rw [htransit]; exact Multiset.mem_cons_of_mem hb) (by omega) hcarries
    rw [hinv.ledger.future_none le_rfl] at he
    cases he
  rw [hturn.of_query hdst hmsg, hmsg]
  refine ⟨?_, List.mem_append_right _ (by simp), le_rfl, Probing.start _ hdepth, ?_, ?_⟩
  · simp [Process.book, Process.file, Msg.state]
  · intro b hb hbdst q hq hid
    rcases Multiset.mem_add.mp hb with hb | hb
    · exact absurd ⟨by rw [hq]; exact hid, fun hclient => hclient.2 hbdst⟩ (hrest b hb)
    · rw [List.mem_singleton.mp hb] at hq
      cases hq
      refine ⟨m.depth.toNat, [], by rw [← hdepth]; rfl, ?_, rfl, rfl⟩
      have := hfits.depth
      simp only
      omega
  · intro b hb hbdst i hi hid
    rcases Multiset.mem_add.mp hb with hb | hb
    · exact absurd ⟨by rw [hi]; exact hid, fun hclient => hclient.1 hbdst⟩ (hrest b hb)
    · rw [List.mem_singleton.mp hb] at hi
      cases hi

end Turns

/-! ## Runs -/

section Runs

variable {cfg : Config} {w w' : World} {a b : Envelope} {throws : ℕ → Option Str}
  {es es' : List Event} {m : QueryMsg}

/-- A query that has been accepted is pending, or it has been answered. -/
theorem probed_or_reported (hne : cfg.repos ≠ [])
    (hsteady : ∀ e ∈ es ++ .deliver a throws :: es', e.Steady)
    (hadm : Along (World.step cfg) World.Admissible (World.start cfg)
      (es ++ .deliver a throws :: es'))
    (hrun : run (World.step cfg) (World.start cfg) es = some w) (hdst : a.dst = cfg.address)
    (hmsg : a.msg = .query m)
    (hrun' : run (World.step cfg) w (.deliver a throws :: es') = some w') :
    w'.Inv cfg ∧ ((∃ st log,
        Probed cfg w.server.current_request a m (w.tables cfg) st log w') ∨
      Reported cfg w.server.current_request a m (w.tables cfg) w') := by
  obtain ⟨⟨⟨hinv, hadm_w⟩, hrows⟩, hrest⟩ := (along_turns hne
    (I := fun w => Rows cfg w.repo w.accepted w.transit)
    (fun w client msg h _ _ => h.request client msg)
    (fun w a rest w' hinv _ h htransit hturn => hturn.rows hinv hne htransit h)
    (World.Inv.start cfg) Rows.start hsteady hadm).append hrun
  obtain ⟨w₁, hstep, hrun₁⟩ := run_cons.mp hrun'
  have hsteady_d := hsteady _ (List.mem_append_right _ List.mem_cons_self)
  obtain ⟨rest, htransit, hturn⟩ := hinv.turn_of_step hne hadm_w hsteady_d hstep
  have hfits : m.Fits := by
    have := hadm_w.fits a (by simp [htransit])
    rwa [hmsg] at this
  have hdepth : m.depth.toNat ≤ 9 := by
    have := hfits.depth
    omega
  have halong := along_turns hne (w := w₁)
    (I := fun w₂ => Rows cfg w₂.repo w₂.accepted w₂.transit ∧ ((∃ st log,
        Probed cfg w.server.current_request a m (w.tables cfg) st log w₂) ∨
      Reported cfg w.server.current_request a m (w.tables cfg) w₂)) ?_ ?_
    (hturn.inv hinv hadm_w hne htransit)
    ⟨hturn.rows hinv hne htransit hrows,
      Or.inl ⟨_, _, Probed.start hinv hadm_w htransit hdst hmsg hturn⟩⟩
    (fun e he => hsteady e (List.mem_append_right _ (List.mem_cons_of_mem _ he)))
    ((hadm.append hrun).2 w₁ hstep)
  · obtain ⟨⟨hinv', -⟩, -, h⟩ := halong.last hrun₁
    exact ⟨hinv', h⟩
  · rintro w₂ client msg ⟨hrows, h⟩ hclient hrequest
    refine ⟨hrows.request client msg, h.imp ?_ fun h => ?_⟩
    · rintro ⟨st, log, h⟩
      exact ⟨st, log, h.request hrequest⟩
    · obtain ⟨b, log, hlog, hanswer, hb⟩ := h.answer
      refine ⟨h.mem, b, log, hlog, ?_, hb⟩
      rw [World.post_sent, answers_frame, hanswer]
      intro c hc
      rw [List.mem_singleton.mp hc]
      exact Or.inl hclient.1
  · rintro w₂ c rest' w₃ hinv₂ hadm₂ ⟨hrows, h⟩ htransit₂ hturn₂
    refine ⟨hturn₂.rows hinv₂ hne htransit₂ hrows, ?_⟩
    rcases h with ⟨st, log, h⟩ | h
    · exact h.turn hinv₂ hrows hdepth htransit₂ hturn₂
    · exact Or.inr (h.turn (hturn₂.inv hinv₂ hadm₂ hne htransit₂)
        (hinv₂.placed c (by simp [htransit₂])) hturn₂)

/-- **Queries beside creates.** Let the server of a steady run accept a query, with any messages of
creates still on their way and any other requests sent, accepted and answered later on. Each answer
to the query reports the names on tables between those at its acceptance and those at the end. -/
theorem query_between (hne : cfg.repos ≠ [])
    (hsteady : ∀ e ∈ es ++ .deliver a throws :: es', e.Steady)
    (hadm : Along (World.step cfg) World.Admissible (World.start cfg)
      (es ++ .deliver a throws :: es'))
    (hrun : run (World.step cfg) (World.start cfg) es = some w) (hdst : a.dst = cfg.address)
    (hmsg : a.msg = .query m) (hrun' : run (World.step cfg) w (.deliver a throws :: es') = some w')
    (hb : b ∈ answers cfg w.server.current_request w'.sent) :
    b.dst = a.src ∧ ∃ log, b.msg = .response ⟨reportText m log, w.server.current_request⟩ ∧
      Reports (w.tables cfg) (w'.tables cfg) m log := by
  obtain ⟨hinv', ⟨st, log, h⟩ | h⟩ := probed_or_reported hne hsteady hadm hrun hdst hmsg hrun'
  · rw [hinv'.ledger.unanswered _ h.mem (by simp [h.pending])] at hb
    exact absurd hb List.not_mem_nil
  · obtain ⟨b', log, hlog, hanswer, hdst', hmsg'⟩ := h.answer
    rw [hanswer] at hb
    rw [List.mem_singleton.mp hb]
    exact ⟨hdst', log, hmsg', hlog⟩

/-- **Reads are monotonic.** Let a query be answered in a steady run, and let the server then accept
a second one from the same root, without leaf, to at least the same depth and with the same
conditions. Whatever creates run beside the two, the second answer lists every name that the first
one lists, no farther from the root and with at least the same attributes. -/
theorem reads_monotonic (hne : cfg.repos ≠ []) {a₁ a₂ b₁ b₂ : Envelope} {m₁ m₂ : QueryMsg}
    {throws₁ throws₂ : ℕ → Option Str} {es₀ es₁ es₂ : List Event} {w₀ w₁ w₂ : World}
    (hsteady : ∀ e ∈ es₀ ++ .deliver a₁ throws₁ :: es₁ ++ .deliver a₂ throws₂ :: es₂, e.Steady)
    (hadm : Along (World.step cfg) World.Admissible (World.start cfg)
      (es₀ ++ .deliver a₁ throws₁ :: es₁ ++ .deliver a₂ throws₂ :: es₂))
    (hrun₀ : run (World.step cfg) (World.start cfg) es₀ = some w₀)
    (hdst₁ : a₁.dst = cfg.address) (hmsg₁ : a₁.msg = .query m₁)
    (hrun₁ : run (World.step cfg) w₀ (.deliver a₁ throws₁ :: es₁) = some w₁)
    (hb₁ : b₁ ∈ answers cfg w₀.server.current_request w₁.sent)
    (hdst₂ : a₂.dst = cfg.address) (hmsg₂ : a₂.msg = .query m₂)
    (hrun₂ : run (World.step cfg) w₁ (.deliver a₂ throws₂ :: es₂) = some w₂)
    (hb₂ : b₂ ∈ answers cfg w₁.server.current_request w₂.sent)
    (hroot : m₂.nameA = m₁.nameA) (hdepth : m₁.depth ≤ m₂.depth) (hleaf : m₂.leaf = false)
    (hconditions : m₂.conditions = m₁.conditions) :
    ∃ log₁ log₂, b₁.msg = .response ⟨reportText m₁ log₁, w₀.server.current_request⟩ ∧
      b₂.msg = .response ⟨reportText m₂ log₂, w₁.server.current_request⟩ ∧
      ∀ u ∈ log₁, u.Listed m₁ → ∃ v ∈ log₂, v.name = u.name ∧ v.Listed m₂ ∧
        v.distance m₂ ≤ u.distance m₁ ∧ u.attributes <+: v.attributes := by
  have hrun : run (World.step cfg) (World.start cfg) (es₀ ++ .deliver a₁ throws₁ :: es₁) =
      some w₁ := by
    rw [run_append, hrun₀]
    exact hrun₁
  obtain ⟨-, log₂, hlog₂, hreports₂⟩ := query_between hne hsteady hadm hrun hdst₂ hmsg₂ hrun₂ hb₂
  obtain ⟨-, log₁, hlog₁, hreports₁⟩ := query_between hne
    (fun e he => hsteady e (List.mem_append_left _ he)) hadm.of_append hrun₀ hdst₁ hmsg₁ hrun₁ hb₁
  refine ⟨log₁, log₂, hlog₁, hlog₂, fun u hu hlisted => ?_⟩
  obtain ⟨v, hv, hname, hdistance, hattributes⟩ := hreports₁.extends hreports₂ le_rfl hroot
    (Int.toNat_le_toNat hdepth) hu
  refine ⟨v, hv, hname, ?_, hdistance, hattributes⟩
  unfold Visit.Listed validNode at hlisted ⊢
  rw [hleaf, hconditions]
  exact evaluate_mono hattributes m₁.conditions (by simp) hlisted

end Runs

/-- Client 7 creates a with a relation to b, and the row of b is still on its way when client 8
sends a query from b. -/
def beforeReverse : List Event :=
  oneCreate.take 4 ++ [.request (clientHost 8) (.query ⟨str "b", 1, false, false, [], 0⟩)]

/-- The query is accepted, the row of b is stored, and the query is answered. -/
def aroundReverse : List Event :=
  let server := oneRepository.address
  let repository : Host := ⟨str "10.0.0.2", 50001⟩
  let ask (x : Str) (depth id : ℤ) : Msg := .query ⟨x, depth, false, false, [], id⟩
  let reply (x y : Str) : Msg := .info ⟨x, [], [y], 2, true⟩
  [.deliver ⟨clientHost 8, server, ask (str "b") 1 0, 0⟩ noThrow,
    .deliver ⟨repository, repository, .node ⟨str "b", [], [str "a"], 0, []⟩, 1⟩ noThrow,
    .deliver ⟨server, repository, ask (str "b") 1 2, 2⟩ noThrow,
    .deliver ⟨repository, server, reply (str "b") (str "a"), 2⟩ noThrow,
    .deliver ⟨server, repository, ask (str "a") 0 2, 2⟩ noThrow,
    .deliver ⟨repository, server, reply (str "a") (str "b"), 2⟩ noThrow]

/-- The query reports the edge that is stored after it has been accepted. -/
theorem query_between_create : ∃ (w w' : World) (b : Envelope) (log : List Visit),
    str "a" ∉ (w.tables oneRepository).relations (str "b") ∧
      answers oneRepository 2 w'.sent = [b] ∧
      b.msg = .response ⟨reportText ⟨str "b", 1, false, false, [], 0⟩ log, 2⟩ ∧
      Reports (w.tables oneRepository) (w'.tables oneRepository)
        ⟨str "b", 1, false, false, [], 0⟩ log ∧
      (w'.tables oneRepository).Edge (str "b") (str "a") := by
  have hrun : ∃ w, run (World.step oneRepository) (World.start oneRepository) beforeReverse =
      some w ∧ w.server.current_request = 2 ∧
      str "a" ∉ (w.tables oneRepository).relations (str "b") ∧
      (run (World.step oneRepository) w aroundReverse).any (fun w' =>
        decide ((answers oneRepository 2 w'.sent).length = 1 ∧
          str "a" ∈ (w'.tables oneRepository).relations (str "b"))) = true :=
    exists_of_check (by decide +kernel)
  obtain ⟨w, hw, hcurrent, hfirst, hrest⟩ := hrun
  obtain ⟨w', hw', hlen, hlast⟩ : ∃ w', run (World.step oneRepository) w aroundReverse = some w' ∧
      (answers oneRepository 2 w'.sent).length = 1 ∧
      str "a" ∈ (w'.tables oneRepository).relations (str "b") := exists_of_check hrest
  obtain ⟨b, hb⟩ := List.length_eq_one_iff.mp hlen
  have hbetween := query_between (show oneRepository.repos ≠ [] by decide)
    (show ∀ e ∈ beforeReverse ++ aroundReverse, e.Steady by
      simp [beforeReverse, aroundReverse, oneCreate, Event.Steady])
    (by decide +kernel) hw rfl rfl hw' (b := b) (by simp [hcurrent, hb])
  rw [hcurrent] at hbetween
  obtain ⟨-, log, hmsg, hlog⟩ := hbetween
  exact ⟨w, w', b, log, hfirst, hb, hmsg, hlog, hlast⟩

/-- The query of client 8 for b and its first neighbours, under the request id `n`. -/
def aroundB (n : ℤ) : QueryMsg := ⟨str "b", 1, false, false, [], n⟩

/-- The query is answered before the row of b is stored, and sent again afterwards. -/
def firstRead : List Event :=
  let server := oneRepository.address
  let repository : Host := ⟨str "10.0.0.2", 50001⟩
  [.deliver ⟨clientHost 8, server, .query (aroundB 0), 0⟩ noThrow,
    .deliver ⟨server, repository, .query (aroundB 2), 2⟩ noThrow,
    .deliver ⟨repository, server, .info ⟨str "b", [], [], 2, true⟩, 2⟩ noThrow,
    .deliver ⟨repository, repository, .node ⟨str "b", [], [str "a"], 0, []⟩, 1⟩ noThrow,
    .request (clientHost 8) (.query (aroundB 0))]

def secondRead : List Event :=
  let server := oneRepository.address
  let repository : Host := ⟨str "10.0.0.2", 50001⟩
  [.deliver ⟨clientHost 8, server, .query (aroundB 0), 0⟩ noThrow,
    .deliver ⟨server, repository, .query (aroundB 3), 3⟩ noThrow,
    .deliver ⟨repository, server, .info ⟨str "b", [], [str "a"], 3, true⟩, 3⟩ noThrow,
    .deliver ⟨server, repository, .query ⟨str "a", 0, false, false, [], 3⟩, 3⟩ noThrow,
    .deliver ⟨repository, server, .info ⟨str "a", [], [str "b"], 3, true⟩, 3⟩ noThrow]

/-- The answer of the server to client 8 under the request id `n`. -/
def answerB (response : Str) (n : ℕ) : Envelope :=
  ⟨oneRepository.address, clientHost 8, .response ⟨completeText response, n⟩, n⟩

/-- The second answer lists a beside what the first one lists. -/
theorem reads_monotonic_create : ∃ (w₁ w₂ : World) (log₁ log₂ : List Visit),
    answerB (nodeLines false (str "b") 0 []) 2 ∈ answers oneRepository 2 w₁.sent ∧
      answerB (nodeLines false (str "b") 0 [] ++ nodeLines false (str "a") 1 []) 3 ∈
        answers oneRepository 3 w₂.sent ∧
      completeText (nodeLines false (str "b") 0 []) = reportText (aroundB 0) log₁ ∧
      completeText (nodeLines false (str "b") 0 [] ++ nodeLines false (str "a") 1 []) =
        reportText (aroundB 0) log₂ ∧
      ∀ u ∈ log₁, u.Listed (aroundB 0) → ∃ v ∈ log₂, v.name = u.name ∧ v.Listed (aroundB 0) ∧
        v.distance (aroundB 0) ≤ u.distance (aroundB 0) ∧ u.attributes <+: v.attributes := by
  have hrun₀ : ∃ w₀, run (World.step oneRepository) (World.start oneRepository) beforeReverse =
      some w₀ ∧ w₀.server.current_request = 2 ∧
      (run (World.step oneRepository) w₀ firstRead).any (fun w₁ =>
        decide (w₁.server.current_request = 3 ∧
          answerB (nodeLines false (str "b") 0 []) 2 ∈ answers oneRepository 2 w₁.sent ∧
          (run (World.step oneRepository) w₁ secondRead).any (fun w₂ =>
            decide (answerB (nodeLines false (str "b") 0 [] ++ nodeLines false (str "a") 1 []) 3 ∈
              answers oneRepository 3 w₂.sent)) = true)) = true :=
    exists_of_check (by decide +kernel)
  obtain ⟨w₀, hw₀, hcurrent₀, hrest₀⟩ := hrun₀
  obtain ⟨w₁, hw₁, hcurrent₁, hb₁, hrest₁⟩ := exists_of_check hrest₀
  obtain ⟨w₂, hw₂, hb₂⟩ := exists_of_check hrest₁
  have hsteady : ∀ e ∈ beforeReverse ++ firstRead ++ secondRead, e.Steady := by
    simp [beforeReverse, firstRead, secondRead, oneCreate, Event.Steady]
  obtain ⟨log₁, log₂, hlog₁, hlog₂, hextends⟩ := reads_monotonic
    (show oneRepository.repos ≠ [] by decide) hsteady (by decide +kernel) hw₀ rfl rfl hw₁
    (by rw [hcurrent₀]; exact hb₁) rfl rfl hw₂ (by rw [hcurrent₁]; exact hb₂) rfl le_rfl rfl rfl
  injection hlog₁ with hlog₁
  injection hlog₂ with hlog₂
  injection hlog₁ with hlog₁
  injection hlog₂ with hlog₂
  exact ⟨w₁, w₂, log₁, log₂, hb₁, hb₂, hlog₁, hlog₂, hextends⟩

end DGDB
