import Mathlib
import DGDB.Joining
import DGDB.Replies
import DGDB.Delivery

/-!
# Independence of concurrent queries

`Round.next` is what happens to a query between two of its `R`s: one repository answers from its
tables and the server goes on with the query's own state. In every interleaving an accepted query
is at one of its own rounds, so its response is the one it gets alone.
-/

namespace DGDB

open EventSystem

attribute [local irreducible] toInt

/-! ## The rounds of one query -/

/-- Where a query is: `host` is asked for the node of `q`, or the query has been answered. -/
inductive Round
  | asking (st : QueryState) (host : Host) (q : QueryMsg)
  | answered (text : Str)

section Rounds

variable (cfg : Config) (tables : Host → Storage)

/-- The round in which a query is accepted. -/
def Round.start (q : QueryMsg) : Option Round := do
  let d ← (readQuery (Msg.query q).buffer).toOption
  let host ← (Place.query.host cfg.hosts d.s_buffer).toOption
  return .asking (QueryState.start d.fields) host d.fields

def Round.next : Round → Option Round
  | .answered text => some (.answered text)
  | .asking st host q =>
    match st.node_queue with
    | [] => none
    | top :: queue =>
      if top.1 = q.nameA then
        let st := st.advance top queue (queryReply (tables host) q).wire
        match st.node_queue with
        | [] => some (.answered (completeText st.response))
        | next :: _ => do
          let host ← (Place.next.host cfg.hosts next.1).toOption
          return .asking st host ⟨next.1, toInt next.2, st.leaf, st.attr, st.conditions, 0⟩
      else some (.answered internalErrorText)

def rounds (q : QueryMsg) : ℕ → Option Round
  | 0 => Round.start cfg q
  | n + 1 => (rounds q n).bind (Round.next cfg tables)

end Rounds

/-- The replies from the tables of `st` fit the wire. -/
structure RepliesFit (st : Storage) : Prop where
  rows : ShortRows st
  relations : ∀ x, (st.relationsOf x).length ≤ 9
  attributes : ∀ x, (st.attributesOf x).length ≤ 9

/-- What the next `R` and the reply to it need to fit. -/
def Round.Fits : Round → Prop
  | .asking st _ q => q.Fits ∧ q.request_id = 0 ∧ st.conditions = q.conditions ∧
      ∀ x ∈ st.node_queue, ShortText x.1 ∧ x.2 ≤ 9
  | .answered _ => True

section Rounds

variable {cfg : Config} {tables : Host → Storage} {q : QueryMsg}

theorem queryReply_fits {st : Storage} (h : RepliesFit st) (hq : q.Fits) : (queryReply st q).Fits :=
  ⟨hq.name, h.relations _, h.rows.relationsOf _, h.attributes _, h.rows.attributesOf _, hq.id⟩

theorem QueryMsg.Fits.with_id (hq : q.Fits) {k : ℤ} (hk : ShortId k) :
    ({ q with request_id := k } : QueryMsg).Fits :=
  ⟨hq.name, hq.depth, hq.conditions_length, hq.conditions, hk⟩

theorem Round.start_eq (hq : q.Fits) {r : Round} (h : Round.start cfg q = some r) :
    ∃ host, r = .asking (QueryState.start q) host q := by
  obtain ⟨header, -, hread⟩ := readQuery_parseNewQuery hq
  unfold Round.start at h
  rw [show (Msg.query q).buffer = parseNewQuery q from rfl, hread] at h
  obtain ⟨d, hd, h⟩ := Option.bind_eq_some_iff.mp h
  obtain ⟨host, -, h⟩ := Option.bind_eq_some_iff.mp h
  cases hd
  cases h
  exact ⟨host, rfl⟩

theorem Round.start_fits (hq : q.Fits) (hid : q.request_id = 0) {r : Round}
    (h : Round.start cfg q = some r) : r.Fits := by
  obtain ⟨host, rfl⟩ := Round.start_eq hq h
  refine ⟨hq, hid, rfl, fun x hx => ?_⟩
  rw [List.mem_singleton.mp hx]
  refine ⟨hq.name, ?_⟩
  have hdepth := hq.depth
  show toSizeT q.depth ≤ 9
  unfold toSizeT
  omega

theorem Round.next_cases {st : QueryState} {host : Host} {r : Round}
    (h : Round.next cfg tables (.asking st host q) = some r) :
    ∃ top queue, st.node_queue = top :: queue ∧
      (top.1 ≠ q.nameA ∧ r = .answered internalErrorText ∨ top.1 = q.nameA ∧
        ∃ st', st' = st.advance top queue (queryReply (tables host) q).wire ∧
          (st'.node_queue = [] ∧ r = .answered (completeText st'.response) ∨
            ∃ next rest host', st'.node_queue = next :: rest ∧
              Place.next.host cfg.hosts next.1 = .ok host' ∧
              r = .asking st' host'
                ⟨next.1, toInt next.2, st'.leaf, st'.attr, st'.conditions, 0⟩)) := by
  unfold Round.next at h
  simp only at h
  split at h
  · cases h
  · rename_i top queue hqueue
    refine ⟨top, queue, hqueue, ?_⟩
    split_ifs at h with hname
    · refine Or.inr ⟨hname, _, rfl, ?_⟩
      split at h
      · rename_i hempty
        cases h
        exact Or.inl ⟨hempty, rfl⟩
      · rename_i next rest hnext
        obtain ⟨host', hhost, h⟩ := Option.bind_eq_some_iff.mp h
        cases h
        refine Or.inr ⟨next, rest, host', hnext, ?_, rfl⟩
        cases hok : Place.next.host cfg.hosts next.1 with
        | ok host'' =>
          rw [hok] at hhost
          cases hhost
          rfl
        | error e =>
          rw [hok] at hhost
          cases hhost
    · cases h
      exact Or.inl ⟨hname, rfl⟩

theorem Round.next_fits (htables : ∀ host, RepliesFit (tables host)) {r r' : Round} (hr : r.Fits)
    (h : Round.next cfg tables r = some r') : r'.Fits := by
  cases r with
  | answered text =>
    cases h
    trivial
  | asking st host q =>
    obtain ⟨hq, -, hconditions, hshort⟩ := hr
    obtain ⟨top, queue, hqueue,
      ⟨-, rfl⟩ | ⟨-, st', rfl, ⟨-, rfl⟩ | ⟨next, rest, host', hnext, -, rfl⟩⟩⟩ :=
      Round.next_cases h
    · trivial
    · trivial
    · have htop := hshort top (hqueue ▸ List.mem_cons_self)
      have hqueue' : ∀ x ∈ (st.advance top queue (queryReply (tables host) q).wire).node_queue,
          ShortText x.1 ∧ x.2 ≤ 9 := by
        intro x hx
        rcases mem_advance_queue hx with hx | ⟨hx, hdepth⟩
        · exact hshort x (hqueue ▸ List.mem_cons_of_mem _ hx)
        · refine ⟨(htables host).rows.relationsOf _ _ hx, ?_⟩
          rw [hdepth]
          exact (Nat.sub_le _ _).trans htop.2
      obtain ⟨hname, hdepth⟩ := hqueue' next (hnext ▸ List.mem_cons_self)
      have hbound : 0 ≤ toInt next.2 ∧ toInt next.2 ≤ 9 := by
        rw [toInt_natCast (lt_of_le_of_lt hdepth (by norm_num))]
        omega
      refine ⟨⟨hname, ?_, ?_, ?_, ?_⟩, rfl, rfl, hqueue'⟩
      · exact hbound
      · show st.conditions.length ≤ 99
        rw [hconditions]
        exact hq.conditions_length
      · show ∀ c ∈ st.conditions, _
        rw [hconditions]
        exact hq.conditions
      · exact ⟨le_rfl, by norm_num⟩

theorem rounds_fits (htables : ∀ host, RepliesFit (tables host)) (hq : q.Fits)
    (hid : q.request_id = 0) {n : ℕ} {r : Round} (h : rounds cfg tables q n = some r) : r.Fits := by
  induction n generalizing r with
  | zero => exact Round.start_fits hq hid h
  | succ n ih =>
    obtain ⟨r₀, hr₀, h⟩ := Option.bind_eq_some_iff.mp h
    exact Round.next_fits htables (ih hr₀) h

theorem rounds_answered {n n' : ℕ} {text : Str} (h : rounds cfg tables q n = some (.answered text))
    (hle : n ≤ n') : rounds cfg tables q n' = some (.answered text) := by
  induction hle with
  | refl => exact h
  | step _ ih => exact Option.bind_eq_some_iff.mpr ⟨_, ih, rfl⟩

/-- **A query has one response.** -/
theorem rounds_unique {n n' : ℕ} {text text' : Str}
    (h : rounds cfg tables q n = some (.answered text))
    (h' : rounds cfg tables q n' = some (.answered text')) : text = text' := by
  have hmax := rounds_answered h (le_max_left n n')
  rw [rounds_answered h' (le_max_right n n')] at hmax
  cases hmax
  rfl

end Rounds

/-! ## The turns of a query -/

section Turns

variable {cfg : Config} {tables : Host → Storage} {q : QueryMsg} {throws : ℕ → Option Str}
  {db db' : Process} {from_addr : Host} {out : List Send}

/-- The server accepts a query into its first round, or refuses it without a repository. -/
theorem accept_round (hserver : db.server = true) (hhosts : db.repositories = cfg.hosts)
    (hq : q.Fits) (h : runConnection throws db from_addr (Msg.query q).buffer = .ok (db', out)) :
    db'.server = true ∧ db'.repositories = cfg.hosts ∧
    ((∃ host ∈ cfg.repos, Round.start cfg q = some (.asking (QueryState.start q) host q) ∧
      db'.pending = Function.update db.pending (toInt db.current_request)
        (some ⟨from_addr, some (QueryState.start q)⟩) ∧
      db'.current_request = db.current_request + 1 ∧
      out = [⟨host, .query { q with request_id := db.current_request }⟩]) ∨
    (db'.pending = db.pending ∧ db'.current_request = db.current_request ∧
      ∃ m, out = [⟨from_addr, .response m⟩])) := by
  obtain ⟨header, -, hread⟩ := readQuery_parseNewQuery hq
  rw [runConnection_query] at h
  by_cases h2 : 2 ≤ db.repositories.length
  · rw [queryBranch_place hserver h2 hread] at h
    obtain ⟨host, hhost, h⟩ := bind_eq_ok.mp h
    cases h
    rw [hhosts] at hhost
    refine ⟨hserver, hhosts, Or.inl ⟨host, Place.host_mem (by decide) hhost, ?_, rfl, rfl, rfl⟩⟩
    unfold Round.start
    rw [show (Msg.query q).buffer = parseNewQuery q from rfl, hread]
    simp only [Except.toOption, Option.bind_eq_bind, Option.bind_some, hhost]
    rfl
  · unfold queryBranch accept at h
    rw [hread, ok_bind, if_pos hserver, if_pos (by simpa using h2)] at h
    cases h
    exact ⟨hserver, hhosts, Or.inr ⟨rfl, rfl, _, rfl⟩⟩

/-- The server's turn on the reply for a round is the next round. -/
theorem info_round (hhosts : db.repositories = cfg.hosts) {st : QueryState} {client host : Host}
    {k : ℤ} (hpending : db.pending k = some ⟨client, some st⟩)
    (h : infoBranch db (queryReply (tables host) { q with request_id := k }).wire =
      .ok (db', out)) :
    db'.server = db.server ∧ db'.repositories = cfg.hosts ∧
    db'.current_request = db.current_request ∧
    ∃ r, Round.next cfg tables (.asking st host q) = some r ∧
      ((∃ text, r = .answered text ∧ db'.pending = Function.update db.pending k none ∧
        out = [⟨client, .response ⟨text, k⟩⟩]) ∨
      ∃ st' host' q', r = .asking st' host' q' ∧ host' ∈ cfg.repos ∧
        db'.pending = Function.update db.pending k (some ⟨client, some st'⟩) ∧
        out = [⟨host', .query { q' with request_id := k }⟩]) := by
  set i := (queryReply (tables host) { q with request_id := k }).wire with hi
  have hid : i.request_id = k := rfl
  have hname : i.nameA = q.nameA := rfl
  have hadvance : ∀ top queue, st.advance top queue i =
      st.advance top queue (queryReply (tables host) q).wire := fun _ _ => rfl
  unfold infoBranch at h
  rw [hid, hpending] at h
  unfold Round.next
  cases hqueue : st.node_queue with
  | nil =>
    simp only [hqueue] at h
    cases h
  | cons top queue =>
    simp only [hqueue, hname, hadvance] at h ⊢
    by_cases htop : top.1 = q.nameA
    · simp only [if_pos htop] at h ⊢
      cases hnext : (st.advance top queue (queryReply (tables host) q).wire).node_queue with
      | nil =>
        simp only [hnext] at h ⊢
        cases h
        exact ⟨rfl, hhosts, rfl, _, rfl, Or.inl ⟨_, rfl, rfl, rfl⟩⟩
      | cons next rest =>
        simp only [hnext] at h ⊢
        obtain ⟨s, hs, h⟩ := bind_eq_ok.mp h
        cases h
        rw [nextQuery_place, hhosts] at hs
        obtain ⟨host', hhost, hs⟩ := bind_eq_ok.mp hs
        cases hs
        rw [hhost]
        exact ⟨rfl, hhosts, rfl, _, rfl, Or.inr ⟨_, host', _, rfl,
          Place.host_mem (by decide) hhost, rfl, rfl⟩⟩
    · simp only [if_neg htop] at h ⊢
      cases h
      exact ⟨rfl, hhosts, rfl, _, rfl, Or.inl ⟨_, rfl, rfl, rfl⟩⟩

end Turns

/-! ## Runs of queries -/

/-- The deployment once its repositories have registered and filled their tables. -/
def World.filled (cfg : Config) (tables : Host → Storage) : World :=
  ⟨Process.newServer cfg, fun h => { Process.newRepository cfg with storage := tables h }, 0, [],
    []⟩

/-- Clients send nothing but queries that fit the wire. -/
def Event.IsQuery : Event → Prop
  | .request _ (.query q) => q.Fits
  | .request _ _ => False
  | .deliver _ _ => True

/-- The messages in transit for the request `k`. -/
def World.flight (w : World) (k : ℕ) : Multiset Envelope := w.transit.filter fun e => e.req = k

section Runs

variable (cfg : Config) (tables : Host → Storage)

/-- The request `k` of `client` is at a round: one message is on its way for it, an `R` or the
`I` that answers it, and the server keeps its state. -/
def Round.Holds (w : World) (k : ℕ) (client : Host) : Round → Prop
  | .asking st host q => host ∈ cfg.repos ∧ w.server.pending k = some ⟨client, some st⟩ ∧
      (w.flight k = {⟨cfg.address, host, .query { q with request_id := k }, k⟩} ∨
        w.flight k = {⟨host, cfg.address,
          .info (queryReply (tables host) { q with request_id := k }), k⟩})
  | .answered _ => ∀ e ∈ w.flight k, cfg.IsClient e.dst

/-- An accepted request is a query at one of its rounds. -/
def World.InRound (w : World) (p : ℕ × Envelope) : Prop :=
  ∃ q, p.2.msg = .query q ∧ q.Fits ∧ q.request_id = 0 ∧ cfg.IsClient p.2.src ∧
    ∃ n r, rounds cfg tables q n = some r ∧ r.Holds cfg tables w p.1 p.2.src

/-- `text` is the response to the query of `a`. -/
def IsResponse (a : Envelope) (text : Str) : Prop :=
  ∃ q n, a.msg = .query q ∧ rounds cfg tables q n = some (.answered text)

/-- The invariant of a run of queries. -/
structure World.Querying (w : World) : Prop where
  server : w.server.server = true
  hosts : w.server.repositories = cfg.hosts
  repo : ∀ h, IsRepository cfg.address (w.repo h) ∧ (w.repo h).storage = tables h
  current : w.server.current_request = w.accepted.length + 1
  request : ∀ a ∈ w.transit, a.req = 0 → cfg.IsClient a.dst ∨ a.dst = cfg.address ∧
    cfg.IsClient a.src ∧ ∃ q, a.msg = .query q ∧ q.Fits ∧ q.request_id = 0
  number : ∀ p ∈ w.accepted, 1 ≤ p.1 ∧ p.1 < w.server.current_request
  numbered : ∀ a ∈ w.transit, a.req = 0 ∨ ∃ p ∈ w.accepted, p.1 = a.req
  unique : (w.accepted.map Prod.fst).Nodup
  round : ∀ p ∈ w.accepted, w.InRound cfg tables p
  response : ∀ b ∈ w.sent, b.src = cfg.address → b.req ≠ 0 → ∀ m, b.msg = .response m →
    ∃ p ∈ w.accepted, p.1 = b.req ∧ IsResponse cfg tables p.2 m.message

end Runs

section Querying

variable {cfg : Config} {tables : Host → Storage} {w w' : World} {p : ℕ × Envelope}

theorem World.Querying.filled (cfg : Config) (tables : Host → Storage) :
    (World.filled cfg tables).Querying cfg tables where
  server := rfl
  hosts := rfl
  repo _ := ⟨⟨rfl, rfl, rfl, rfl⟩, rfl⟩
  current := rfl
  request := by simp [World.filled]
  number := by simp [World.filled]
  numbered := by simp [World.filled]
  unique := by simp [World.filled]
  round := by simp [World.filled]
  response := by simp [World.filled]

/-- **Frame.** Another request's state and messages. -/
theorem World.InRound.frame (h : w.InRound cfg tables p)
    (hpending : w'.server.pending p.1 = w.server.pending p.1)
    (hflight : w'.flight p.1 = w.flight p.1) : w'.InRound cfg tables p := by
  obtain ⟨q, hq, hfits, hid, hclient, n, r, hr, hholds⟩ := h
  refine ⟨q, hq, hfits, hid, hclient, n, r, hr, ?_⟩
  cases r with
  | asking st host q =>
    unfold Round.Holds at hholds ⊢
    rwa [hpending, hflight]
  | answered text =>
    unfold Round.Holds at hholds ⊢
    rwa [hflight]

theorem flight_turn {a : Envelope} {rest : Multiset Envelope} {es : List Envelope}
    (htransit : w.transit = a ::ₘ rest) (hw : w'.transit = rest + (es : Multiset Envelope)) {k : ℕ}
    (ha : a.req ≠ k) (hes : ∀ e ∈ es, e.req ≠ k) : w'.flight k = w.flight k := by
  have hnone : Multiset.filter (fun e => e.req = k) (es : Multiset Envelope) = 0 :=
    Multiset.filter_eq_nil.mpr fun e he => hes e (Multiset.mem_coe.mp he)
  unfold World.flight
  rw [hw, htransit, Multiset.filter_add, hnone, add_zero,
    Multiset.filter_cons_of_neg (p := fun e => e.req = k) rest ha]

theorem flight_swap {a e : Envelope} {rest : Multiset Envelope} {es : List Envelope}
    (htransit : w.transit = a ::ₘ rest) (hw : w'.transit = rest + (es : Multiset Envelope))
    (hflight : w.flight a.req = {e}) (hes : ∀ e ∈ es, e.req = a.req) :
    a = e ∧ w'.flight a.req = (es : Multiset Envelope) := by
  have hall : Multiset.filter (fun e => e.req = a.req) (es : Multiset Envelope) = es :=
    Multiset.filter_eq_self.mpr fun e he => hes e (Multiset.mem_coe.mp he)
  unfold World.flight at hflight ⊢
  rw [htransit, Multiset.filter_cons_of_pos (p := fun e => e.req = a.req) rest rfl] at hflight
  obtain ⟨rfl, hrest⟩ := (Multiset.singleton_eq_cons_iff _).mp hflight.symm
  rw [hw, Multiset.filter_add, hall, hrest, zero_add]
  exact ⟨rfl, rfl⟩

theorem mem_flight {a : Envelope} {rest : Multiset Envelope} (htransit : w.transit = a ::ₘ rest) :
    a ∈ w.flight a.req :=
  Multiset.mem_filter.mpr ⟨htransit ▸ Multiset.mem_cons_self a rest, rfl⟩

namespace World.Querying

theorem extend (h : w.Querying cfg tables) {a : Envelope} {rest : Multiset Envelope}
    {es : List Envelope} (htransit : w.transit = a ::ₘ rest)
    (hw : w'.transit = rest + (es : Multiset Envelope)) (hsent : w'.sent = w.sent ++ es)
    (haccepted : w'.accepted = w.accepted) (hserver : w'.server.server = true)
    (hhosts : w'.server.repositories = cfg.hosts)
    (hcurrent : w'.server.current_request = w.server.current_request)
    (hrepo : w'.repo = w.repo) (hreq : ∀ e ∈ es, e.req = a.req)
    (hpending : ∀ k : ℕ, k ≠ a.req → w'.server.pending k = w.server.pending k)
    (hclient : a.req = 0 → ∀ e ∈ es, cfg.IsClient e.dst)
    (hround : ∀ p ∈ w.accepted, p.1 = a.req → w'.InRound cfg tables p)
    (hresponse : ∀ b ∈ es, b.src = cfg.address → b.req ≠ 0 → ∀ m, b.msg = .response m →
      ∃ p ∈ w.accepted, p.1 = b.req ∧ IsResponse cfg tables p.2 m.message) :
    w'.Querying cfg tables where
  server := hserver
  hosts := hhosts
  repo := hrepo ▸ h.repo
  current := by rw [hcurrent, haccepted, h.current]
  request := by
    intro b hb hzero
    rw [hw, Multiset.mem_add] at hb
    rcases hb with hb | hb
    · exact h.request b (htransit ▸ Multiset.mem_cons_of_mem hb) hzero
    · exact Or.inl (hclient ((hreq b hb).symm.trans hzero) b hb)
  number := by
    rw [haccepted, hcurrent]
    exact h.number
  numbered := by
    intro b hb
    rw [hw, Multiset.mem_add] at hb
    rw [haccepted]
    rcases hb with hb | hb
    · exact h.numbered b (htransit ▸ Multiset.mem_cons_of_mem hb)
    · rw [hreq b hb]
      exact h.numbered a (htransit ▸ Multiset.mem_cons_self a rest)
  unique := haccepted ▸ h.unique
  round := by
    intro p hp
    rw [haccepted] at hp
    by_cases hpa : p.1 = a.req
    · exact hround p hp hpa
    · refine (h.round p hp).frame (hpending p.1 hpa) ?_
      exact flight_turn htransit hw (Ne.symm hpa) fun e he heq => hpa (heq.symm.trans (hreq e he))
  response := by
    intro b hb hsrc hzero m hm
    rw [haccepted]
    rcases List.mem_append.mp (hsent ▸ hb) with hb | hb
    · exact h.response b hb hsrc hzero m hm
    · exact hresponse b hb hsrc hzero m hm

theorem post (h : w.Querying cfg tables) {client : Host} {q : QueryMsg}
    (hclient : cfg.IsClient client) (hq : q.Fits) (hid : q.request_id = 0) :
    (w.post [⟨client, cfg.address, .query q, 0⟩]).Querying cfg tables where
  server := h.server
  hosts := h.hosts
  repo := h.repo
  current := h.current
  request := by
    intro b hb hzero
    rw [World.post_transit, Multiset.mem_add, Multiset.mem_coe] at hb
    rcases hb with hb | hb
    · exact h.request b hb hzero
    · rw [List.mem_singleton.mp hb]
      exact Or.inr ⟨rfl, hclient, q, rfl, hq, hid⟩
  number := h.number
  numbered := by
    intro b hb
    rw [World.post_transit, Multiset.mem_add, Multiset.mem_coe] at hb
    rcases hb with hb | hb
    · exact h.numbered b hb
    · rw [List.mem_singleton.mp hb]
      exact Or.inl rfl
  unique := h.unique
  round := by
    intro p hp
    refine (h.round p hp).frame rfl ?_
    have hpos := (h.number p hp).1
    have hnone : Multiset.filter (fun e => e.req = p.1)
        (([⟨client, cfg.address, .query q, 0⟩] : List Envelope) : Multiset Envelope) = 0 := by
      apply Multiset.filter_eq_nil.mpr
      intro e he
      rw [List.mem_singleton.mp (Multiset.mem_coe.mp he)]
      exact fun hzero => absurd hzero.symm (Nat.ne_of_gt hpos)
    unfold World.flight
    rw [World.post_transit, Multiset.filter_add, hnone, add_zero]
  response := by
    intro b hb hsrc hzero
    rcases List.mem_append.mp hb with hb | hb
    · exact h.response b hb hsrc hzero
    · rw [List.mem_singleton.mp hb] at hzero
      exact absurd rfl hzero

theorem accept (h : w.Querying cfg tables) (hfew : w.accepted.length < 1000) {a : Envelope}
    {rest : Multiset Envelope} (htransit : w.transit = a ::ₘ rest) (hzero : a.req = 0)
    (hclient : cfg.IsClient a.src) {q : QueryMsg} (hmsg : a.msg = .query q) (hq : q.Fits)
    (hid : q.request_id = 0) {host : Host} (hhost : host ∈ cfg.repos)
    (hstart : Round.start cfg q = some (.asking (QueryState.start q) host q)) {db : Process}
    (hserver : db.server = true) (hhosts : db.repositories = cfg.hosts)
    (hpending : db.pending = Function.update w.server.pending (toInt w.server.current_request)
      (some ⟨a.src, some (QueryState.start q)⟩))
    (hcurrent : db.current_request = w.server.current_request + 1) :
    World.Querying cfg tables ⟨db, w.repo, rest + ([⟨cfg.address, host,
        .query { q with request_id := w.server.current_request }, w.server.current_request⟩] :
          List Envelope),
      w.accepted ++ [(w.server.current_request, a)],
      w.sent ++ [⟨cfg.address, host, .query { q with request_id := w.server.current_request },
        w.server.current_request⟩]⟩ := by
  set k := w.server.current_request with hk
  set b : Envelope := ⟨cfg.address, host, .query { q with request_id := k }, k⟩ with hb
  have hcur : k = w.accepted.length + 1 := h.current
  have hkpos : k ≠ 0 := by omega
  have hint : toInt k = k := toInt_natCast (by omega)
  have hold : ∀ e ∈ w.transit, e.req < k := by
    intro e he
    rcases h.numbered e he with hreq | ⟨p, hp, hreq⟩
    · omega
    · exact hreq ▸ (h.number p hp).2
  refine ⟨hserver, hhosts, h.repo, ?_, ?_, ?_, ?_, ?_, ?_, ?_⟩
  · show db.current_request = (w.accepted ++ [(k, a)]).length + 1
    rw [hcurrent, List.length_append, hcur]
    rfl
  · intro e he hreq
    rcases Multiset.mem_add.mp he with he | he
    · exact h.request e (htransit ▸ Multiset.mem_cons_of_mem he) hreq
    · rw [List.mem_singleton.mp (Multiset.mem_coe.mp he)] at hreq
      exact absurd hreq hkpos
  · show ∀ p ∈ w.accepted ++ [(k, a)], 1 ≤ p.1 ∧ p.1 < db.current_request
    intro p hp
    rcases List.mem_append.mp hp with hp | hp
    · have hnum := h.number p hp
      omega
    · rw [List.mem_singleton.mp hp]
      simp only
      omega
  · intro e he
    rcases Multiset.mem_add.mp he with he | he
    · rcases h.numbered e (htransit ▸ Multiset.mem_cons_of_mem he) with hreq | ⟨p, hp, hreq⟩
      · exact Or.inl hreq
      · exact Or.inr ⟨p, List.mem_append_left _ hp, hreq⟩
    · rw [List.mem_singleton.mp (Multiset.mem_coe.mp he)]
      exact Or.inr ⟨(k, a), List.mem_append_right _ (List.mem_singleton_self _), rfl⟩
  · show ((w.accepted ++ [(k, a)]).map Prod.fst).Nodup
    rw [List.map_append, List.nodup_append]
    refine ⟨h.unique, List.nodup_singleton _, ?_⟩
    intro n hn n' hn' heq
    obtain ⟨p, hp, rfl⟩ := List.mem_map.mp hn
    rw [List.mem_singleton.mp hn'] at heq
    exact absurd heq (h.number p hp).2.ne
  · intro p hp
    rcases List.mem_append.mp hp with hp | hp
    · have hnum := h.number p hp
      refine (h.round p hp).frame ?_ ?_
      · show db.pending p.1 = _
        rw [hpending, hint, Function.update_of_ne]
        exact_mod_cast hnum.2.ne
      · refine flight_turn htransit rfl (by omega) fun e he => ?_
        rw [List.mem_singleton.mp he]
        exact hnum.2.ne'
    · rw [List.mem_singleton.mp hp]
      refine ⟨q, hmsg, hq, hid, hclient, 0, _, hstart, hhost, ?_, Or.inl ?_⟩
      · show db.pending k = _
        rw [hpending, hint, Function.update_self]
      · have hnone : Multiset.filter (fun e => e.req = k) rest = 0 :=
          Multiset.filter_eq_nil.mpr fun e he =>
            (hold e (htransit ▸ Multiset.mem_cons_of_mem he)).ne
        unfold World.flight
        rw [Multiset.filter_add, hnone, zero_add]
        exact Multiset.filter_eq_self.mpr fun e he => by
          rw [List.mem_singleton.mp (Multiset.mem_coe.mp he)]
  · intro e he hsrc hreq m hm
    rcases List.mem_append.mp he with he | he
    · obtain ⟨p, hp, hrest⟩ := h.response e he hsrc hreq m hm
      exact ⟨p, List.mem_append_left _ hp, hrest⟩
    · rw [List.mem_singleton.mp he] at hm
      cases hm

/-- A message for an accepted request is the only one on its way for it. -/
theorem round_of_message (h : w.Querying cfg tables) {a : Envelope} {rest : Multiset Envelope}
    (htransit : w.transit = a ::ₘ rest) (hp : p ∈ w.accepted) (hreq : p.1 = a.req)
    (hdst : ¬ cfg.IsClient a.dst) :
    ∃ q n st host m, p.2.msg = .query q ∧ q.Fits ∧ q.request_id = 0 ∧ cfg.IsClient p.2.src ∧
      rounds cfg tables q n = some (.asking st host m) ∧ host ∈ cfg.repos ∧
      w.server.pending a.req = some ⟨p.2.src, some st⟩ ∧ w.flight a.req = {a} ∧
      (a = ⟨cfg.address, host, .query { m with request_id := a.req }, a.req⟩ ∨
        a = ⟨host, cfg.address,
          .info (queryReply (tables host) { m with request_id := a.req }), a.req⟩) := by
  obtain ⟨q, hq, hfits, hid, hclient, n, r, hr, hholds⟩ := h.round p hp
  have ha := mem_flight htransit
  rw [hreq] at hholds
  cases r with
  | answered text => exact absurd (hholds a ha) hdst
  | asking st host m =>
    obtain ⟨hhost, hpending, hflight⟩ := hholds
    refine ⟨q, n, st, host, m, hq, hfits, hid, hclient, hr, hhost, hpending, ?_⟩
    rcases hflight with hflight | hflight
    · have heq := Multiset.mem_singleton.mp (hflight ▸ ha)
      exact ⟨hflight.trans (congrArg _ heq.symm), Or.inl heq⟩
    · have heq := Multiset.mem_singleton.mp (hflight ▸ ha)
      exact ⟨hflight.trans (congrArg _ heq.symm), Or.inr heq⟩

theorem eq_of_number (h : w.Querying cfg tables) {p' : ℕ × Envelope} (hp : p ∈ w.accepted)
    (hp' : p' ∈ w.accepted) (heq : p'.1 = p.1) : p' = p :=
  List.inj_on_of_nodup_map h.unique hp' hp heq

theorem reply (htables : ∀ host, RepliesFit (tables host)) (h : w.Querying cfg tables)
    (hfew : w.accepted.length < 1000) {a : Envelope} {rest : Multiset Envelope}
    (htransit : w.transit = a ::ₘ rest) (hdst : a.dst = cfg.address) (hp : p ∈ w.accepted)
    (hreq : p.1 = a.req) {throws : ℕ → Option Str} {db : Process} {out : List Send}
    (hrun : runConnection throws w.server a.src a.msg.buffer = .ok (db, out)) :
    World.Querying cfg tables
      (World.serverTurn cfg { w with transit := rest } a db out) := by
  have hnum := h.number p hp
  have hcur := h.current
  obtain ⟨q, n, st, host, m, hq, hfits, hid, hclient, hr, hhost, hpending, hflight, hmsg⟩ :=
    h.round_of_message htransit hp hreq (fun hclient => hclient.1 hdst)
  have hinfo : a.msg = .info (queryReply (tables host) { m with request_id := a.req }) := by
    rcases hmsg with hmsg | hmsg
    · rw [hmsg] at hdst
      exact absurd (hdst ▸ hhost) cfg.apart
    · rw [hmsg]
  have hm : m.Fits := (rounds_fits htables hfits hid hr).1
  have hshort : ShortId a.req := ⟨by omega, by omega⟩
  rw [hinfo, server_info throws a.src _ (queryReply_fits (htables host) (hm.with_id hshort))]
    at hrun
  obtain ⟨hserver, hhosts, hcurrent, r, hnext, hround⟩ := info_round h.hosts hpending hrun
  have hrounds : rounds cfg tables q (n + 1) = some r := Option.bind_eq_some_iff.mpr ⟨_, hr, hnext⟩
  have hstamp : ∀ e ∈ World.stamp cfg.address a.req out, e.req = a.req := by
    intro e he
    obtain ⟨s, -, rfl⟩ := mem_stamp.mp he
    rfl
  have hkeys : ∀ k : ℕ, k ≠ a.req → (k : ℤ) ≠ (a.req : ℤ) := fun k hk heq =>
    hk (by exact_mod_cast heq)
  unfold World.serverTurn
  rw [if_neg (show ¬ w.server.current_request < db.current_request by omega)]
  have hswap : World.flight (World.post { w with transit := rest, server := db }
      (World.stamp cfg.address a.req out)) a.req = World.stamp cfg.address a.req out :=
    (flight_swap htransit rfl hflight hstamp).2
  refine h.extend htransit rfl rfl rfl (hserver.trans h.server) hhosts hcurrent rfl hstamp ?_ ?_
    ?_ ?_
  · intro k hk
    show db.pending k = w.server.pending k
    rcases hround with ⟨text, -, hpend, -⟩ | ⟨st', host', q', -, -, hpend, -⟩
    · rw [hpend, Function.update_of_ne (hkeys k hk)]
    · rw [hpend, Function.update_of_ne (hkeys k hk)]
  · intro hzero
    omega
  · intro p' hp' hreq'
    rw [h.eq_of_number hp hp' (hreq'.trans hreq.symm)]
    refine ⟨q, hq, hfits, hid, hclient, n + 1, r, hrounds, ?_⟩
    rw [hreq]
    rcases hround with ⟨text, rfl, hpend, rfl⟩ | ⟨st', host', q', rfl, hhost', hpend, rfl⟩
    · intro e he
      rw [hswap] at he
      rw [List.mem_singleton.mp (Multiset.mem_coe.mp he)]
      exact hclient
    · refine ⟨hhost', ?_, Or.inl hswap⟩
      show db.pending a.req = _
      rw [hpend, Function.update_self]
  · intro b hb hsrc hzero m' hm'
    obtain ⟨s, hs, rfl⟩ := mem_stamp.mp hb
    refine ⟨p, hp, hreq, q, n + 1, hq, ?_⟩
    rw [hrounds]
    rcases hround with ⟨text, rfl, hpend, rfl⟩ | ⟨st', host', q', rfl, hhost', hpend, rfl⟩
    · rw [List.mem_singleton.mp hs] at hm'
      cases hm'
      rfl
    · rw [List.mem_singleton.mp hs] at hm'
      cases hm'

theorem answer (htables : ∀ host, RepliesFit (tables host)) (h : w.Querying cfg tables)
    (hfew : w.accepted.length < 1000) {a : Envelope} {rest : Multiset Envelope}
    (htransit : w.transit = a ::ₘ rest) (hdst : a.dst ∈ cfg.repos) (hp : p ∈ w.accepted)
    (hreq : p.1 = a.req) {throws : ℕ → Option Str} {db : Process} {out : List Send}
    (hrun : runConnection throws (w.repo a.dst) a.src a.msg.buffer = .ok (db, out)) :
    World.Querying cfg tables (World.repoTurn { w with transit := rest } a db out) := by
  have hnum := h.number p hp
  have hcur := h.current
  obtain ⟨q, n, st, host, m, hq, hfits, hid, hclient, hr, hhost, hpending, hflight, hmsg⟩ :=
    h.round_of_message htransit hp hreq (fun hclient => hclient.2 hdst)
  have hquery : a.dst = host ∧ a.msg = .query { m with request_id := a.req } := by
    rcases hmsg with hmsg | hmsg
    · rw [hmsg]
      exact ⟨rfl, rfl⟩
    · rw [hmsg] at hdst
      exact absurd hdst cfg.apart
  have hm : m.Fits := (rounds_fits htables hfits hid hr).1
  have hshort : ShortId a.req := ⟨by omega, by omega⟩
  obtain ⟨hrepo, hstorage⟩ := h.repo a.dst
  have hturn := repository_query a.src hrepo (hm.with_id hshort)
  rw [hstorage, hquery.1] at hturn
  rw [hquery.2, hquery.1, runConnection_query, ← runConnection_query noThrow, hturn] at hrun
  cases hrun
  set out : List Send :=
    [⟨cfg.address, .info (queryReply (tables host) { m with request_id := a.req })⟩]
  have hswap : World.flight (World.repoTurn { w with transit := rest } a (w.repo host) out) a.req =
      World.stamp a.dst a.req out :=
    (flight_swap htransit rfl hflight (by simp [World.stamp])).2
  refine h.extend htransit rfl rfl rfl h.server h.hosts rfl ?_ (by simp [World.stamp])
    (fun _ _ => rfl) ?_ ?_ ?_
  · show Function.update w.repo a.dst (w.repo host) = w.repo
    rw [hquery.1, Function.update_eq_self]
  · intro hzero
    omega
  · intro p' hp' hreq'
    rw [h.eq_of_number hp hp' (hreq'.trans hreq.symm)]
    refine ⟨q, hq, hfits, hid, hclient, n, _, hr, ?_⟩
    rw [hreq]
    refine ⟨hhost, hpending, Or.inr (hswap.trans ?_)⟩
    rw [hquery.1]
    rfl
  · intro b hb _ _ m' hm'
    obtain ⟨s, hs, rfl⟩ := mem_stamp.mp hb
    rw [List.mem_singleton.mp hs] at hm'
    cases hm'

theorem request_query (h : w.Querying cfg tables) (hfew : w.accepted.length < 1000) {a : Envelope}
    {rest : Multiset Envelope} (htransit : w.transit = a ::ₘ rest) (hzero : a.req = 0)
    (hclient : cfg.IsClient a.src) {q : QueryMsg} (hmsg : a.msg = .query q) (hq : q.Fits)
    (hid : q.request_id = 0) {throws : ℕ → Option Str} {db : Process} {out : List Send}
    (hrun : runConnection throws w.server a.src a.msg.buffer = .ok (db, out)) :
    World.Querying cfg tables
      (World.serverTurn cfg { w with transit := rest } a db out) := by
  rw [hmsg] at hrun
  obtain ⟨hserver, hhosts, ⟨host, hhost, hstart, hpending, hcurrent, rfl⟩ |
    ⟨hpending, hcurrent, m, rfl⟩⟩ := accept_round h.server h.hosts hq hrun
  · unfold World.serverTurn
    rw [if_pos (show w.server.current_request < db.current_request by omega)]
    exact h.accept hfew htransit hzero hclient hmsg hq hid hhost hstart hserver hhosts hpending
      hcurrent
  · unfold World.serverTurn
    rw [if_neg (show ¬ w.server.current_request < db.current_request by omega)]
    refine h.extend htransit rfl rfl rfl hserver hhosts hcurrent rfl (by simp [World.stamp])
      (fun k _ => congrFun hpending k) ?_ ?_ ?_
    · intro _ e he
      rw [List.mem_singleton.mp he]
      exact hclient
    · intro p hp heq
      have hpos := (h.number p hp).1
      omega
    · intro b hb _ hreq
      rw [List.mem_singleton.mp hb] at hreq
      exact absurd hzero hreq

theorem step (htables : ∀ host, RepliesFit (tables host)) (h : w.Querying cfg tables)
    (hfew : w.accepted.length < 1000) {e : Event} (he : e.IsQuery) (hs : w.step cfg e = some w') :
    w'.Querying cfg tables := by
  cases e with
  | request client msg =>
    obtain ⟨hclient, hrequest, rfl⟩ := step_request hs
    cases msg with
    | query q => exact h.post hclient he hrequest
    | _ => exact absurd he id
  | deliver a throws =>
    obtain ⟨rest, htransit, hhandle⟩ := step_deliver hs
    have ha : a ∈ w.transit := htransit ▸ Multiset.mem_cons_self a rest
    rcases handle_cases hhandle with ⟨hdst, db, out, hrun, rfl⟩ | ⟨hdst, db, out, hrun, rfl⟩ |
      ⟨hdst, rfl⟩
    · rcases h.numbered a ha with hzero | ⟨p, hp, hreq⟩
      · rcases h.request a ha hzero with hclient | ⟨-, hclient, q, hmsg, hq, hid⟩
        · exact absurd hdst hclient.1
        · exact h.request_query hfew htransit hzero hclient hmsg hq hid hrun
      · exact h.reply htables hfew htransit hdst hp hreq hrun
    · rcases h.numbered a ha with hzero | ⟨p, hp, hreq⟩
      · rcases h.request a ha hzero with hclient | ⟨haddress, -⟩
        · exact absurd hdst hclient.2
        · exact absurd (haddress ▸ hdst) cfg.apart
      · exact h.answer htables hfew htransit hdst hp hreq hrun
    · -- a client takes its response
      have hrest : rest = rest + (([] : List Envelope) : Multiset Envelope) := (add_zero rest).symm
      have hsent : w.sent = w.sent ++ [] := (List.append_nil _).symm
      refine h.extend htransit hrest hsent rfl h.server h.hosts rfl rfl (by simp)
        (fun _ _ => rfl) (by simp) ?_ (by simp)
      intro p hp hreq
      obtain ⟨q, hq, hfits, hid, hclient, n, r, hr, hholds⟩ := h.round p hp
      refine ⟨q, hq, hfits, hid, hclient, n, r, hr, ?_⟩
      cases r with
      | answered text =>
        intro e he
        rw [hreq] at hholds he
        have hle : Multiset.filter (fun e => e.req = a.req) rest ≤ w.flight a.req := by
          unfold World.flight
          rw [htransit]
          exact Multiset.filter_le_filter _ (Multiset.le_cons_self rest a)
        exact hholds e (Multiset.mem_of_le hle he)
      | asking st host m =>
        obtain ⟨hhost, -, hflight⟩ := hholds
        have hmem := mem_flight htransit
        rw [hreq] at hflight
        rcases hflight with hflight | hflight
        · have heq := Multiset.mem_singleton.mp (hflight ▸ hmem)
          rw [heq] at hdst
          exact absurd hhost hdst.2
        · have heq := Multiset.mem_singleton.mp (hflight ▸ hmem)
          rw [heq] at hdst
          exact absurd rfl hdst.1

end World.Querying

end Querying

theorem step_accepted_le {cfg : Config} {w w' : World} {e : Event} (h : w.step cfg e = some w') :
    w.accepted.length ≤ w'.accepted.length := by
  cases e with
  | request client msg =>
    obtain ⟨-, -, rfl⟩ := step_request h
    exact le_rfl
  | deliver a throws =>
    obtain ⟨rest, -, hhandle⟩ := step_deliver h
    rcases handle_cases hhandle with ⟨-, db, out, -, rfl⟩ | ⟨-, db, out, -, rfl⟩ | ⟨-, rfl⟩
    · unfold World.serverTurn
      split_ifs
      · rw [World.post_accepted, List.length_append]
        exact Nat.le_add_right _ _
      · exact le_rfl
    · exact le_rfl
    · exact le_rfl

theorem querying_of_run {cfg : Config} {tables : Host → Storage}
    (htables : ∀ host, RepliesFit (tables host)) {es : List Event} (hes : ∀ e ∈ es, e.IsQuery)
    {w : World} (hrun : run (World.step cfg) (World.filled cfg tables) es = some w)
    (hfew : w.accepted.length < 1000) : w.Querying cfg tables := by
  have hbound := (along_le_last (fun _ _ _ hs => step_accepted_le hs) hrun).mono
    fun _ hle => lt_of_le_of_lt hle hfew
  have hinv := Along.of_step (C := fun _ e => e.IsQuery)
    (fun _ _ _ hA _ hC hI hs => hI.step htables hA hC hs)
    (World.Querying.filled cfg tables) hbound (meets_of_forall hes _)
  exact hinv.last hrun

theorem World.Querying.isResponse {cfg : Config} {tables : Host → Storage} {w : World}
    (h : w.Querying cfg tables) {p : ℕ × Envelope} (hp : p ∈ w.accepted) {b : Envelope}
    {m : ResponseMsg} (hb : b ∈ w.sent) (hsrc : b.src = cfg.address) (hreq : b.req = p.1)
    (hm : b.msg = .response m) : IsResponse cfg tables p.2 m.message := by
  have hpos := (h.number p hp).1
  obtain ⟨p', hp', hreq', hresponse⟩ := h.response b hb hsrc (by omega) m hm
  rwa [h.eq_of_number hp hp' (hreq'.trans hreq)] at hresponse

/-- **Independence of concurrent queries.** With the tables fixed, the response to a query in a run
of any number of queries, in any order of their messages, is its response in every run in which it
is the only query. -/
theorem queries_independent {cfg : Config} {tables : Host → Storage}
    (htables : ∀ host, RepliesFit (tables host)) {es alone : List Event}
    (hes : ∀ e ∈ es, e.IsQuery) (halone : ∀ e ∈ alone, e.IsQuery) {w w₁ : World}
    (hrun : run (World.step cfg) (World.filled cfg tables) es = some w)
    (hrun₁ : run (World.step cfg) (World.filled cfg tables) alone = some w₁)
    (hfew : w.accepted.length < 1000) {k k₁ : ℕ} {a a₁ : Envelope} (ha : (k, a) ∈ w.accepted)
    (ha₁ : w₁.accepted = [(k₁, a₁)]) (hmsg : a₁.msg = a.msg) {b b₁ : Envelope}
    {m m₁ : ResponseMsg} (hb : b ∈ w.sent) (hsrc : b.src = cfg.address) (hreq : b.req = k)
    (hm : b.msg = .response m) (hb₁ : b₁ ∈ w₁.sent) (hsrc₁ : b₁.src = cfg.address)
    (hreq₁ : b₁.req = k₁) (hm₁ : b₁.msg = .response m₁) : m.message = m₁.message := by
  have hfew₁ : w₁.accepted.length < 1000 := by
    rw [ha₁]
    norm_num
  have hI := querying_of_run htables hes hrun hfew
  have hI₁ := querying_of_run htables halone hrun₁ hfew₁
  have ha₁' : (k₁, a₁) ∈ w₁.accepted := ha₁ ▸ List.mem_singleton_self _
  obtain ⟨q, n, hq, hn⟩ := hI.isResponse ha hb hsrc hreq hm
  obtain ⟨q₁, n₁, hq₁, hn₁⟩ := hI₁.isResponse ha₁' hb₁ hsrc₁ hreq₁ hm₁
  cases hq.symm.trans (hmsg.symm.trans hq₁)
  exact rounds_unique hn hn₁

/-! ### Two queries on a small graph -/

/-- a and b are neighbours, and a has an attribute. -/
def smallTables : Storage where
  nodes := [str "a", str "b"]
  attributes := [⟨str "a", str "k", str "v"⟩]
  relations := [⟨str "a", str "b"⟩, ⟨str "b", str "a"⟩]

theorem smallTables_fit : RepliesFit smallTables where
  rows := ⟨by decide, by decide⟩
  relations x := by
    unfold Storage.relationsOf
    rw [List.length_map]
    exact (List.length_filter_le _ _).trans (by decide)
  attributes x := (List.length_filter_le _ _).trans (by decide)

/-- The query of client 1 from a and that of client 2 from b, under the request id `n`. -/
def fromA (x : Str) (depth n : ℤ) : Msg := .query ⟨x, depth, false, true, [], n⟩

def fromB (n : ℤ) : Msg := .query ⟨str "b", 0, false, false, [], n⟩

/-- The replies of the repository to the two queries. -/
def replyA (x : Str) (depth n : ℤ) : Msg :=
  .info (queryReply smallTables ⟨x, depth, false, true, [], n⟩)

def replyB (n : ℤ) : Msg := .info (queryReply smallTables ⟨str "b", 0, false, false, [], n⟩)

/-- The message `msg` of the request `n` is delivered. -/
def passes (src dst : Host) (msg : Msg) (n : ℕ) : Event := .deliver ⟨src, dst, msg, n⟩ noThrow

def theRepository : Host := ⟨str "10.0.0.2", 50001⟩

/-- The query from b is accepted first and answered between the two rounds of the query from a. -/
def interleaved : List Event :=
  let server := oneRepository.address
  [.request (clientHost 1) (fromA (str "a") 1 0), .request (clientHost 2) (fromB 0),
    passes (clientHost 2) server (fromB 0) 0, passes (clientHost 1) server (fromA (str "a") 1 0) 0,
    passes server theRepository (fromA (str "a") 1 2) 2,
    passes server theRepository (fromB 1) 1,
    passes theRepository server (replyA (str "a") 1 2) 2,
    passes theRepository server (replyB 1) 1,
    passes server theRepository (fromA (str "b") 0 2) 2,
    passes theRepository server (replyA (str "b") 0 2) 2]

/-- The query from a alone. -/
def unaccompanied : List Event :=
  let server := oneRepository.address
  [.request (clientHost 1) (fromA (str "a") 1 0),
    passes (clientHost 1) server (fromA (str "a") 1 0) 0,
    passes server theRepository (fromA (str "a") 1 1) 1,
    passes theRepository server (replyA (str "a") 1 1) 1,
    passes server theRepository (fromA (str "b") 0 1) 1,
    passes theRepository server (replyA (str "b") 0 1) 1]

/-- The response to the query from a, under the request id `n`. -/
def responseA (n : ℤ) : ResponseMsg :=
  ⟨completeText
    (nodeLines true (str "a") 0 [⟨[], str "k", str "v"⟩] ++ nodeLines true (str "b") 1 []), n⟩

/-- In both runs client 1 gets the same text. -/
theorem queries_independent_interleaved : ∃ w w₁,
    run (World.step oneRepository) (World.filled oneRepository fun _ => smallTables) interleaved =
        some w ∧
      run (World.step oneRepository) (World.filled oneRepository fun _ => smallTables)
        unaccompanied = some w₁ ∧
      w.accepted.length = 2 ∧
      ⟨oneRepository.address, clientHost 1, .response (responseA 2), 2⟩ ∈ w.sent ∧
      ⟨oneRepository.address, clientHost 1, .response (responseA 1), 1⟩ ∈ w₁.sent ∧
      (responseA 2).message = (responseA 1).message := by
  have hrun : ∃ w, run (World.step oneRepository)
      (World.filled oneRepository fun _ => smallTables) interleaved = some w ∧
      w.accepted.length = 2 ∧
      (2, ⟨clientHost 1, oneRepository.address, fromA (str "a") 1 0, 0⟩) ∈ w.accepted ∧
      ⟨oneRepository.address, clientHost 1, .response (responseA 2), 2⟩ ∈ w.sent :=
    exists_of_check (by decide +kernel)
  have hrun₁ : ∃ w, run (World.step oneRepository)
      (World.filled oneRepository fun _ => smallTables) unaccompanied = some w ∧
      w.accepted = [(1, ⟨clientHost 1, oneRepository.address, fromA (str "a") 1 0, 0⟩)] ∧
      ⟨oneRepository.address, clientHost 1, .response (responseA 1), 1⟩ ∈ w.sent :=
    exists_of_check (by decide +kernel)
  have hA : QueryMsg.Fits ⟨str "a", 1, false, true, [], 0⟩ := by constructor <;> decide
  have hB : QueryMsg.Fits ⟨str "b", 0, false, false, [], 0⟩ := by constructor <;> decide
  have hes : ∀ e ∈ interleaved, e.IsQuery := by
    unfold interleaved
    simp only [List.forall_mem_cons]
    exact ⟨hA, hB, trivial, trivial, trivial, trivial, trivial, trivial, trivial, trivial, by simp⟩
  have halone : ∀ e ∈ unaccompanied, e.IsQuery := by
    unfold unaccompanied
    simp only [List.forall_mem_cons]
    exact ⟨hA, trivial, trivial, trivial, trivial, trivial, by simp⟩
  obtain ⟨w, hw, hlen, ha, hb⟩ := hrun
  obtain ⟨w₁, hw₁, ha₁, hb₁⟩ := hrun₁
  refine ⟨w, w₁, hw, hw₁, hlen, hb, hb₁, ?_⟩
  exact queries_independent (fun _ => smallTables_fit) hes halone hw hw₁ (by omega) ha ha₁ rfl hb
    rfl rfl rfl hb₁ rfl rfl rfl

end DGDB
