import Mathlib
import DGDB.Exclusion
import DGDB.Inbox
import DGDB.Recorded

/-!
# What a deployment still has to do

A bound on the deliveries that the messages in transit and the pending queries still cause. Every
delivery lowers it, so the deployment settles as soon as the clients stop sending, and then every
request has its reply.
-/

namespace DGDB

open EventSystem GraphSearch

/-! ## Sums over the pending entries -/

/-- The sum of `f` over the entries of `pending` with a number below `bound`. -/
def pendingSum (f : Pending → ℕ) (pending : ℤ → Option Pending) (bound : ℕ) : ℕ :=
  ∑ n ∈ Finset.range bound, (pending n).elim 0 f

section PendingSum

variable {f g : Pending → ℕ} {pending : ℤ → Option Pending} {bound : ℕ}

theorem pendingSum_mono (h : ∀ e, f e ≤ g e) :
    pendingSum f pending bound ≤ pendingSum g pending bound := by
  refine Finset.sum_le_sum fun n _ => ?_
  cases pending n with
  | none => exact le_rfl
  | some e => exact h e

theorem pendingSum_update (f : Pending → ℕ) (pending : ℤ → Option Pending) {id : ℤ}
    (hpos : 1 ≤ id) (hlt : id < bound) (entry : Option Pending) :
    pendingSum f (Function.update pending id entry) bound + (pending id).elim 0 f =
      pendingSum f pending bound + entry.elim 0 f := by
  obtain ⟨k, rfl⟩ : ∃ k : ℕ, id = k := ⟨id.toNat, by omega⟩
  have hmem : k ∈ Finset.range bound := Finset.mem_range.mpr (by omega)
  have hrest : ∑ n ∈ (Finset.range bound).erase k,
        (Function.update pending (k : ℤ) entry n).elim 0 f =
      ∑ n ∈ (Finset.range bound).erase k, (pending n).elim 0 f := by
    refine Finset.sum_congr rfl fun n hn => ?_
    have hne : (n : ℤ) ≠ k := by
      have := (Finset.mem_erase.mp hn).1
      omega
    rw [Function.update_of_ne hne]
  unfold pendingSum
  rw [← Finset.add_sum_erase _ _ hmem, ← Finset.add_sum_erase _ _ hmem, hrest,
    Function.update_self]
  omega

theorem pendingSum_book (f : Pending → ℕ) (pending : ℤ → Option Pending) (bound : ℕ)
    (entry : Pending) :
    pendingSum f (Function.update pending bound (some entry)) (bound + 1) =
      pendingSum f pending bound + f entry := by
  unfold pendingSum
  rw [Finset.sum_range_succ, Function.update_self]
  congr 1
  refine Finset.sum_congr rfl fun n hn => ?_
  have hne : (n : ℤ) ≠ bound := by
    have := Finset.mem_range.mp hn
    omega
  rw [Function.update_of_ne hne]

end PendingSum

/-! ## The names a query can visit -/

/-- The names of a create. -/
def Msg.created : Msg → List Str
  | .node m => m.nameA :: m.relations
  | _ => []

/-- The names of the creates that have been accepted or are on their way to the server. -/
def World.names (cfg : Config) (w : World) : Finset Str :=
  (w.accepted.flatMap fun p => p.2.msg.created).toFinset ∪
    ((w.transit.filter fun a => a.dst = cfg.address).bind
      fun a => (a.msg.created : Multiset Str)).toFinset

section Names

variable {cfg : Config} {w w' : World} {a : Envelope} {rest : Multiset Envelope} {x : Str}

theorem mem_created {m : Msg} :
    x ∈ m.created ↔ ∃ n, m = .node n ∧ (n.nameA = x ∨ x ∈ n.relations) := by
  cases m with
  | node n =>
    simp only [Msg.created, List.mem_cons, Msg.node.injEq, exists_eq_left']
    rw [eq_comm]
  | _ => simp [Msg.created]

theorem World.mem_names : x ∈ w.names cfg ↔
    Mentioned w.accepted x ∨ ∃ a ∈ w.transit, a.dst = cfg.address ∧ x ∈ a.msg.created := by
  simp only [World.names, Finset.mem_union, List.mem_toFinset, Multiset.mem_toFinset,
    List.mem_flatMap, Multiset.mem_bind, Multiset.mem_filter, Multiset.mem_coe, Mentioned,
    mem_created, and_assoc]

/-- What a turn sends. To the server and to clients it names no nodes to create, and a repository
sends nothing to a client. -/
structure Posts (cfg : Config) (w : World) (a : Envelope) (rest : Multiset Envelope) (w' : World)
    (es : List Envelope) : Prop where
  transit : w'.transit = rest + es
  sent : w'.sent = w.sent ++ es
  src : ∀ b ∈ es, b.src = a.dst
  created : ∀ b ∈ es, b.dst ∈ cfg.repos ∨ b.msg.created = []
  repo : a.dst ∈ cfg.repos → ∀ b ∈ es, b.dst ∈ cfg.repos ∨ b.dst = cfg.address

theorem Turn.posts (hturn : Turn cfg { w with transit := rest } a w') (hne : cfg.repos ≠ []) :
    ∃ es, Posts cfg w a rest w' es := by
  -- the server sends one message
  have hone : ∀ {b : Envelope}, a.dst = cfg.address → b.src = a.dst →
      (b.dst ∈ cfg.repos ∨ b.msg.created = []) → w'.transit = rest + ([b] : List Envelope) →
      w'.sent = w.sent ++ [b] → ∃ es, Posts cfg w a rest w' es := by
    intro b hdst hsrc hb ht hs
    refine ⟨[b], ht, hs, ?_, ?_, fun hrepo => absurd (hdst ▸ hrepo) cfg.apart⟩
    · simpa using hsrc
    · simpa using hb
  -- a repository sends secondary messages to repositories, and replies
  have hrepo : ∀ {secondary : List Send} (reply : List Send),
      World.Inv.Secondaries cfg (World.stamp a.dst a.req secondary) →
      (∀ s ∈ reply, s.host = cfg.address ∧ s.msg.created = []) →
      w'.transit = rest + World.stamp a.dst a.req (secondary ++ reply) →
      w'.sent = w.sent ++ World.stamp a.dst a.req (secondary ++ reply) →
      ∃ es, Posts cfg w a rest w' es := by
    intro secondary reply hsecondary hreply ht hs
    have hmem : ∀ b ∈ World.stamp a.dst a.req (secondary ++ reply),
        b.dst ∈ cfg.repos ∨ b.dst = cfg.address ∧ b.msg.created = [] := by
      intro b hb
      rw [World.stamp, List.map_append] at hb
      rcases List.mem_append.mp hb with hb | hb
      · exact Or.inl (hsecondary b hb).2.1
      · obtain ⟨s, hs, rfl⟩ := List.mem_map.mp hb
        exact Or.inr (hreply s hs)
    refine ⟨_, ht, hs, ?_, fun b hb => (hmem b hb).imp_right And.right,
      fun _ b hb => (hmem b hb).imp_right And.left⟩
    intro b hb
    obtain ⟨s, -, rfl⟩ := List.mem_map.mp hb
    rfl
  have hreply : ∀ {id : ℤ} {m : ResponseMsg},
      ∀ s ∈ (if id = 0 then [] else [⟨cfg.address, .response m⟩] : List Send),
        s.host = cfg.address ∧ s.msg.created = [] := by
    intro id m s hs
    split_ifs at hs
    · exact absurd hs List.not_mem_nil
    · rw [List.mem_singleton.mp hs]
      exact ⟨rfl, rfl⟩
  have hnil : World.Inv.Secondaries cfg (World.stamp a.dst a.req []) := fun b hb =>
    absurd hb List.not_mem_nil
  cases hturn with
  | busy hdst => exact hone hdst hdst.symm (Or.inr rfl) rfl rfl
  | accept hdst => exact hone hdst hdst.symm (Or.inl (owner_mem cfg.self hne _)) rfl rfl
  | response hdst => exact hone hdst hdst.symm (Or.inr rfl) rfl rfl
  | complete hdst => exact hone hdst hdst.symm (Or.inr rfl) rfl rfl
  | next hdst => exact hone hdst hdst.symm (Or.inl (owner_mem cfg.self hne _)) rfl rfl
  | stored hdst _ hhosts _ => exact hrepo _ (secondaries_reverses hne hdst hhosts) hreply rfl rfl
  | @asked m =>
    exact hrepo [⟨cfg.address, .info (queryReply (w.repo a.dst).storage m)⟩] hnil
      (by simp [Msg.created]) rfl rfl
  | @updated m =>
    exact hrepo [⟨cfg.address, .response ⟨updatedText, m.request_id⟩⟩] hnil
      (by simp [Msg.created]) rfl rfl
  | deleted hdst _ hhosts _ =>
    exact hrepo _ (secondaries_reversesDelete hne hdst hhosts) hreply rfl rfl
  | taken => exact ⟨[], by simp, by simp, by simp, by simp, by simp⟩

theorem Turn.accepted_cases (hturn : Turn cfg { w with transit := rest } a w') :
    w'.accepted = w.accepted ∨
      a.dst = cfg.address ∧ ∃ k, w'.accepted = w.accepted ++ [(k, a)] := by
  cases hturn with
  | accept hdst => exact Or.inr ⟨hdst, _, rfl⟩
  | _ => exact Or.inl rfl

theorem Turn.names_subset (hturn : Turn cfg { w with transit := rest } a w')
    (hne : cfg.repos ≠ []) (htransit : w.transit = a ::ₘ rest) :
    w'.names cfg ⊆ w.names cfg := by
  obtain ⟨es, hposts⟩ := hturn.posts hne
  intro x hx
  rw [World.mem_names, hposts.transit] at hx
  rw [World.mem_names, htransit]
  rcases hx with hx | ⟨b, hb, hdst, hx⟩
  · rcases hturn.accepted_cases with heq | ⟨hdst, k, heq⟩
    · exact Or.inl (heq ▸ hx)
    · rw [heq] at hx
      obtain ⟨p, hp, hx⟩ := hx
      rcases List.mem_append.mp hp with hp | hp
      · exact Or.inl ⟨p, hp, hx⟩
      · rw [List.mem_singleton.mp hp] at hx
        exact Or.inr ⟨a, Multiset.mem_cons_self a rest, hdst, mem_created.mpr hx⟩
  · rcases Multiset.mem_add.mp hb with hb | hb
    · exact Or.inr ⟨b, Multiset.mem_cons_of_mem hb, hdst, hx⟩
    · rcases hposts.created b hb with hrepo | hnil
      · exact absurd (hdst ▸ hrepo) cfg.apart
      · rw [hnil] at hx
        exact absurd hx List.not_mem_nil

end Names

/-! ## The work that is left -/

/-- The deliveries that a message causes, its own included, when queries visit names of a set of
`size` names and their roots. An `R` or `I` counts on top of what is left for its query. -/
def Envelope.cost (cfg : Config) (size : ℕ) (a : Envelope) : ℕ :=
  if a.dst = cfg.address then
    match a.msg with
    | .node m => m.relations.length + 4
    | .query _ => 2 * size + 4
    | .update _ => 4
    | .delete m => if m.object = 2 then 5 else 4
    | .response _ => 2
    | _ => 0
  else if a.dst ∈ cfg.repos then
    match a.msg with
    | .node m => (if m.master_repos = [] then 1 else m.relations.length + 1) +
        if m.request_id = 0 then 0 else 2
    | .update _ => 3
    | .delete m => (if m.object = 2 ∧ m.master_repos ≠ [] then 2 else 1) +
        if m.request_id = 0 then 0 else 2
    | _ => 1
  else 1

/-- The deliveries that a pending query still causes: an `R` and an `I` for each name it has to ask
for, which are among `names` unless they are queued already. -/
def Pending.left (names : Finset Str) (entry : Pending) : ℕ :=
  match entry.state with
  | none => 0
  | some st => 2 * ((names \ st.visited).card + st.node_queue.length)

/-- A bound on the deliveries that are left, when queries visit `names` and their roots. -/
def World.workFor (cfg : Config) (names : Finset Str) (w : World) : ℕ :=
  (w.transit.map (Envelope.cost cfg names.card)).sum +
    pendingSum (Pending.left names) w.server.pending w.server.current_request

/-- A bound on the deliveries that are left. -/
def World.work (cfg : Config) (w : World) : ℕ := w.workFor cfg (w.names cfg)

section Work

variable {cfg : Config} {w w' : World} {a : Envelope} {rest : Multiset Envelope}
  {names names' : Finset Str} {size : ℕ}

theorem cost_client (h : cfg.IsClient a.dst) : a.cost cfg size = 1 := by
  rw [Envelope.cost, if_neg h.1, if_neg h.2]

theorem cost_mono {size' : ℕ} (h : size ≤ size') : a.cost cfg size ≤ a.cost cfg size' := by
  unfold Envelope.cost
  split_ifs with hserver
  · cases a.msg with
    | query => exact Nat.add_le_add_right (Nat.mul_le_mul_left 2 h) 4
    | _ => exact le_rfl
  · exact le_rfl
  · exact le_rfl

theorem left_mono (h : names ⊆ names') (entry : Pending) :
    entry.left names ≤ entry.left names' := by
  unfold Pending.left
  cases entry.state with
  | none => exact le_rfl
  | some st =>
    have hcard := Finset.card_le_card (Finset.sdiff_subset_sdiff h (Finset.Subset.refl st.visited))
    simp only
    omega

theorem workFor_mono (h : names ⊆ names') : w.workFor cfg names ≤ w.workFor cfg names' := by
  refine Nat.add_le_add ?_ (pendingSum_mono (left_mono h))
  exact Multiset.sum_map_le_sum_map _ _ fun a _ => cost_mono (Finset.card_le_card h)

/-- A request is forwarded with one delivery less left. -/
theorem cost_forwarded (names : Finset Str) (hne : cfg.repos ≠ []) (hdst : a.dst = cfg.address)
    (hmsg : a.msg.IsRequest)
    {k : ℕ} (hk : 1 ≤ k) (client : Host) :
    (⟨cfg.address, owner cfg.hosts a.msg.name, a.msg.forwarded cfg.hosts k, k⟩ : Envelope).cost cfg
        names.card + (⟨client, a.msg.state⟩ : Pending).left names < a.cost cfg names.card := by
  have hrepo := owner_mem cfg.self hne a.msg.name
  have hserver : owner cfg.hosts a.msg.name ≠ cfg.address := fun heq => cfg.apart (heq ▸ hrepo)
  have hid : (k : ℤ) ≠ 0 := by omega
  have hhosts : cfg.hosts ≠ [] := List.cons_ne_nil _ _
  unfold Envelope.cost
  simp only [if_neg hserver, if_pos hdst]
  rw [if_pos (show owner cfg.hosts a.msg.name ∈ cfg.repos from hrepo)]
  cases hkind : a.msg with
  | node m =>
    simp only [Msg.forwarded, Msg.state, Pending.left, if_neg hid, if_neg hhosts]
    omega
  | query m =>
    have hcard := Finset.card_le_card (Finset.sdiff_subset (s := names) (t := {m.nameA}))
    simp only [Msg.forwarded, Msg.state, Pending.left, QueryState.start, List.length_singleton]
    omega
  | update m => simp [Msg.forwarded, Msg.state, Pending.left]
  | delete m =>
    simp only [Msg.forwarded, Msg.state, Pending.left, if_neg hid]
    by_cases hobject : m.object = 2
    · simp [hobject, hhosts]
    · simp [hobject]
  | _ => rw [hkind] at hmsg; exact hmsg.elim

theorem workFor_of_transit {es : List Envelope} (ht : w.transit = rest + es) :
    w.workFor cfg names = (rest.map (Envelope.cost cfg names.card)).sum +
      (es.map (Envelope.cost cfg names.card)).sum +
      pendingSum (Pending.left names) w.server.pending w.server.current_request := by
  rw [World.workFor, ht, Multiset.map_add, Multiset.sum_add, Multiset.map_coe, Multiset.sum_coe]

theorem workFor_of_cons (ht : w.transit = a ::ₘ rest) :
    w.workFor cfg names = a.cost cfg names.card + (rest.map (Envelope.cost cfg names.card)).sum +
      pendingSum (Pending.left names) w.server.pending w.server.current_request := by
  rw [World.workFor, ht, Multiset.map_cons, Multiset.sum_cons]

/-- A reply for a query takes the name at the front off what is left. -/
theorem left_advance {st : QueryState} {i : InfoMsg} {top : Str × ℕ} {queue : List (Str × ℕ)}
    (hqueue : st.node_queue = top :: queue) (hnames : ∀ y ∈ i.relations, y ∈ names)
    (client : Host) :
    (⟨client, some (st.advance top queue i)⟩ : Pending).left names + 2 =
      (⟨client, some st⟩ : Pending).left names := by
  have hcard : (names \ (expand top.2 i.relations queue st.visited).2).card +
      (expand top.2 i.relations queue st.visited).1.length =
      (names \ st.visited).card + queue.length := card_expand hnames
  simp only [Pending.left, QueryState.advance, hqueue, List.length_cons]
  omega

theorem cost_reverses (hne : cfg.repos ≠ []) {m : NodeMsg}
    (hhosts : m.master_repos = [] ∨ m.master_repos = cfg.hosts) (src : Host) (req : ℕ) :
    ((World.stamp src req (reverses m)).map (Envelope.cost cfg size)).sum =
      if m.master_repos = [] then 0 else m.relations.length := by
  unfold reverses World.stamp
  split_ifs with hnil
  · rfl
  · rw [hhosts.resolve_left hnil]
    induction m.relations with
    | nil => rfl
    | cons rel relations ih =>
      have hrepo := owner_mem cfg.self hne rel
      have hserver : owner cfg.hosts rel ≠ cfg.address := fun heq => cfg.apart (heq ▸ hrepo)
      simp only [List.map_cons, List.sum_cons, ih, List.length_cons]
      rw [Envelope.cost, if_neg hserver, if_pos (show owner cfg.hosts rel ∈ cfg.repos from hrepo)]
      simp only [if_true]
      omega

theorem cost_reversesDelete (hne : cfg.repos ≠ []) {m : DeleteMsg}
    (hhosts : m.master_repos = [] ∨ m.master_repos = cfg.hosts) (src : Host) (req : ℕ) :
    ((World.stamp src req (reversesDelete m)).map (Envelope.cost cfg size)).sum =
      if m.object = 2 ∧ m.master_repos ≠ [] then 1 else 0 := by
  unfold reversesDelete World.stamp
  split_ifs with hcond
  · have hrepo := owner_mem cfg.self hne m.attr_or_rel
    have hserver : owner cfg.hosts m.attr_or_rel ≠ cfg.address := fun heq =>
      cfg.apart (heq ▸ hrepo)
    rw [hhosts.resolve_left hcond.2]
    simp only [List.map_cons, List.map_nil, List.sum_cons, List.sum_nil]
    rw [Envelope.cost, if_neg hserver,
      if_pos (show owner cfg.hosts m.attr_or_rel ∈ cfg.repos from hrepo)]
    simp
  · rfl

theorem stamp_append (src : Host) (req : ℕ) (out out' : List Send) :
    World.stamp src req (out ++ out') = World.stamp src req out ++ World.stamp src req out' :=
  List.map_append

theorem cost_replyTo (src : Host) (req : ℕ) (m : ResponseMsg) (id : ℤ) :
    ((World.stamp src req (if id = 0 then [] else [⟨cfg.address, .response m⟩])).map
      (Envelope.cost cfg size)).sum = if id = 0 then 0 else 2 := by
  split_ifs
  · rfl
  · simp [World.stamp, Envelope.cost]

theorem one_le_cost (size : ℕ) (hdst : a.dst ∈ cfg.repos) : 1 ≤ a.cost cfg size := by
  have hserver : a.dst ≠ cfg.address := fun heq => cfg.apart (heq ▸ hdst)
  unfold Envelope.cost
  rw [if_neg hserver, if_pos hdst]
  cases a.msg with
  | node m => simp only; split_ifs <;> omega
  | update m => simp
  | delete m => simp only; split_ifs <;> omega
  | _ => exact le_rfl

/-- **Every turn lowers the work that is left.** -/
theorem Turn.workFor_lt (hturn : Turn cfg { w with transit := rest } a w') (hinv : w.Inv cfg)
    (hne : cfg.repos ≠ []) (htransit : w.transit = a ::ₘ rest)
    (hnames : a.dst = cfg.address → ∀ i, a.msg = .info i → ∀ y ∈ i.relations, y ∈ names) :
    w'.workFor cfg names < w.workFor cfg names := by
  have hserver : a.dst ∈ cfg.repos → a.dst ≠ cfg.address := fun hdst heq => cfg.apart (heq ▸ hdst)
  rw [workFor_of_cons htransit]
  cases hturn with
  | busy hdst hsrc hmsg hwrite hbusy =>
    have hcost := cost_forwarded names hne hdst hmsg (k := 1) le_rfl a.src
    have hone : 1 ≤ (⟨cfg.address, owner cfg.hosts a.msg.name, a.msg.forwarded cfg.hosts 1, 1⟩ :
        Envelope).cost cfg names.card := one_le_cost _ (owner_mem cfg.self hne _)
    rw [workFor_of_transit rfl, List.map_singleton, List.sum_singleton, cost_client hsrc]
    simp only [World.post_server]
    omega
  | accept hdst hsrc hmsg hfree =>
    have hcost := cost_forwarded names hne hdst hmsg hinv.ledger.pos a.src
    have hbook := pendingSum_book (Pending.left names) w.server.pending
      w.server.current_request ⟨a.src, a.msg.state⟩
    rw [workFor_of_transit rfl, List.map_singleton, List.sum_singleton]
    simp only [World.post_server, Process.book, Process.file]
    rw [hbook]
    omega
  | @response m client hdst hsrc hmsg hpending =>
    have hpending : w.server.pending m.request_id = some ⟨client, none⟩ := hpending
    have hrange := hinv.ledger.id_range hpending
    have hupdate := pendingSum_update (Pending.left names) w.server.pending
      hrange.1 hrange.2 none
    have hcost : a.cost cfg names.card = 2 := by rw [Envelope.cost, if_pos hdst, hmsg]
    rw [hpending] at hupdate
    rw [workFor_of_transit rfl, List.map_singleton, List.sum_singleton, hcost,
      cost_client (hinv.client_of_pending hpending)]
    simp only [World.post_server, Process.close]
    have hwrite : (⟨client, none⟩ : Pending).left names = 0 := rfl
    simp only [Option.elim_some, Option.elim_none] at hupdate
    omega
  | @complete i client st t queue hdst hsrc hmsg hpending hqueue hempty =>
    have hpending : w.server.pending i.request_id = some ⟨client, some st⟩ := hpending
    have hrange := hinv.ledger.id_range hpending
    have hupdate := pendingSum_update (Pending.left names) w.server.pending
      hrange.1 hrange.2 none
    have hleft := left_advance (i := i.wire) hqueue (hnames hdst i hmsg) client
    rw [hpending] at hupdate
    rw [workFor_of_transit rfl, List.map_singleton, List.sum_singleton,
      cost_client (hinv.client_of_pending hpending)]
    simp only [World.post_server, Process.close]
    simp only [Option.elim_some, Option.elim_none] at hupdate
    omega
  | @next i client st t s queue queue' v hdst hsrc hmsg hpending hqueue hnext hv =>
    have hpending : w.server.pending i.request_id = some ⟨client, some st⟩ := hpending
    have hrange := hinv.ledger.id_range hpending
    have hupdate := pendingSum_update (Pending.left names) w.server.pending
      hrange.1 hrange.2 (some ⟨client, some (st.advance (i.nameA, t) queue i.wire)⟩)
    have hleft := left_advance (i := i.wire) hqueue (hnames hdst i hmsg) client
    have hrepo := owner_mem cfg.self hne v
    have hcost : (⟨cfg.address, owner cfg.hosts v, .query ⟨v, toInt s, st.leaf, st.attr,
        st.conditions, i.request_id⟩, a.req⟩ : Envelope).cost cfg names.card = 1 := by
      unfold Envelope.cost
      rw [if_neg (show owner cfg.hosts v ≠ cfg.address from fun heq => cfg.apart (heq ▸ hrepo)),
        if_pos (show owner cfg.hosts v ∈ cfg.repos from hrepo)]
    rw [hpending] at hupdate
    rw [workFor_of_transit rfl, List.map_singleton, List.sum_singleton, hcost]
    simp only [World.post_server, Process.file]
    simp only [Option.elim_some] at hupdate
    omega
  | @stored m hdst hmsg hhosts hrels =>
    have hcost : a.cost cfg names.card = (if m.master_repos = [] then 1
        else m.relations.length + 1) + if m.request_id = 0 then 0 else 2 := by
      rw [Envelope.cost, if_neg (hserver hdst), if_pos hdst, hmsg]
    rw [workFor_of_transit rfl, stamp_append, List.map_append, List.sum_append,
      cost_reverses hne hhosts, cost_replyTo, hcost]
    simp only [World.post_server]
    split_ifs <;> omega
  | @asked m hdst hmsg =>
    have hcost : a.cost cfg names.card = 1 := by
      rw [Envelope.cost, if_neg (hserver hdst), if_pos hdst, hmsg]
    rw [workFor_of_transit rfl, hcost]
    simp only [World.post_server, List.map_singleton, List.sum_singleton, Envelope.cost, if_true]
    omega
  | @updated m hdst hmsg =>
    have hcost : a.cost cfg names.card = 3 := by
      rw [Envelope.cost, if_neg (hserver hdst), if_pos hdst, hmsg]
    rw [workFor_of_transit rfl, hcost]
    simp only [World.post_server, List.map_singleton, List.sum_singleton, Envelope.cost, if_true]
    omega
  | @deleted m hdst hmsg hhosts hrel =>
    have hcost : a.cost cfg names.card = (if m.object = 2 ∧ m.master_repos ≠ [] then 2 else 1) +
        if m.request_id = 0 then 0 else 2 := by
      rw [Envelope.cost, if_neg (hserver hdst), if_pos hdst, hmsg]
    rw [workFor_of_transit rfl, stamp_append, List.map_append, List.sum_append,
      cost_reversesDelete hne hhosts, cost_replyTo, hcost]
    simp only [World.post_server]
    split_ifs <;> omega
  | taken hdst =>
    rw [cost_client hdst]
    show (rest.map (Envelope.cost cfg names.card)).sum +
      pendingSum (Pending.left names) w.server.pending w.server.current_request < _
    omega

end Work

/-! ## Requests and replies -/

/-- The requests of `client` that have not been replied to: on their way to the server, or filed. -/
def World.waiting (w : World) (client : Host) : ℕ :=
  w.transit.countP (fun a => a.src = client) +
    pendingSum (fun entry => if entry.client_sock = client then 1 else 0) w.server.pending
      w.server.current_request

/-- What holds of the requests and their replies. -/
structure World.Accounted (cfg : Config) (w : World) : Prop where
  flag : w.server.cud_blocking = true → ∃ id, QueryPending w.server id
  /-- What a client has sent has been replied to or waits for its reply. -/
  replies : ∀ client, cfg.IsClient client → w.sent.countP (fun a => a.src = client) =
    w.sent.countP (fun a => a.dst = client) + w.waiting client

section Accounts

variable {cfg : Config} {w w' : World} {a : Envelope} {rest : Multiset Envelope}

theorem World.Accounted.start (cfg : Config) : (World.start cfg).Accounted cfg where
  flag := nofun
  replies := fun _ _ => by
    simp [World.start, World.waiting, pendingSum, Process.newServer]

theorem World.Accounted.request (h : w.Accounted cfg) (client : Host) (msg : Msg) :
    (w.post [⟨client, cfg.address, msg, 0⟩]).Accounted cfg where
  flag := h.flag
  replies := by
    intro c hc
    have hold := h.replies c hc
    have hdst : cfg.address ≠ c := fun heq => hc.1 heq.symm
    unfold World.waiting at hold ⊢
    rw [World.post_sent, World.post_transit, World.post_server, List.countP_append,
      List.countP_append, Multiset.countP_add, Multiset.coe_countP]
    simp only [List.countP_singleton, decide_eq_true_eq, if_neg hdst]
    omega

/-- Only a query that ends clears the flag, and only an accepted one sets it. -/
theorem Turn.flag (hturn : Turn cfg { w with transit := rest } a w') (hinv : w.Inv cfg)
    (h : w.server.cud_blocking = true → ∃ id, QueryPending w.server id) :
    w'.server.cud_blocking = true → ∃ id, QueryPending w'.server id := by
  cases hturn with
  | accept hdst hsrc hmsg hfree =>
    intro hflag
    cases hkind : a.msg with
    | query m =>
      refine ⟨w.server.current_request, a.src, QueryState.start m, ?_⟩
      simp [Process.book, Process.file, Msg.state]
    | _ =>
      simp only [World.post_server, Process.book, hkind, Msg.isQuery, Bool.or_false] at hflag
      obtain ⟨id, client, st, hpending⟩ := h hflag
      have hne : id ≠ w.server.current_request := by
        rintro rfl
        rw [hinv.ledger.future_none le_rfl] at hpending
        cases hpending
      refine ⟨id, client, st, ?_⟩
      simp [Process.book, Process.file, Function.update_of_ne hne, hpending]
  | @response m client hdst hsrc hmsg hpending =>
    intro hflag
    obtain ⟨id, hquery⟩ := h hflag
    refine ⟨id, queryPending_close.mpr ⟨?_, hquery⟩⟩
    rintro rfl
    obtain ⟨client', st, hst⟩ := hquery
    have hpending : w.server.pending m.request_id = some ⟨client, none⟩ := hpending
    rw [hpending] at hst
    cases hst
  | complete =>
    intro hflag
    exact absurd hflag Bool.false_ne_true
  | @next i client st t s queue queue' v hdst hsrc hmsg hpending hqueue hnext hv =>
    exact fun _ => ⟨i.request_id, client, _, Function.update_self _ _ _⟩
  | _ => exact h

theorem Placed.request_of_client (h : Placed cfg a) (hsrc : cfg.IsClient a.src) :
    a.dst = cfg.address ∧ a.msg.IsRequest := by
  cases h with
  | request hdst _ hmsg _ => exact ⟨hdst, hmsg⟩
  | answer haddr _ _ => exact absurd haddr hsrc.1
  | secondary hrepo _ _ => exact absurd hrepo hsrc.2
  | forwarded haddr _ _ _ _ => exact absurd haddr hsrc.1
  | reply hrepo _ _ _ _ => exact absurd hrepo hsrc.2

/-- **Every turn keeps the account**: the client of a request that is refused or answered gets one
message, and the client of one that is accepted is filed. -/
theorem Turn.replies (hturn : Turn cfg { w with transit := rest } a w') (hinv : w.Inv cfg)
    (hne : cfg.repos ≠ []) (htransit : w.transit = a ::ₘ rest) {c : Host} (hc : cfg.IsClient c)
    (h : w.sent.countP (fun b => b.src = c) =
      w.sent.countP (fun b => b.dst = c) + w.waiting c) :
    w'.sent.countP (fun b => b.src = c) =
      w'.sent.countP (fun b => b.dst = c) + w'.waiting c := by
  set filed : Pending → ℕ := fun entry => if entry.client_sock = c then 1 else 0 with hfiled
  have hplaced := hinv.placed a (by simp [htransit])
  -- what is to be shown of each turn: it replies to a request, files it, or changes nothing
  have hkeep : ∀ es : List Envelope, w'.transit = rest + es → w'.sent = w.sent ++ es →
      (∀ b ∈ es, b.src ≠ c) →
      es.countP (fun b => b.dst = c) +
          pendingSum filed w'.server.pending w'.server.current_request =
        pendingSum filed w.server.pending w.server.current_request +
          (if a.src = c then 1 else 0) →
      w'.sent.countP (fun b => b.src = c) =
        w'.sent.countP (fun b => b.dst = c) + w'.waiting c := by
    intro es ht hsent hsrc hcount
    have hnone : es.countP (fun b => b.src = c) = 0 := by
      rw [List.countP_eq_zero]
      simpa using hsrc
    unfold World.waiting at h ⊢
    rw [htransit, Multiset.countP_cons] at h
    rw [ht, hsent, List.countP_append, List.countP_append, Multiset.countP_add,
      Multiset.coe_countP, hnone]
    simp only [← hfiled] at h ⊢
    omega
  obtain ⟨es, hposts⟩ := hturn.posts hne
  -- a repository neither handles the request of a client nor replies to a client
  have hrepo : a.dst ∈ cfg.repos → w'.server = w.server →
      w'.sent.countP (fun b => b.src = c) =
        w'.sent.countP (fun b => b.dst = c) + w'.waiting c := by
    intro hdst hserver
    refine hkeep es hposts.transit hposts.sent ?_ ?_
    · rintro b hb rfl
      exact hc.2 (hposts.src b hb ▸ hdst)
    · have hzero : es.countP (fun b => b.dst = c) = 0 := by
        rw [List.countP_eq_zero]
        intro b hb
        rw [decide_eq_true_eq]
        rintro rfl
        exact (hposts.repo hdst b hb).elim hc.2 hc.1
      have hsrc : a.src ≠ c := by
        rintro rfl
        exact cfg.apart ((hplaced.request_of_client hc).1 ▸ hdst)
      rw [hzero, hserver, if_neg hsrc, Nat.zero_add, Nat.add_zero]
  have hserver : cfg.address ≠ c := fun heq => hc.1 heq.symm
  have howner : ∀ name, owner cfg.hosts name ≠ c := by
    rintro name rfl
    exact hc.2 (owner_mem cfg.self hne name)
  have hreply : a.src ∈ cfg.repos → a.src ≠ c := by
    rintro hsrc rfl
    exact hc.2 hsrc
  cases hturn with
  | busy hdst hsrc hmsg hwrite hbusy =>
    refine hkeep _ rfl rfl (by simpa using hserver) ?_
    simp only [World.post_server, List.countP_singleton, decide_eq_true_eq]
    omega
  | accept hdst hsrc hmsg hfree =>
    refine hkeep _ rfl rfl (by simpa using hserver) ?_
    simp only [World.post_server, List.countP_singleton, decide_eq_true_eq, if_neg (howner _),
      Process.book, Process.file]
    rw [pendingSum_book]
    simp only [hfiled]
    omega
  | @response m client hdst hsrc hmsg hpending =>
    have hpending : w.server.pending m.request_id = some ⟨client, none⟩ := hpending
    have hrange := hinv.ledger.id_range hpending
    have hupdate := pendingSum_update filed w.server.pending hrange.1 hrange.2 none
    refine hkeep _ rfl rfl (by simpa using hserver) ?_
    rw [hpending] at hupdate
    simp only [Option.elim_some, Option.elim_none, hfiled] at hupdate
    simp only [World.post_server, List.countP_singleton, decide_eq_true_eq, if_neg (hreply hsrc),
      Process.close, hfiled]
    omega
  | @complete i client st t queue hdst hsrc hmsg hpending hqueue hempty =>
    have hpending : w.server.pending i.request_id = some ⟨client, some st⟩ := hpending
    have hrange := hinv.ledger.id_range hpending
    have hupdate := pendingSum_update filed w.server.pending hrange.1 hrange.2 none
    refine hkeep _ rfl rfl (by simpa using hserver) ?_
    rw [hpending] at hupdate
    simp only [Option.elim_some, Option.elim_none, hfiled] at hupdate
    simp only [World.post_server, List.countP_singleton, decide_eq_true_eq, if_neg (hreply hsrc),
      Process.close, hfiled]
    omega
  | @next i client st t s queue queue' v hdst hsrc hmsg hpending hqueue hnext hv =>
    have hpending : w.server.pending i.request_id = some ⟨client, some st⟩ := hpending
    have hrange := hinv.ledger.id_range hpending
    have hupdate := pendingSum_update filed w.server.pending hrange.1 hrange.2
      (some ⟨client, some (st.advance (i.nameA, t) queue i.wire)⟩)
    refine hkeep _ rfl rfl (by simpa using hserver) ?_
    rw [hpending] at hupdate
    simp only [Option.elim_some, hfiled] at hupdate
    simp only [World.post_server, List.countP_singleton, decide_eq_true_eq, if_neg (hreply hsrc),
      if_neg (howner _), Process.file, hfiled]
    omega
  | stored hdst => exact hrepo hdst rfl
  | asked hdst => exact hrepo hdst rfl
  | updated hdst => exact hrepo hdst rfl
  | deleted hdst => exact hrepo hdst rfl
  | taken hdst =>
    refine hkeep [] (by simp) (by simp) (by simp) ?_
    have hsrc : a.src ≠ c := by
      rintro rfl
      exact hdst.1 (hplaced.request_of_client hc).1
    rw [if_neg hsrc]
    simp

end Accounts

/-! ## Deliveries settle -/

/-- A delivery. -/
def Event.IsDelivery : Event → Prop
  | .request _ _ => False
  | .deliver _ _ => True

/-- Every request, accepted or refused, has its reply, and the server is ready for any other. -/
structure World.Served (cfg : Config) (w : World) : Prop where
  pending : ∀ id, w.server.pending id = none
  free : w.server.cud_blocking = false
  answered : ∀ p ∈ w.accepted, ∃ b, answers cfg p.1 w.sent = [b] ∧ b.dst = p.2.src
  replied : ∀ client, cfg.IsClient client →
    w.sent.countP (fun a => a.src = client) = w.sent.countP (fun a => a.dst = client)

section Runs

variable {cfg : Config} {w w' : World}

theorem World.Inv.served (h : w.Inv cfg) (haccounted : w.Accounted cfg) (hzero : w.transit = 0) :
    w.Served cfg := by
  have hpending : ∀ id, w.server.pending id = none := by
    intro id
    by_contra hne
    obtain ⟨e, he⟩ := Option.ne_none_iff_exists'.mp hne
    obtain ⟨a, ha, -⟩ := h.ledger.awaits _ _ he
    simp [hzero] at ha
  refine ⟨hpending, ?_, fun p hp => h.ledger.answered p hp (hpending _), fun client hclient => ?_⟩
  · by_contra hflag
    obtain ⟨id, client, st, hst⟩ := haccounted.flag (by simpa using hflag)
    rw [hpending] at hst
    cases hst
  · have hreplies := haccounted.replies client hclient
    have hwaiting : w.waiting client = 0 := by
      simp [World.waiting, hzero, pendingSum, hpending]
    omega

theorem along_accounted (hne : cfg.repos ≠ []) {es : List Event} (hsteady : ∀ e ∈ es, e.Steady)
    (hadm : Along (World.step cfg) World.Admissible (World.start cfg) es) :
    Along (World.step cfg) (fun w => (w.Inv cfg ∧ w.Admissible) ∧
      Rows cfg w.repo w.accepted w.transit ∧
      Searched cfg w.server.pending w.accepted w.transit ∧ w.Accounted cfg)
      (World.start cfg) es := by
  refine along_turns hne ?_ ?_ (World.Inv.start cfg)
    ⟨Rows.start, Searched.start, World.Accounted.start cfg⟩ hsteady hadm
  · rintro w client msg ⟨hrows, hsearched, haccounted⟩ - hmsg
    exact ⟨hrows.request client msg, hsearched.request client hmsg, haccounted.request client msg⟩
  · rintro w a rest w' hinv hadm ⟨hrows, hsearched, haccounted⟩ htransit hturn
    exact ⟨hturn.rows hinv hne htransit hrows, hturn.searched htransit hrows hsearched,
      hturn.flag hinv haccounted.flag,
      fun c hc => hturn.replies hinv hne htransit hc (haccounted.replies c hc)⟩

theorem World.Inv.work_lt (h : w.Inv cfg) (hadm : w.Admissible) (hne : cfg.repos ≠ [])
    (hsearched : Searched cfg w.server.pending w.accepted w.transit) {a : Envelope}
    {throws : ℕ → Option Str} (hsteady : (Event.deliver a throws).Steady)
    (hstep : w.step cfg (.deliver a throws) = some w') : w'.work cfg < w.work cfg := by
  obtain ⟨rest, htransit, hturn⟩ := h.turn_of_step hne hadm hsteady hstep
  refine (workFor_mono (hturn.names_subset hne htransit)).trans_lt
    (hturn.workFor_lt h hne htransit fun hdst i hmsg y hy => ?_)
  have hmem : a ∈ w.transit := by simp [htransit]
  exact World.mem_names.mpr (Or.inl (hsearched.replied a hmem hdst i hmsg y hy))

/-- **Deliveries settle.** Once the clients of a steady run stop sending, at most `work` more
messages can be delivered, in any order. As long as some are in transit, each of them can be; and
when none is, every request has its reply and the server is free. -/
theorem deliveries_settle (hne : cfg.repos ≠ []) {es ds : List Event}
    (hsteady : ∀ e ∈ es ++ ds, e.Steady)
    (hadm : Along (World.step cfg) World.Admissible (World.start cfg) (es ++ ds))
    (hds : ∀ d ∈ ds, d.IsDelivery) (hrun : run (World.step cfg) (World.start cfg) es = some w)
    (hrun' : run (World.step cfg) w ds = some w') :
    ds.length + w'.work cfg ≤ w.work cfg ∧
      (∀ a ∈ w'.transit, ∃ w'', w'.step cfg (.deliver a noThrow) = some w'') ∧
      (w'.transit = 0 → w'.Served cfg) := by
  have halong := (along_accounted hne hsteady hadm).append hrun
  have hmeets : Meets (World.step cfg) (fun _ d => d.IsDelivery ∧ d.Steady) w ds :=
    meets_of_forall (fun d hd => ⟨hds d hd, hsteady d (List.mem_append_right _ hd)⟩) w
  obtain ⟨⟨hinv, hadm'⟩, -, -, haccounted⟩ := halong.last hrun'
  refine ⟨?_, (hinv.correlated hadm' hne).handled, hinv.served haccounted⟩
  refine length_add_le_of_step (I := fun _ => True) ?_ trivial halong hmeets hrun'
  rintro s d s' ⟨⟨hs, hsadm⟩, -, hsearched, -⟩ - ⟨hdelivery, hsteady⟩ - hstep
  cases d with
  | request client msg => exact hdelivery.elim
  | deliver a throws => exact ⟨trivial, hs.work_lt hsadm hne hsearched hsteady hstep⟩

end Runs

/-- The create of client 7 settles in five deliveries. -/
theorem deliveries_settle_create : ∃ w w',
    run (World.step oneRepository) (World.start oneRepository) (oneCreate.take 1) = some w ∧
    run (World.step oneRepository) w (oneCreate.drop 1) = some w' ∧
    w.work oneRepository = 5 ∧ (oneCreate.drop 1).length = 5 ∧ w'.Served oneRepository := by
  have hrun : ∃ w, run (World.step oneRepository) (World.start oneRepository) (oneCreate.take 1) =
      some w ∧ (run (World.step oneRepository) w (oneCreate.drop 1)).any
        (fun w' => decide (w'.transit = 0)) = true ∧ w.work oneRepository = 5 :=
    exists_of_check (by decide +kernel)
  obtain ⟨w, hw, hrest, hwork⟩ := hrun
  obtain ⟨w', hw', hzero⟩ : ∃ w', run (World.step oneRepository) w (oneCreate.drop 1) = some w' ∧
      w'.transit = 0 := exists_of_check hrest
  have hall : oneCreate.take 1 ++ oneCreate.drop 1 = oneCreate := List.take_append_drop 1 _
  have hsettle := deliveries_settle (show oneRepository.repos ≠ [] by decide)
    (by rw [hall]; simp [oneCreate, Event.Steady]) (by rw [hall]; decide +kernel)
    (by simp [oneCreate, Event.IsDelivery]) hw hw'
  exact ⟨w, w', hw, hw', hwork, rfl, hsettle.2.2 hzero⟩

end DGDB
