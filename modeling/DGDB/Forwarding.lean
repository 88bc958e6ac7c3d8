import Mathlib
import DGDB.Joining

/-!
# What one request sets off

For a `C` or a `D` the server sends one message to a repository, and that repository passes on one
more for each relation, to hosts of the list that came with the message. Such a secondary message
carries no list, so the repository that gets it passes on nothing. This ends as long as no secondary
message goes to the server, which would take it for a new request.
-/

namespace DGDB

open EventSystem

/-- The `C`s and `D`s that the server has sent for the request `k`. -/
def World.firsts (cfg : Config) (w : World) (k : ℕ) : List Envelope :=
  w.sent.filter fun b => b.msg.spreads && b.req == k && b.src == cfg.address

/-- The `C`s and `D`s that others have sent for the request `k`. -/
def World.seconds (cfg : Config) (w : World) (k : ℕ) : List Envelope :=
  w.sent.filter fun b => b.msg.spreads && b.req == k && b.src != cfg.address

/-- What a repository passes on for the server's message `m`: one `C` at most for each relation of a
node, exactly one `D` for a relation. -/
def Msg.Passes (m : Msg) (msgs : List Msg) : Prop :=
  match m with
  | .node n => msgs.Sublist (n.relations.map fun rel => .node ⟨rel, [], [n.nameA], 0, []⟩)
  | .delete n => n.object = 2 → msgs = [.delete ⟨n.attr_or_rel, 2, n.nameA, 0, []⟩]
  | _ => True

/-- `bs` is what the repository that got the server's message `c` has passed on for it. -/
def Spread (c : Envelope) (bs : List Envelope) : Prop :=
  (∀ b ∈ bs, b.src = c.dst) ∧ c.msg.Passes (bs.map Envelope.msg)

/-- Every accepted `C` and `D` sets off one message of the server and what `Spread` allows. -/
structure World.Forwarding (cfg : Config) (w : World) : Prop where
  /-- No `C` or `D` of a repository is taken for a request. -/
  clients : ∀ p ∈ w.accepted, p.2.msg.spreads = true → cfg.IsClient p.2.src
  /-- One message goes from the server to a repository; once it has been handled, its secondary
  messages are on their way. -/
  once : ∀ p ∈ w.accepted, p.2.msg.spreads = true → ∃ c, w.firsts cfg p.1 = [c] ∧
    c.dst ∈ cfg.repos ∧ c.msg.letter = p.2.msg.letter ∧
    (c ∈ w.transit ∧ w.seconds cfg p.1 = [] ∨ c ∉ w.transit ∧ Spread c (w.seconds cfg p.1))
  /-- Handling a secondary message sends no `C` and no `D`. -/
  silent : ∀ b ∈ w.transit, b.src ∈ cfg.repos → b.msg.spreads = true → ∀ throws w',
    w.join cfg (.other (.deliver b throws)) = some w' →
      w'.sent.filter (fun b => b.msg.spreads) = w.sent.filter fun b => b.msg.spreads

/-! ## The condition -/

/-- The hosts that a repository chooses for the reverses of a message. -/
def reverseHosts (m : Msg) : Result (List (Result Host)) :=
  match m with
  | .node _ => do
    let d ← readNode m.buffer
    let (master_repos, _) ← takeHosts d.s d.s_buffer
    return if master_repos = [] then []
      else d.fields.relations.map fun rel => Place.reverseCreate.host master_repos rel
  | .delete _ => do
    let d ← readDelete m.buffer
    let (master_repos, _) ← takeHosts d.s d.s_buffer
    return if d.fields.object = 2 ∧ master_repos ≠ []
      then [Place.reverseDelete.host master_repos d.fields.attr_or_rel] else []
  | _ => pure []

def Msg.IsRelationDelete : Msg → Prop
  | .delete n => n.object = 2
  | _ => False

instance : DecidablePred Msg.IsRelationDelete
  | .delete _ => inferInstanceAs (Decidable (_ = _))
  | .node _ => inferInstanceAs (Decidable False)
  | .query _ => inferInstanceAs (Decidable False)
  | .update _ => inferInstanceAs (Decidable False)
  | .response _ => inferInstanceAs (Decidable False)
  | .info _ => inferInstanceAs (Decidable False)
  | .register => inferInstanceAs (Decidable False)

/-- A repository that handles a message chooses other hosts than the server for its reverses, and
it finds a host list behind the server's relation delete. -/
def ReversesElsewhere (cfg : Config) : JoinEvent → Prop
  | .other (.deliver a _) => a.dst ∈ cfg.repos → ∀ hosts ∈ (reverseHosts a.msg).toOption,
      .ok cfg.address ∉ hosts ∧ (a.src = cfg.address → a.msg.IsRelationDelete → hosts ≠ [])
  | _ => True

instance (cfg : Config) : DecidablePred (ReversesElsewhere cfg)
  | .other (.deliver a _) => inferInstanceAs (Decidable (a.dst ∈ cfg.repos →
      ∀ hosts ∈ (reverseHosts a.msg).toOption, .ok cfg.address ∉ hosts ∧
        (a.src = cfg.address → a.msg.IsRelationDelete → hosts ≠ [])))
  | .other (.request _ _) => isTrue trivial
  | .register _ => isTrue trivial

/-! ## Messages as a repository decodes them -/

section Decoded

variable {db db' : Process} {from_addr : Host} {out : List Send} {m : Msg}

/-- A repository passes nothing on for a secondary message: it carries no list of hosts. -/
theorem RepositoryStep.silent (hmsg : m.IsReversed)
    (h : RepositoryStep db from_addr m.buffer db' out) (hfree : db.cud_blocking = false) :
    out.filter (fun s => s.msg.spreads) = [] := by
  rcases h.spread hfree with ⟨d, hosts, rest, sent, hhead, hread, hhosts, -, hreverses⟩ |
    ⟨d, hosts, rest, hhead, hread, hhosts, hreverse⟩ | ⟨-, -, hnil⟩
  · obtain ⟨n, rfl⟩ := Msg.eq_node hhead
    obtain ⟨hfits, -, hrepos⟩ := hmsg
    have hname : n.nameA.length ≤ 999 := hfits.name
    rw [show (Msg.node n).buffer = parseNewNode n from rfl,
      readNode_parseNewNode hfits.name hfits.relations_length hfits.relations
        hfits.attributes_length hfits.attributes hfits.id] at hread
    cases hread
    rw [hrepos, takeHosts_text (by rw [length_listHeader]; rfl) (by rw [length_listHeader]; omega)
      (by simp) (by simp)] at hhosts
    cases hhosts
    by_contra hne
    obtain ⟨s, hs⟩ := List.exists_mem_of_ne_nil _ hne
    obtain ⟨rel, -, hrev⟩ := exists_of_forall₂ hreverses hs
    exact hrev.1 rfl
  · obtain ⟨n, rfl⟩ := Msg.eq_delete hhead
    obtain ⟨hfits, -, hrepos⟩ := hmsg
    have hname : n.nameA.length ≤ 999 := hfits.name
    rw [show (Msg.delete n).buffer = parseNewDelete n from rfl,
      readDelete_parseNewDelete hfits.name hfits.object hfits.attr_or_rel hfits.id] at hread
    cases hread
    rw [hrepos, takeHosts_text rfl (by omega) (by simp) (by simp)] at hhosts
    cases hhosts
    rcases hreverse with ⟨-, hnil⟩ | ⟨-, hne, -⟩
    · exact hnil
    · exact absurd rfl hne
  · exact hnil

theorem RepositoryStep.elsewhere {address : Host}
    (h : RepositoryStep db from_addr m.buffer db' out) (hfree : db.cud_blocking = false)
    (hcond : ∀ hosts ∈ (reverseHosts m).toOption, .ok address ∉ hosts) :
    ∀ s ∈ out, s.msg.spreads = true → s.host ≠ address := by
  intro s hs hspreads haddress
  have hmem : s ∈ out.filter fun s => s.msg.spreads := List.mem_filter.mpr ⟨hs, hspreads⟩
  rcases h.spread hfree with ⟨d, hosts, rest, sent, hhead, hread, hhosts, hsub, hreverses⟩ |
    ⟨d, hosts, rest, hhead, hread, hhosts, hreverse⟩ | ⟨-, -, hnil⟩
  · obtain ⟨n, rfl⟩ := Msg.eq_node hhead
    obtain ⟨rel, hrel, hne, host, hhost, rfl⟩ := exists_of_forall₂ hreverses hmem
    have hreverse : reverseHosts (.node n) =
        .ok (d.fields.relations.map fun rel => Place.reverseCreate.host hosts rel) := by
      unfold reverseHosts
      simp only
      rw [hread, ok_bind, hhosts, ok_bind]
      simp [hne]
    refine hcond _ (by rw [hreverse]; rfl) (List.mem_map.mpr ⟨rel, hsub.subset hrel, ?_⟩)
    rw [hhost]
    exact congrArg _ haddress
  · obtain ⟨n, rfl⟩ := Msg.eq_delete hhead
    rcases hreverse with ⟨-, hnil⟩ | ⟨hobject, hne, host, hhost, hout⟩
    · rw [hnil] at hmem
      simp at hmem
    · have hreverse : reverseHosts (.delete n) =
          .ok [Place.reverseDelete.host hosts d.fields.attr_or_rel] := by
        unfold reverseHosts
        simp only
        rw [hread, ok_bind, hhosts, ok_bind]
        simp [hne, hobject]
      rw [hout, List.mem_singleton] at hmem
      refine hcond _ (by rw [hreverse]; rfl) (List.mem_singleton.mpr ?_)
      rw [hhost, ← haddress, hmem]
  · rw [hnil] at hmem
    simp at hmem

theorem Msg.spreads_of_letter {m m' : Msg} (h : m.letter = m'.letter) : m.spreads = m'.spreads := by
  revert h
  cases m <;> cases m' <;> simp [Msg.letter, Msg.spreads, Msg.isNode, Msg.isDelete, ch]

theorem map_msg_of_reverses {node_name : Str} {hosts : List Host} {sent : List Str}
    {es : List Send} (h : List.Forall₂ (IsReverse node_name hosts) sent es) :
    es.map Send.msg = sent.map fun rel => .node ⟨rel, [], [node_name], 0, []⟩ := by
  induction h with
  | nil => rfl
  | cons hrev _ ih =>
    obtain ⟨-, host, -, rfl⟩ := hrev
    rw [List.map_cons, List.map_cons, ih]

theorem RepositoryStep.passes (hshort : m.Short) (h : RepositoryStep db from_addr m.buffer db' out)
    (hfree : db.cud_blocking = false)
    (hcond : m.IsRelationDelete → ∀ hosts ∈ (reverseHosts m).toOption, hosts ≠ []) :
    m.Passes ((out.filter fun s => s.msg.spreads).map Send.msg) := by
  rcases h.spread hfree with ⟨d, hosts, rest, sent, hhead, hread, -, hsub, hreverses⟩ |
    ⟨d, hosts, rest, hhead, hread, hhosts, hreverse⟩ | ⟨hC, hD, hnil⟩
  · obtain ⟨n, rfl⟩ := Msg.eq_node hhead
    obtain ⟨request_id, r, hshort⟩ := readNode_short hshort
    rw [show (Msg.node n).buffer = parseNewNode n from rfl, hshort] at hread
    cases hread
    show List.Sublist _ _
    rw [map_msg_of_reverses hreverses]
    exact hsub.map _
  · obtain ⟨n, rfl⟩ := Msg.eq_delete hhead
    intro hobject
    obtain ⟨request_id, r, hshort⟩ := readDelete_short hshort hobject
    rw [show (Msg.delete n).buffer = parseNewDelete n from rfl] at hread
    have hread' := hread
    rw [hshort] at hread'
    cases hread'
    have hne : hosts ≠ [] := by
      intro hnil
      have hreverse : reverseHosts (.delete n) = .ok [] := by
        unfold reverseHosts
        simp only
        rw [show (Msg.delete n).buffer = parseNewDelete n from rfl, hread, ok_bind, hhosts, ok_bind]
        simp [hnil]
      exact hcond hobject [] (by rw [hreverse]; rfl) rfl
    rcases hreverse with ⟨hno, -⟩ | ⟨-, -, host, -, hout⟩
    · exact absurd hno (by simp [hne])
    · rw [hout]
      rfl
  · cases m with
    | node n => exact absurd rfl hC
    | delete n => exact absurd rfl hD
    | _ => trivial

end Decoded

/-! ## The invariant -/

/-- The messages that the server's `C`s and `D`s have set off. -/
structure World.Orderly (cfg : Config) (w : World) : Prop where
  traced : w.Traced cfg
  clients : ∀ p ∈ w.accepted, p.2.msg.spreads = true → cfg.IsClient p.2.src
  accepted : ∀ p ∈ w.accepted, p.2.msg.spreads = true → ∃ c ∈ w.sent, c.src = cfg.address ∧
    c.req = p.1 ∧ c.msg.letter = p.2.msg.letter
  first : ∀ c ∈ w.sent, c.src = cfg.address → c.msg.spreads = true → w.firsts cfg c.req = [c]
  second : ∀ c ∈ w.sent, c.src = cfg.address → c.msg.spreads = true →
    c ∈ w.transit ∧ w.seconds cfg c.req = [] ∨ c ∉ w.transit ∧ Spread c (w.seconds cfg c.req)
  elsewhere : ∀ b ∈ w.sent, b.src ∈ cfg.repos → b.msg.spreads = true → b.dst ≠ cfg.address

section Orderly

variable {cfg : Config} {w w' : World}

theorem World.Orderly.launch (cfg : Config) : (World.launch cfg).Orderly cfg where
  traced := World.Traced.launch cfg
  clients := by simp [World.launch]
  accepted := by simp [World.launch]
  first := by simp [World.launch]
  second := by simp [World.launch]
  elsewhere := by simp [World.launch]

theorem World.firsts_append {es : List Envelope} (hsent : w'.sent = w.sent ++ es) {k : ℕ}
    (h : ∀ b ∈ es, b.msg.spreads = true → b.req = k → b.src ≠ cfg.address) :
    w'.firsts cfg k = w.firsts cfg k := by
  unfold World.firsts
  rw [hsent, List.filter_append, List.append_right_eq_self, List.filter_eq_nil_iff]
  intro b hb hp
  simp only [Bool.and_eq_true, beq_iff_eq] at hp
  exact h b hb hp.1.1 hp.1.2 hp.2

theorem World.seconds_append {es : List Envelope} (hsent : w'.sent = w.sent ++ es) {k : ℕ}
    (h : ∀ b ∈ es, b.msg.spreads = true → b.req = k → b.src = cfg.address) :
    w'.seconds cfg k = w.seconds cfg k := by
  unfold World.seconds
  rw [hsent, List.filter_append, List.append_right_eq_self, List.filter_eq_nil_iff]
  intro b hb hp
  simp only [Bool.and_eq_true, beq_iff_eq, bne_iff_ne] at hp
  exact hp.2 (h b hb hp.1.1 hp.1.2)

theorem mem_post {c : Envelope} {es : List Envelope} (hes : c ∉ es) :
    c ∈ (w.post es).transit ↔ c ∈ w.transit := by
  unfold World.post
  rw [Multiset.mem_add, Multiset.mem_coe]
  simp [hes]

theorem mem_rest_add {a c : Envelope} {rest : Multiset Envelope} {es : List Envelope}
    (htransit : w.transit = a ::ₘ rest) (hca : c ≠ a) (hes : c ∉ es) :
    c ∈ rest + (es : Multiset Envelope) ↔ c ∈ w.transit := by
  rw [htransit, Multiset.mem_add, Multiset.mem_cons, Multiset.mem_coe]
  simp [hca, hes]

theorem Origin.of_server {c : Envelope} (h : Origin cfg c) (hsrc : c.src = cfg.address) :
    c.dst ∈ cfg.repos ∧ 1 ≤ c.req ∧ c.msg.Short := by
  cases h with
  | client hclient => exact absurd hsrc hclient.1
  | server _ hdst hreq hmsg => exact ⟨hdst, hreq, hmsg⟩
  | repository hrepo => exact absurd (hsrc ▸ hrepo) cfg.apart

/-- **Frame.** Messages of which none is a `C` or a `D` of the server's or of one of its
requests. -/
theorem World.Orderly.frame (h : w.Orderly cfg) (ht : w'.Traced cfg) {es : List Envelope}
    (hsent : w'.sent = w.sent ++ es) (haccepted : w'.accepted = w.accepted)
    (htransit : ∀ c ∈ w.sent, c.src = cfg.address → c.msg.spreads = true →
      (c ∈ w'.transit ↔ c ∈ w.transit))
    (hes : ∀ b ∈ es, b.msg.spreads = true → cfg.IsClient b.src ∧ b.req = 0) :
    w'.Orderly cfg := by
  have hmem : ∀ c ∈ w'.sent, c.src = cfg.address → c.msg.spreads = true → c ∈ w.sent := by
    intro c hc hsrc hspreads
    rcases List.mem_append.mp (hsent ▸ hc) with hc | hc
    · exact hc
    · exact absurd hsrc (hes c hc hspreads).1.1
  have hreq : ∀ c ∈ w.sent, c.src = cfg.address → c.msg.spreads = true → 1 ≤ c.req :=
    fun c hc hsrc hspreads => ((h.traced.origin c hc hspreads).of_server hsrc).2.1
  refine ⟨ht, ?_, ?_, ?_, ?_, ?_⟩
  · rw [haccepted]
    exact h.clients
  · intro p hp hspreads
    rw [haccepted] at hp
    obtain ⟨c, hc, hrest⟩ := h.accepted p hp hspreads
    exact ⟨c, hsent ▸ List.mem_append_left _ hc, hrest⟩
  · intro c hc hsrc hspreads
    rw [World.firsts_append hsent fun b hb hb' _ => (hes b hb hb').1.1]
    exact h.first c (hmem c hc hsrc hspreads) hsrc hspreads
  · intro c hc hsrc hspreads
    have hc' := hmem c hc hsrc hspreads
    rw [htransit c hc' hsrc hspreads, World.seconds_append hsent fun b hb hb' hk => ?_]
    · exact h.second c hc' hsrc hspreads
    · have h0 := (hes b hb hb').2
      have h1 := hreq c hc' hsrc hspreads
      omega
  · intro b hb hsrc hspreads
    rcases List.mem_append.mp (hsent ▸ hb) with hb | hb
    · exact h.elsewhere b hb hsrc hspreads
    · exact absurd hsrc (hes b hb hspreads).1.2

theorem World.Orderly.accept (h : w.Orderly cfg) (ht : w'.Traced cfg) {a : Envelope}
    {rest : Multiset Envelope} {host : Host} {msg : Msg} (htransit : w.transit = a ::ₘ rest)
    (hdst : a.dst = cfg.address) (haccepts : Accepts w.server a.msg.buffer host msg)
    (hw : w'.transit =
      rest + ([⟨cfg.address, host, msg, w.server.current_request⟩] : List Envelope))
    (haccepted : w'.accepted = w.accepted ++ [(w.server.current_request, a)])
    (hsent : w'.sent = w.sent ++ [⟨cfg.address, host, msg, w.server.current_request⟩]) :
    w'.Orderly cfg := by
  set k := w.server.current_request with hk
  set b : Envelope := ⟨cfg.address, host, msg, k⟩ with hb
  have hletter : msg.letter = a.msg.letter := haccepts.letter.trans (Msg.headD_buffer _)
  have hb' : b ∈ w'.sent := hsent ▸ List.mem_append_right _ (List.mem_singleton_self b)
  have ha := h.traced.mem_sent htransit
  have hold : ∀ c ∈ w.sent, c.req ≠ k := fun c hc => (h.traced.req c hc).ne
  refine ⟨ht, ?_, ?_, ?_, ?_, ?_⟩
  · intro p hp hspreads
    rcases List.mem_append.mp (haccepted ▸ hp) with hp | hp
    · exact h.clients p hp hspreads
    · rw [List.mem_singleton.mp hp] at hspreads ⊢
      cases h.traced.origin a ha hspreads with
      | client hclient => exact hclient
      | server _ hrepo => exact absurd (hdst ▸ hrepo) cfg.apart
      | repository hsrc => exact absurd hdst (h.elsewhere a ha hsrc hspreads)
  · intro p hp hspreads
    rcases List.mem_append.mp (haccepted ▸ hp) with hp | hp
    · obtain ⟨c, hc, hrest⟩ := h.accepted p hp hspreads
      exact ⟨c, hsent ▸ List.mem_append_left _ hc, hrest⟩
    · rw [List.mem_singleton.mp hp]
      exact ⟨b, hb', rfl, rfl, hletter⟩
  · intro c hc hsrc hspreads
    rcases List.mem_append.mp (hsent ▸ hc) with hc | hc
    · rw [World.firsts_append hsent fun b' hb'' _ hreq => ?_]
      · exact h.first c hc hsrc hspreads
      · rw [List.mem_singleton.mp hb''] at hreq
        exact absurd hreq.symm (hold c hc)
    · rw [List.mem_singleton.mp hc] at hspreads ⊢
      have hnone : w.firsts cfg k = [] := by
        apply List.filter_eq_nil_iff.mpr
        intro c hc hp
        simp only [Bool.and_eq_true, beq_iff_eq] at hp
        exact hold c hc hp.1.2
      show w'.firsts cfg k = [b]
      unfold World.firsts at hnone ⊢
      have hmsg : msg.spreads = true := hspreads
      rw [hsent, List.filter_append, hnone, List.nil_append, List.filter_cons,
        if_pos (by simp [hb, hmsg]), List.filter_nil]
  · intro c hc hsrc hspreads
    rcases List.mem_append.mp (hsent ▸ hc) with hc | hc
    · have hcdst := ((h.traced.origin c hc hspreads).of_server hsrc).1
      have hmem : c ∈ w'.transit ↔ c ∈ w.transit := by
        have hca : c ≠ a := by
          rintro rfl
          exact cfg.apart (hdst ▸ hcdst)
        have hcb : c ≠ b := by
          rintro rfl
          exact hold b hc rfl
        rw [hw]
        exact mem_rest_add htransit hca (List.mem_singleton.not.mpr hcb)
      rw [hmem, World.seconds_append hsent fun b' hb'' _ _ => by rw [List.mem_singleton.mp hb'']]
      exact h.second c hc hsrc hspreads
    · rw [List.mem_singleton.mp hc]
      refine Or.inl ⟨?_, ?_⟩
      · rw [hw, Multiset.mem_add, Multiset.mem_coe]
        exact Or.inr (List.mem_singleton_self b)
      · rw [World.seconds_append hsent fun b' hb'' _ _ => by rw [List.mem_singleton.mp hb'']]
        apply List.filter_eq_nil_iff.mpr
        intro c hc hp
        simp only [Bool.and_eq_true, beq_iff_eq] at hp
        exact hold c hc hp.1.2
  · intro c hc hsrc hspreads
    rcases List.mem_append.mp (hsent ▸ hc) with hc | hc
    · exact h.elsewhere c hc hsrc hspreads
    · rw [List.mem_singleton.mp hc] at hsrc
      exact absurd hsrc cfg.apart

theorem World.Orderly.not_mem_rest (h : w.Orderly cfg) {a : Envelope} {rest : Multiset Envelope}
    (htransit : w.transit = a ::ₘ rest) (hsrc : a.src = cfg.address)
    (hspreads : a.msg.spreads = true) : a ∉ rest := by
  have ha := h.traced.mem_sent htransit
  have hp : (a.msg.spreads && a.req == a.req && a.src == cfg.address) = true := by
    simp [hsrc, hspreads]
  have hone : w.sent.count a = 1 := by
    have hfirst := h.first a ha hsrc hspreads
    unfold World.firsts at hfirst
    rw [← List.count_filter (l := w.sent)
      (p := fun b => b.msg.spreads && b.req == a.req && b.src == cfg.address) hp, hfirst]
    exact List.count_singleton_self
  have hle := Multiset.count_le_of_le a h.traced.transit
  rw [htransit, Multiset.count_cons_self, Multiset.coe_count, hone] at hle
  exact Multiset.count_eq_zero.mp (by omega)

theorem filter_stamp {src : Host} {req : ℕ} {out : List Send} (hsrc : src ≠ cfg.address) :
    (World.stamp src req out).filter
        (fun b => b.msg.spreads && b.req == req && b.src != cfg.address) =
      World.stamp src req (out.filter fun s => s.msg.spreads) := by
  unfold World.stamp
  rw [List.filter_map]
  congr 1
  apply List.filter_congr
  intro s _
  simp [hsrc]

/-- The repository that gets the server's message passes on what `Spread` allows. -/
theorem World.Orderly.spread (h : w.Orderly cfg) (ht : w'.Traced cfg) {a : Envelope}
    {rest : Multiset Envelope} {db : Process} {out : List Send} (htransit : w.transit = a ::ₘ rest)
    (hdst : a.dst ∈ cfg.repos) (hsrc : a.src = cfg.address) (hspreads : a.msg.spreads = true)
    (hstep : RepositoryStep (w.repo a.dst) a.src a.msg.buffer db out)
    (hcond : ∀ hosts ∈ (reverseHosts a.msg).toOption,
      .ok cfg.address ∉ hosts ∧ (a.src = cfg.address → a.msg.IsRelationDelete → hosts ≠ []))
    (hw : w'.transit = rest + World.stamp a.dst a.req out) (haccepted : w'.accepted = w.accepted)
    (hsent : w'.sent = w.sent ++ World.stamp a.dst a.req out) : w'.Orderly cfg := by
  have hfree := h.traced.roles.repo_free a.dst
  have ha := h.traced.mem_sent htransit
  have hadst : a.dst ≠ cfg.address := fun heq => cfg.apart (heq ▸ hdst)
  have hnew : ∀ b ∈ World.stamp a.dst a.req out, b.src = a.dst ∧ b.req = a.req := by
    intro b hb
    obtain ⟨s, -, rfl⟩ := mem_stamp.mp hb
    exact ⟨rfl, rfl⟩
  have hold : ∀ c ∈ w'.sent, c.src = cfg.address → c ∈ w.sent := by
    intro c hc hcsrc
    rcases List.mem_append.mp (hsent ▸ hc) with hc | hc
    · exact hc
    · exact absurd ((hnew c hc).1.symm.trans hcsrc) hadst
  have hempty : w.seconds cfg a.req = [] := by
    rcases h.second a ha hsrc hspreads with ⟨-, hnil⟩ | ⟨hno, -⟩
    · exact hnil
    · exact absurd (htransit ▸ Multiset.mem_cons_self a rest) hno
  refine ⟨ht, ?_, ?_, ?_, ?_, ?_⟩
  · rw [haccepted]
    exact h.clients
  · intro p hp hp'
    rw [haccepted] at hp
    obtain ⟨c, hc, hrest⟩ := h.accepted p hp hp'
    exact ⟨c, hsent ▸ List.mem_append_left _ hc, hrest⟩
  · intro c hc hcsrc hc'
    rw [World.firsts_append hsent fun b hb _ _ => (hnew b hb).1 ▸ hadst]
    exact h.first c (hold c hc hcsrc) hcsrc hc'
  · intro c hc hcsrc hc'
    have hcold := hold c hc hcsrc
    by_cases hca : c = a
    · subst hca
      refine Or.inr ⟨?_, ?_⟩
      · rw [hw, Multiset.mem_add, not_or]
        refine ⟨h.not_mem_rest htransit hsrc hspreads, fun hmem => ?_⟩
        exact hadst ((hnew c (Multiset.mem_coe.mp hmem)).1.symm.trans hsrc)
      · have hseconds : w'.seconds cfg c.req =
            World.stamp c.dst c.req (out.filter fun s => s.msg.spreads) := by
          unfold World.seconds at hempty ⊢
          rw [hsent, List.filter_append, hempty, List.nil_append, filter_stamp hadst]
        have hpasses := hstep.passes ((h.traced.origin c ha hspreads).of_server hsrc).2.2 hfree
          fun hdelete hosts hhosts => (hcond hosts hhosts).2 hsrc hdelete
        have hmap : (w'.seconds cfg c.req).map Envelope.msg =
            (out.filter fun s => s.msg.spreads).map Send.msg := by
          rw [hseconds, World.stamp, List.map_map]
          rfl
        refine ⟨fun b hb => ?_, ?_⟩
        · rw [hseconds] at hb
          obtain ⟨s, -, rfl⟩ := mem_stamp.mp hb
          rfl
        · rw [hmap]
          exact hpasses
    · have hreq : a.req ≠ c.req := by
        intro heq
        have h₁ := h.first a ha hsrc hspreads
        rw [heq, h.first c hcold hcsrc hc'] at h₁
        exact hca (List.singleton_inj.mp h₁)
      have hmem : c ∈ w'.transit ↔ c ∈ w.transit := by
        have hstamp : c ∉ World.stamp a.dst a.req out := fun hc =>
          hadst ((hnew c hc).1.symm.trans hcsrc)
        rw [hw]
        exact mem_rest_add htransit hca hstamp
      rw [hmem, World.seconds_append hsent fun b hb _ hk =>
        absurd ((hnew b hb).2.symm.trans hk) hreq]
      exact h.second c hcold hcsrc hc'
  · intro b hb hbsrc hb'
    rcases List.mem_append.mp (hsent ▸ hb) with hb | hb
    · exact h.elsewhere b hb hbsrc hb'
    · obtain ⟨s, hs, rfl⟩ := mem_stamp.mp hb
      exact hstep.elsewhere hfree (fun hosts hhosts => (hcond hosts hhosts).1) s hs hb'

theorem JoinStep.orderly {e : JoinEvent} (h : JoinStep cfg w e w') (hI : w.Orderly cfg)
    (hstr : w.Strings) (hcond : ReversesElsewhere cfg e) : w'.Orderly cfg := by
  have ht := h.traced hI.traced hstr
  have hrepos : ∀ c ∈ w.sent, c.src = cfg.address → c.msg.spreads = true → c.dst ∈ cfg.repos :=
    fun c hc hsrc hspreads => ((hI.traced.origin c hc hspreads).of_server hsrc).1
  cases h with
  | request hclient =>
    refine hI.frame ht rfl rfl (fun c _ hsrc _ => mem_post fun hc => ?_) fun b hb _ => ?_
    · rw [List.mem_singleton.mp hc] at hsrc
      exact hclient.1 hsrc
    · rw [List.mem_singleton.mp hb]
      exact ⟨hclient, rfl⟩
  | register =>
    refine hI.frame ht rfl rfl (fun c _ _ hspreads => mem_post fun hc => ?_) fun b hb hspreads => ?_
    · rw [List.mem_singleton.mp hc] at hspreads
      cases hspreads
    · rw [List.mem_singleton.mp hb] at hspreads
      cases hspreads
  | accept htransit hdst haccepts => exact hI.accept ht htransit hdst haccepts rfl rfl rfl
  | @serve a throws rest db out htransit hdst hserves =>
    have hno : ∀ b ∈ World.stamp cfg.address a.req out, b.msg.spreads ≠ true := by
      intro b hb hspreads
      obtain ⟨s, hs, rfl⟩ := mem_stamp.mp hb
      exact absurd hspreads (by simp [(hserves s hs).spreads])
    refine hI.frame ht rfl rfl (fun c hc hsrc hspreads => mem_rest_add htransit ?_ ?_)
      fun b hb hspreads => absurd hspreads (hno b hb)
    · rintro rfl
      exact cfg.apart (hdst ▸ hrepos c hc hsrc hspreads)
    · exact fun hc => hno c hc hspreads
  | @repository a throws rest db out htransit hdst hstep =>
    have hfree := hI.traced.roles.repo_free a.dst
    have ha := hI.traced.mem_sent htransit
    by_cases hfirst : a.src = cfg.address ∧ a.msg.spreads = true
    · exact hI.spread ht htransit hdst hfirst.1 hfirst.2 hstep (hcond hdst) rfl rfl rfl
    · -- neither a client's request nor a message of the server's: it has no list of hosts
      have hno : ∀ b ∈ World.stamp a.dst a.req out, b.msg.spreads ≠ true := by
        intro b hb hspreads
        obtain ⟨s, hs, rfl⟩ := mem_stamp.mp hb
        have ha' : a.msg.spreads = true := hstep.spreads_of_mem hfree hs hspreads
        cases hI.traced.origin a ha ha' with
        | client _ haddress => exact cfg.apart (haddress ▸ hdst)
        | server hsrc => exact hfirst ⟨hsrc, ha'⟩
        | repository _ _ hmsg =>
          have hnil := hstep.silent hmsg hfree
          exact List.filter_eq_nil_iff.mp hnil s hs hspreads
      refine hI.frame ht rfl rfl (fun c _ hsrc hspreads => mem_rest_add htransit ?_ ?_)
        fun b hb hspreads => absurd hspreads (hno b hb)
      · rintro rfl
        exact hfirst ⟨hsrc, hspreads⟩
      · exact fun hc => hno c hc hspreads
  | @client a throws rest htransit hdst =>
    have hsent : w.sent = w.sent ++ [] := (List.append_nil _).symm
    refine hI.frame ht hsent rfl (fun c hc hsrc hspreads => ?_)
      (fun b hb => absurd hb List.not_mem_nil)
    have hca : c ≠ a := by
      rintro rfl
      exact hdst.2 (hrepos c hc hsrc hspreads)
    show c ∈ rest ↔ c ∈ w.transit
    rw [htransit, Multiset.mem_cons, or_iff_right hca]

theorem World.Orderly.silent (h : w.Orderly cfg) {b : Envelope} (hb : b ∈ w.transit)
    (hsrc : b.src ∈ cfg.repos) (hspreads : b.msg.spreads = true) {throws : ℕ → Option Str}
    (hw : w.join cfg (.other (.deliver b throws)) = some w') :
    w'.sent.filter (fun b => b.msg.spreads) = w.sent.filter fun b => b.msg.spreads := by
  have hsent : b ∈ w.sent := Multiset.mem_coe.mp (Multiset.mem_of_le h.traced.transit hb)
  have hdst := h.elsewhere b hsent hsrc hspreads
  cases joinStep_of_join h.traced.roles hw with
  | accept _ haddress => exact absurd haddress hdst
  | serve _ haddress => exact absurd haddress hdst
  | client => rfl
  | @repository _ _ _ db out _ _ hstep =>
    have hnil : (World.stamp b.dst b.req out).filter (fun b => b.msg.spreads) = [] := by
      cases h.traced.origin b hsent hspreads with
      | client hclient => exact absurd hsrc hclient.2
      | server haddress => exact absurd (haddress ▸ hsrc) cfg.apart
      | repository _ _ hmsg =>
        apply List.filter_eq_nil_iff.mpr
        intro b' hb'
        obtain ⟨s, hs, rfl⟩ := mem_stamp.mp hb'
        exact List.filter_eq_nil_iff.mp
          (hstep.silent hmsg (h.traced.roles.repo_free _)) s hs
    rw [List.filter_append, hnil, List.append_nil]

theorem World.Orderly.forwarding (h : w.Orderly cfg) : w.Forwarding cfg where
  clients := h.clients
  once p hp hspreads := by
    obtain ⟨c, hc, hsrc, hreq, hletter⟩ := h.accepted p hp hspreads
    have hspreads' : c.msg.spreads = true := (Msg.spreads_of_letter hletter).trans hspreads
    have hfirst := h.first c hc hsrc hspreads'
    have hsecond := h.second c hc hsrc hspreads'
    rw [hreq] at hfirst hsecond
    exact ⟨c, hfirst, ((h.traced.origin c hc hspreads').of_server hsrc).1, hletter, hsecond⟩
  silent b hb hsrc hspreads throws w' hw := h.silent hb hsrc hspreads hw

end Orderly

/-- **Forwarding terminates**, as long as no repository chooses the server for a reverse. -/
theorem forwarding_terminates {cfg : Config} {es : List JoinEvent}
    (hstr : Along (World.join cfg) World.Strings (World.launch cfg) es)
    (hcond : Meets (World.join cfg) (fun _ e => ReversesElsewhere cfg e) (World.launch cfg) es) :
    Along (World.join cfg) (fun w => w.Forwarding cfg) (World.launch cfg) es := by
  have horderly : Along (World.join cfg) (fun w => w.Orderly cfg) (World.launch cfg) es := by
    refine Along.of_step (fun w e w' hA _ hC hI hs => ?_) (World.Orderly.launch cfg) hstr hcond
    exact (joinStep_of_join hI.traced.roles hs).orderly hI hA hC
  exact horderly.mono fun _ h => h.forwarding

/-! ### Two repositories on the server's machine -/

/-- Every process runs on one machine, so the server's own entry is the address its peers know. -/
def oneMachine : Config where
  self := ⟨str "127.0.0.1", 50000⟩
  address := ⟨str "127.0.0.1", 50000⟩
  repos := [⟨str "127.0.0.1", 50001⟩, ⟨str "127.0.0.1", 50002⟩]
  apart := by decide

/-- Two repositories register and a client creates x with one relation, which the second repository
passes on to `third`. -/
def relating (rel : Str) (third : Host) : List JoinEvent :=
  let server := oneMachine.address
  let first : Host := ⟨str "127.0.0.1", 50001⟩
  let second : Host := ⟨str "127.0.0.1", 50002⟩
  [.register first, hop first server .register 0, .register second, hop second server .register 0,
    .other (.request (clientHost 1) (.node ⟨str "a", [], [rel], 0, []⟩)),
    hop (clientHost 1) server (.node ⟨str "a", [], [rel], 0, []⟩) 0,
    hop server second (.node ⟨str "a", [], [rel], 1, oneMachine.hosts⟩) 1,
    hop second third (.node ⟨rel, [], [str "a"], 0, []⟩) 1]

/-- The relation b goes to the first repository, which passes on nothing. -/
theorem forwarding_terminates_create : ∃ w,
    run (World.join oneMachine) (World.launch oneMachine)
        (relating (str "b") ⟨str "127.0.0.1", 50001⟩) = some w ∧
      w.Forwarding oneMachine ∧ w.accepted.length = 1 ∧ (w.seconds oneMachine 1).length = 1 := by
  have hrun : ∃ w, run (World.join oneMachine) (World.launch oneMachine)
      (relating (str "b") ⟨str "127.0.0.1", 50001⟩) = some w ∧
      w.accepted.length = 1 ∧ (w.seconds oneMachine 1).length = 1 :=
    exists_of_check (by decide +kernel)
  obtain ⟨w, hw, hlen⟩ := hrun
  refine ⟨w, hw, ?_, hlen⟩
  exact (forwarding_terminates (by decide +kernel)
    (meets_of_forall (by decide +kernel) (World.launch oneMachine))).last hw

/-- The relation of one byte 255 goes to the server, which accepts it as a second request and sends
another `C`. -/
theorem secondary_accepted : ∃ w,
    run (World.join oneMachine) (World.launch oneMachine)
        (relating [255] oneMachine.address) = some w ∧
      w.accepted.map (fun p => p.2.src) = [clientHost 1, ⟨str "127.0.0.1", 50002⟩] ∧
      (w.firsts oneMachine 2).length = 1 ∧ ¬ w.Forwarding oneMachine := by
  have hrun : ∃ w, run (World.join oneMachine) (World.launch oneMachine)
      (relating [255] oneMachine.address) = some w ∧
      w.accepted.map (fun p => p.2.src) = [clientHost 1, ⟨str "127.0.0.1", 50002⟩] ∧
      (w.firsts oneMachine 2).length = 1 ∧
      ∃ p ∈ w.accepted, p.2.msg.spreads = true ∧ ¬ oneMachine.IsClient p.2.src :=
    exists_of_check (by decide +kernel)
  obtain ⟨w, hw, haccepted, hlen, p, hp, hspreads, hno⟩ := hrun
  exact ⟨w, hw, haccepted, hlen, fun h => hno (h.clients p hp hspreads)⟩

end DGDB
