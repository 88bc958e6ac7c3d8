import Mathlib
import DGDB.GraphStore
import DGDB.Visibility

/-!
# Reverse relations on their way

What is coming to the repositories, in the order of the inboxes. Behind a message of the server no
reverse relation is coming for the same repository, and while one request is pending all that is to
be sent comes from one repository.
-/

namespace DGDB

open EventSystem GraphSearch

/-! ## Reverse relations in the inboxes -/

section Coming

variable {cfg : Config} {a b : Envelope} {l l' : List Envelope} {m : NodeMsg}

theorem reverseMsg_eq_some : reverseMsg cfg a = some m ↔
    a.msg = .node m ∧ a.dst ∈ cfg.repos ∧ m.master_repos = [] := by
  unfold reverseMsg
  cases hmsg : a.msg with
  | node c =>
    simp only [Msg.node.injEq]
    constructor
    · intro h
      split_ifs at h with hc
      obtain rfl := Option.some.inj h
      exact ⟨rfl, hc⟩
    · rintro ⟨rfl, hc⟩
      exact if_pos hc
  | _ => simp

theorem reverseMsg_of_dst (h : a.dst ∉ cfg.repos) : reverseMsg cfg a = none := by
  rw [Option.eq_none_iff_forall_not_mem]
  intro m hm
  exact h (reverseMsg_eq_some.mp hm).2.1

theorem coming_append : coming cfg (l ++ l') = coming cfg l ++ coming cfg l' :=
  List.filterMap_append

theorem coming_eq_nil (h : ∀ b ∈ l, reverseMsg cfg b = none) : coming cfg l = [] :=
  List.filterMap_eq_nil_iff.mpr h

theorem coming_cons_of_none (h : reverseMsg cfg a = none) :
    coming cfg (a :: l) = coming cfg l :=
  List.filterMap_cons_none h

theorem mem_coming : m ∈ coming cfg l ↔ ∃ b ∈ l, reverseMsg cfg b = some m :=
  List.mem_filterMap

theorem Placed.reverse_src (h : Placed cfg b) (hb : reverseMsg cfg b = some m) :
    b.src ∈ cfg.repos := by
  obtain ⟨hmsg, hdst, hnil⟩ := reverseMsg_eq_some.mp hb
  cases h with
  | request haddr => exact absurd (haddr ▸ hdst) cfg.apart
  | answer _ hclient => exact absurd hdst hclient.2
  | secondary hsrc => exact hsrc
  | forwarded _ _ hfwd =>
    rw [hmsg] at hfwd
    have hhosts : m.master_repos = cfg.hosts := hfwd
    rw [hnil] at hhosts
    cases hhosts
  | reply _ haddr => exact absurd (haddr ▸ hdst) cfg.apart

/-- A message that carries a request. -/
def Busy (cfg : Config) (a : Envelope) : Prop := ∃ id, 1 ≤ id ∧ Carries cfg id a

theorem Placed.from_server (h : Placed cfg a) (hsrc : a.src = cfg.address)
    (hdst : a.dst ∈ cfg.repos) :
    Carries cfg a.req a ∧ 1 ≤ a.req ∧ a.msg.IsForwarded cfg.hosts := by
  cases h with
  | request haddr => exact absurd (haddr ▸ hdst) cfg.apart
  | answer _ hclient => exact absurd hdst hclient.2
  | secondary hrepo => exact absurd (hsrc ▸ hrepo) cfg.apart
  | forwarded _ _ hfwd hid hreq => exact ⟨⟨hid, fun hclient => hclient.2 hdst⟩, hreq, hfwd⟩
  | reply hrepo => exact absurd (hsrc ▸ hrepo) cfg.apart

end Coming

/-! ## The order of the inboxes -/

/-- Behind a message of the server to a repository no reverse relation is coming for the repository,
nor is one to be sent. -/
structure Orderly (cfg : Config) (q : Inboxes) : Prop where
  behind : (q.inbox ++ q.unsent).Pairwise fun a b =>
    a.src = cfg.address → a.dst ∈ cfg.repos → b.dst = a.dst → reverseMsg cfg b = none
  unsent : ∀ a ∈ q.inbox ++ q.unsent, a.src = cfg.address → a.dst ∈ cfg.repos →
    ∀ b ∈ q.unsent, reverseMsg cfg b = none

section Order

variable {cfg : Config} {q q' : Inboxes} {host : Host} {before after es : List Envelope}
  {a b : Envelope}

theorem World.Inv.carrier_unique {w : World} (h : w.Inv cfg) {id : ℤ} (hid : 1 ≤ id)
    (ha : a ∈ w.transit) (hb : b ∈ w.transit) (hca : Carries cfg id a) (hcb : Carries cfg id b) :
    a = b := by
  obtain ⟨-, -, hfilter, -⟩ := h.ledger.pending_of_carries ha hid hca
  have hmem : b ∈ w.transit.filter (Carries cfg id) := Multiset.mem_filter.mpr ⟨hb, hcb⟩
  rw [hfilter, Multiset.mem_singleton] at hmem
  exact hmem.symm

/-- What a repository has still to send ends in a reply. -/
theorem Inboxes.Inv.busy_of_unsent (h : q.Inv cfg) (hb : b ∈ q.unsent) (hsrc : b.src ∈ cfg.repos) :
    ∃ c ∈ q.unsent, c.src = b.src ∧ c.dst = cfg.address ∧ Busy cfg c := by
  have hmem : b ∈ q.unsent.filter fun a => decide (a.src = b.src) := by simpa using hb
  rcases h.replies b.src hsrc with hnil | ⟨es, c, heq, hdst, hid⟩
  · rw [hnil] at hmem
    exact absurd hmem List.not_mem_nil
  · have hc : c ∈ q.unsent.filter fun a => decide (a.src = b.src) := by simp [heq]
    obtain ⟨hc, hcsrc⟩ := List.mem_filter.mp hc
    exact ⟨c, hc, by simpa using hcsrc, hdst, _, hid, rfl, fun hclient => hclient.1 hdst⟩

/-- One request at a time is pending. -/
def World.OneByOne (w : World) : Prop :=
  ∀ id id', w.server.pending id ≠ none → w.server.pending id' ≠ none → id = id'

theorem World.Inv.busy_unique {w : World} (h : w.Inv cfg) (hone : w.OneByOne)
    (ha : a ∈ w.transit) (hb : b ∈ w.transit) (hca : Busy cfg a) (hcb : Busy cfg b) : a = b := by
  obtain ⟨id, hid, hca⟩ := hca
  obtain ⟨id', hid', hcb⟩ := hcb
  obtain ⟨e, he, -⟩ := h.ledger.pending_of_carries ha hid hca
  obtain ⟨e', he', -⟩ := h.ledger.pending_of_carries hb hid' hcb
  have heq := hone id id' (by simp [he]) (by simp [he'])
  exact h.carrier_unique hid ha hb hca (heq ▸ hcb)

/-- With no reply to be sent, no reverse relation is to be sent. -/
theorem Inboxes.Inv.unsent_none (h : q.Inv cfg) (hquiet : ∀ b ∈ q.unsent, b.dst = cfg.address →
    ¬ Busy cfg b) (hb : b ∈ q.unsent) : reverseMsg cfg b = none := by
  rw [Option.eq_none_iff_forall_not_mem]
  intro m hm
  have hplaced := h.world.placed b (by rw [h.transit]; simp [hb])
  obtain ⟨c, hc, -, hdst, hbusy⟩ := h.busy_of_unsent hb (hplaced.reverse_src hm)
  exact hquiet c hc hdst hbusy

/-- All the reverse relations that are to be sent come from one repository. -/
theorem Inboxes.Inv.reverse_src_unique (h : q.Inv cfg) (hone : q.world.OneByOne)
    (ha : a ∈ q.unsent) (hb : b ∈ q.unsent) {m m' : NodeMsg} (hma : reverseMsg cfg a = some m)
    (hmb : reverseMsg cfg b = some m') : a.src = b.src := by
  have hin : ∀ {c}, c ∈ q.unsent → c ∈ q.world.transit := by
    intro c hc
    rw [h.transit]
    simp [hc]
  obtain ⟨c, hc, hcsrc, -, hcbusy⟩ :=
    h.busy_of_unsent ha ((h.world.placed a (hin ha)).reverse_src hma)
  obtain ⟨d, hd, hdsrc, -, hdbusy⟩ :=
    h.busy_of_unsent hb ((h.world.placed b (hin hb)).reverse_src hmb)
  rw [← hcsrc, ← hdsrc, h.world.busy_unique hone (hin hc) (hin hd) hcbusy hdbusy]

/-- A message that stands in the order with all others. -/
theorem pairwise_insert {R : Envelope → Envelope → Prop} {l₁ l₂ : List Envelope} {c : Envelope}
    (h : (l₁ ++ l₂).Pairwise R) (hl : ∀ b ∈ l₁, R b c) (hr : ∀ b ∈ l₂, R c b) :
    (l₁ ++ c :: l₂).Pairwise R := by
  obtain ⟨h₁, h₂, h₁₂⟩ := List.pairwise_append.mp h
  refine List.pairwise_append.mpr ⟨h₁, List.pairwise_cons.mpr ⟨hr, h₂⟩, fun b hb d hd => ?_⟩
  rcases List.mem_cons.mp hd with rfl | hd
  · exact hl b hb
  · exact h₁₂ b hb d hd

theorem Orderly.start (cfg : Config) : Orderly cfg (Inboxes.start cfg) where
  behind := List.Pairwise.nil
  unsent := nofun

theorem Orderly.request (h : Orderly cfg q) {client : Host} (hclient : cfg.IsClient client)
    (msg : Msg) (w : World) :
    Orderly cfg ⟨w, q.inbox ++ [⟨client, cfg.address, msg, 0⟩], q.unsent⟩ where
  behind := by
    simp only [List.append_assoc, List.singleton_append]
    refine pairwise_insert h.behind (fun b _ _ _ _ => reverseMsg_of_dst cfg.apart) ?_
    intro b _ hsrc
    exact absurd hsrc hclient.1
  unsent := by
    intro a ha hsrc hdst b hb
    simp only [List.append_assoc, List.singleton_append, List.mem_append, List.mem_cons] at ha
    rcases ha with ha | rfl | ha
    · exact h.unsent a (List.mem_append_left _ ha) hsrc hdst b hb
    · exact absurd hsrc hclient.1
    · exact h.unsent a (List.mem_append_right _ ha) hsrc hdst b hb

theorem Orderly.send (h : Orderly cfg q) {l₁ l₂ : List Envelope}
    (hunsent : q.unsent = l₁ ++ a :: l₂)
    (w : World) : Orderly cfg ⟨w, q.inbox ++ [a], l₁ ++ l₂⟩ where
  behind := by
    have hbehind := h.behind
    rw [hunsent, ← List.append_assoc] at hbehind
    obtain ⟨h₁, h₂, h₁₂⟩ := List.pairwise_append.mp hbehind
    obtain ⟨ha, h₂⟩ := List.pairwise_cons.mp h₂
    have hall : (q.inbox ++ (l₁ ++ l₂)).Pairwise fun a b =>
        a.src = cfg.address → a.dst ∈ cfg.repos → b.dst = a.dst → reverseMsg cfg b = none := by
      rw [← List.append_assoc]
      exact List.pairwise_append.mpr ⟨h₁, h₂, fun b hb d hd =>
        h₁₂ b hb d (List.mem_cons_of_mem _ hd)⟩
    simp only [List.append_assoc, List.singleton_append]
    refine pairwise_insert hall
      (fun b hb => h₁₂ b (List.mem_append_left _ hb) a List.mem_cons_self) ?_
    intro b hb hsrc hdst hbdst
    rcases List.mem_append.mp hb with hb | hb
    · exact h.unsent a (by simp [hunsent]) hsrc hdst b (by simp [hunsent, hb])
    · exact ha b hb hsrc hdst hbdst
  unsent := by
    intro c hc hsrc hdst b hb
    have hc' : c ∈ q.inbox ++ q.unsent := by
      rw [hunsent]
      simp only [List.mem_append, List.mem_cons, List.not_mem_nil, or_false] at hc ⊢
      tauto
    refine h.unsent c hc' hsrc hdst b ?_
    rw [hunsent]
    rcases List.mem_append.mp hb with hb | hb
    · exact List.mem_append_left _ hb
    · exact List.mem_append_right _ (List.mem_cons_of_mem _ hb)

theorem Orderly.took (h : Orderly cfg q) (ht : q.Took cfg host before a after es q')
    (hes : ∀ b ∈ es, reverseMsg cfg b = none)
    (hnew : (∃ c ∈ es, c.src = cfg.address ∧ c.dst ∈ cfg.repos) →
      ∀ b ∈ q.unsent, reverseMsg cfg b = none) : Orderly cfg q' where
  behind := by
    have hbehind := h.behind
    rw [ht.inbox] at hbehind
    have hold : (before ++ after ++ q.unsent).Pairwise fun a b =>
        a.src = cfg.address → a.dst ∈ cfg.repos → b.dst = a.dst → reverseMsg cfg b = none :=
      hbehind.sublist (((List.sublist_cons_self a after).append_left before).append_right _)
    rw [ht.inbox', ht.unsent', ← List.append_assoc]
    refine List.pairwise_append.mpr ⟨hold, ?_, fun c _ b hb _ _ _ => hes b hb⟩
    exact List.pairwise_of_forall_mem_list fun c _ b hb _ _ _ => hes b hb
  unsent := by
    intro c hc hsrc hdst b hb
    rw [ht.inbox', ht.unsent', ← List.append_assoc] at hc
    rw [ht.unsent'] at hb
    rcases List.mem_append.mp hb with hb | hb
    · rcases List.mem_append.mp hc with hc | hc
      · refine h.unsent c ?_ hsrc hdst b hb
        rw [ht.inbox]
        simp only [List.mem_append, List.mem_cons] at hc ⊢
        tauto
      · exact hnew ⟨c, hc, hsrc, hdst⟩ b hb
    · exact hes b hb

/-- The turn of a repository that spreads a create, when the server has sent nothing else. -/
theorem Orderly.spread (ht : q.Took cfg host before a after es q') (hhost : host ∈ cfg.repos)
    (hfree : ∀ c ∈ before ++ after ++ q.unsent, c.src = cfg.address → c.dst ∉ cfg.repos) :
    Orderly cfg q' := by
  have hall : ∀ c ∈ q'.inbox ++ q'.unsent, c.src = cfg.address → c.dst ∉ cfg.repos := by
    intro c hc hsrc
    rw [ht.inbox', ht.unsent', ← List.append_assoc] at hc
    rcases List.mem_append.mp hc with hc | hc
    · exact hfree c hc hsrc
    · rw [ht.src c hc] at hsrc
      exact absurd (hsrc ▸ hhost) cfg.apart
  refine ⟨List.pairwise_of_forall_mem_list fun c hc b _ hsrc hdst => ?_, fun c hc hsrc hdst => ?_⟩
  · exact absurd hdst (hall c hc hsrc)
  · exact absurd hdst (hall c hc hsrc)

/-- No reverse relation is coming behind the message of the server that a repository takes. -/
theorem Orderly.none_behind (h : Orderly cfg q) (ht : q.Took cfg host before a after es q')
    (hsrc : a.src = cfg.address) (hdst : a.dst ∈ cfg.repos)
    (hb : b ∈ before ++ after ++ q.unsent) (hbdst : b.dst = a.dst) : reverseMsg cfg b = none := by
  rw [List.append_assoc] at hb
  rcases List.mem_append.mp hb with hb | hb
  · exact absurd (hbdst.trans ht.dst) (ht.skipped b hb)
  · have hbehind := h.behind
    rw [ht.inbox, List.append_assoc] at hbehind
    have htail := (List.pairwise_append.mp hbehind).2.1
    exact List.rel_of_pairwise_cons htail hb hsrc hdst hbdst

theorem Inboxes.Took.coming (ht : q.Took cfg host before a after es q')
    (ha : reverseMsg cfg a = none) :
    coming cfg (q'.inbox ++ q'.unsent) = coming cfg (q.inbox ++ q.unsent) ++ coming cfg es := by
  rw [ht.inbox', ht.unsent', ht.inbox]
  simp only [coming_append, coming_cons_of_none ha, List.append_assoc]

/-- A message that enters its inbox does not change what is coming: all that is to be sent comes
from one repository. -/
theorem Inboxes.Inv.coming_send (h : q.Inv cfg) (hone : q.world.OneByOne) {l₁ l₂ : List Envelope}
    (hunsent : q.unsent = l₁ ++ a :: l₂) (hl₁ : ∀ b ∈ l₁, b.src ≠ a.src) :
    DGDB.coming cfg (q.inbox ++ [a] ++ (l₁ ++ l₂)) = DGDB.coming cfg (q.inbox ++ q.unsent) := by
  rw [hunsent]
  cases ha : reverseMsg cfg a with
  | none =>
    simp only [coming_append, coming_cons_of_none ha, List.append_assoc]
    rfl
  | some m =>
    have hnil : DGDB.coming cfg l₁ = [] := by
      refine coming_eq_nil fun b hb => ?_
      rw [Option.eq_none_iff_forall_not_mem]
      intro m' hm'
      exact hl₁ b hb (h.reverse_src_unique hone (by simp [hunsent, hb]) (by simp [hunsent]) hm' ha)
    simp only [coming_append, hnil, List.append_assoc, List.nil_append]
    rw [show a :: l₂ = [a] ++ l₂ from rfl, coming_append]

end Order

end DGDB
