import Mathlib
import DGDB.Rows

/-!
# Deliveries in order

The deployment with an inbox for each process that keeps the order of the calls of `SendTo`. A
process takes the oldest message of its inbox once it has sent everything its last turn sends, one
message after the other, each of them a step of its own. Every step is a step of `World`, or hands a
message over.
-/

namespace DGDB

open EventSystem

/-! ## The deployment -/

/-- A world, the messages in the inboxes of the processes and those a turn has still to send, both
with the oldest first. -/
structure Inboxes where
  world : World
  inbox : List Envelope
  unsent : List Envelope

inductive Action
  /-- A client sends a request. -/
  | request (client : Host) (msg : Msg)
  /-- A process that has sent everything handles the oldest message of its inbox. -/
  | take (host : Host)
  /-- The oldest message a process has still to send enters the inbox it is addressed to. -/
  | send (host : Host)

namespace Inboxes

def start (cfg : Config) : Inboxes := ⟨World.start cfg, [], []⟩

def step (cfg : Config) (q : Inboxes) : Action → Option Inboxes
  | .request client msg =>
    (q.world.step cfg (.request client msg)).map fun w =>
      ⟨w, q.inbox ++ [⟨client, cfg.address, msg, 0⟩], q.unsent⟩
  | .take host =>
    if q.unsent.any fun a => decide (a.src = host) then none
    else (q.inbox.find? fun a => decide (a.dst = host)).bind fun a =>
      (q.world.step cfg (.deliver a noThrow)).map fun w =>
        ⟨w, q.inbox.erase a, q.unsent ++ w.sent.drop q.world.sent.length⟩
  | .send host =>
    (q.unsent.find? fun a => decide (a.src = host)).map fun a =>
      ⟨q.world, q.inbox ++ [a], q.unsent.erase a⟩

end Inboxes

section Steps

variable {cfg : Config} {q q' : Inboxes} {host : Host}

theorem find_erase {l : List Envelope} {p : Envelope → Bool} {a : Envelope}
    (h : l.find? p = some a) :
    ∃ l₁ l₂, l = l₁ ++ a :: l₂ ∧ l.erase a = l₁ ++ l₂ ∧ p a = true ∧ ∀ b ∈ l₁, p b = false := by
  obtain ⟨hp, l₁, l₂, rfl, hl₁⟩ := List.find?_eq_some_iff_append.mp h
  have hl₁' : ∀ b ∈ l₁, p b = false := by simpa using hl₁
  have hnot : a ∉ l₁ := by
    intro ha
    rw [hl₁' a ha] at hp
    cases hp
  refine ⟨l₁, l₂, rfl, ?_, hp, hl₁'⟩
  rw [List.erase_append_right _ hnot, List.erase_cons_head]

theorem Inboxes.step_request {client : Host} {msg : Msg}
    (h : q.step cfg (.request client msg) = some q') :
    cfg.IsClient client ∧ msg.IsRequest ∧ q' = ⟨q.world.post [⟨client, cfg.address, msg, 0⟩],
      q.inbox ++ [⟨client, cfg.address, msg, 0⟩], q.unsent⟩ := by
  obtain ⟨w, hw, rfl⟩ := Option.map_eq_some_iff.mp h
  obtain ⟨hclient, hmsg, rfl⟩ := DGDB.step_request hw
  exact ⟨hclient, hmsg, rfl⟩

theorem Inboxes.step_take (h : q.step cfg (.take host) = some q') :
    (∀ b ∈ q.unsent, b.src ≠ host) ∧ ∃ l₁ a l₂ w, q.inbox = l₁ ++ a :: l₂ ∧
      (∀ b ∈ l₁, b.dst ≠ host) ∧ a.dst = host ∧
      q.inbox.find? (fun a => decide (a.dst = host)) = some a ∧
      q.world.step cfg (.deliver a noThrow) = some w ∧
      q' = ⟨w, l₁ ++ l₂, q.unsent ++ w.sent.drop q.world.sent.length⟩ := by
  simp only [Inboxes.step] at h
  split_ifs at h with hunsent
  obtain ⟨a, ha, h⟩ := Option.bind_eq_some_iff.mp h
  obtain ⟨w, hw, rfl⟩ := Option.map_eq_some_iff.mp h
  obtain ⟨l₁, l₂, hl, herase, hp, hl₁⟩ := find_erase ha
  refine ⟨by simpa using hunsent, l₁, a, l₂, w, hl, ?_, by simpa using hp, ha, hw, by rw [herase]⟩
  intro b hb
  simpa using hl₁ b hb

theorem Inboxes.step_send (h : q.step cfg (.send host) = some q') :
    ∃ l₁ a l₂, q.unsent = l₁ ++ a :: l₂ ∧ (∀ b ∈ l₁, b.src ≠ host) ∧ a.src = host ∧
      q' = ⟨q.world, q.inbox ++ [a], l₁ ++ l₂⟩ := by
  obtain ⟨a, ha, rfl⟩ := Option.map_eq_some_iff.mp h
  obtain ⟨l₁, l₂, hl, herase, hp, hl₁⟩ := find_erase ha
  refine ⟨l₁, a, l₂, hl, ?_, by simpa using hp, by rw [herase]⟩
  intro b hb
  simpa using hl₁ b hb

end Steps

/-! ## What a turn sends -/

/-- Nothing, or messages of which the last is a reply to the server. -/
def EndsInReply (cfg : Config) (es : List Envelope) : Prop :=
  es = [] ∨ ∃ es' b, es = es' ++ [b] ∧ b.dst = cfg.address ∧ 1 ≤ b.msg.request_id

section Sent

variable {cfg : Config} {w w' : World} {a : Envelope} {rest : Multiset Envelope}

/-- The messages of a turn: a repository sends its reply last. -/
theorem Turn.sends (hturn : Turn cfg { w with transit := rest } a w') (hplaced : Placed cfg a) :
    ∃ es, w'.sent = w.sent ++ es ∧ w'.transit = rest + es ∧ (∀ b ∈ es, b.src = a.dst) ∧
      (a.dst ∈ cfg.repos → EndsInReply cfg es) := by
  have hrepo : a.dst = cfg.address → ∀ es, a.dst ∈ cfg.repos → EndsInReply cfg es := by
    intro heq es hdst
    exact absurd (heq ▸ hdst) cfg.apart
  have hstamp : ∀ out, ∀ b ∈ World.stamp a.dst a.req out, b.src = a.dst := by
    intro out b hb
    obtain ⟨s, -, rfl⟩ := List.mem_map.mp hb
    rfl
  -- a repository that stores or deletes: the reverse messages, then the reply to a request
  have hreply : ∀ {id : ℤ} {secondary : List Send} {m : ResponseMsg}, a.dst ∈ cfg.repos →
      a.msg.request_id = id → m.request_id = id → (a.msg.IsSecondary → secondary = []) →
      EndsInReply cfg (World.stamp a.dst a.req (secondary ++ if id = 0 then []
        else [⟨cfg.address, .response m⟩])) := by
    rintro id secondary m hdst rfl hm hsecondary
    rcases hplaced.at_repo hdst with hsec | ⟨-, hid, hreq⟩
    · refine Or.inl ?_
      rw [hsecondary hsec, if_pos hsec.request_id]
      rfl
    · rw [if_neg (by omega)]
      refine Or.inr ⟨World.stamp a.dst a.req secondary, _, List.map_append .., rfl, ?_⟩
      show 1 ≤ m.request_id
      omega
  cases hturn with
  | busy hdst => exact ⟨_, rfl, rfl, by simp [hdst], hrepo hdst _⟩
  | accept hdst => exact ⟨_, rfl, rfl, by simp [hdst], hrepo hdst _⟩
  | response hdst => exact ⟨_, rfl, rfl, by simp [hdst], hrepo hdst _⟩
  | complete hdst => exact ⟨_, rfl, rfl, by simp [hdst], hrepo hdst _⟩
  | next hdst => exact ⟨_, rfl, rfl, by simp [hdst], hrepo hdst _⟩
  | @stored m hdst hmsg hhosts hrels =>
    refine ⟨_, rfl, rfl, hstamp _, fun _ => hreply hdst (by rw [hmsg]; rfl) rfl fun hsec => ?_⟩
    rw [hmsg] at hsec
    exact if_pos hsec.2
  | @asked m hdst hmsg =>
    refine ⟨_, rfl, rfl, by simp, fun _ => ?_⟩
    rcases hplaced.at_repo hdst with hsec | ⟨-, hid, hreq⟩
    · rw [hmsg] at hsec
      exact hsec.elim
    · rw [hmsg] at hid
      refine Or.inr ⟨[], _, rfl, rfl, ?_⟩
      show 1 ≤ m.request_id
      simp only [Msg.request_id] at hid
      omega
  | @updated m hdst hmsg =>
    refine ⟨_, rfl, rfl, by simp, fun _ => ?_⟩
    rcases hplaced.at_repo hdst with hsec | ⟨-, hid, hreq⟩
    · rw [hmsg] at hsec
      exact hsec.elim
    · rw [hmsg] at hid
      refine Or.inr ⟨[], _, rfl, rfl, ?_⟩
      show 1 ≤ m.request_id
      simp only [Msg.request_id] at hid
      omega
  | @deleted m hdst hmsg hhosts hrel =>
    refine ⟨_, rfl, rfl, hstamp _, fun _ => hreply hdst (by rw [hmsg]; rfl) rfl fun hsec => ?_⟩
    rw [hmsg] at hsec
    exact if_neg fun hcond => hcond.2 hsec.2
  | taken hdst => exact ⟨[], by simp, by simp, by simp, fun hd => absurd hd hdst.2⟩

end Sent

/-- The `R`s with the id `id` among what the server has sent. -/
def asked (cfg : Config) (id : ℤ) (sent : List Envelope) : List Envelope :=
  sent.filter fun a =>
    decide (a.src = cfg.address ∧ a.msg.isQuery = true ∧ a.msg.request_id = id)

section Asked

variable {cfg : Config} {w w' : World} {a : Envelope} {rest : Multiset Envelope} {id : ℤ}
  {sent es : List Envelope}

theorem asked_append : asked cfg id (sent ++ es) = asked cfg id sent ++ asked cfg id es :=
  List.filter_append ..

theorem asked_frame (h : ∀ b ∈ es, b.src ≠ cfg.address ∨ b.msg.isQuery = false ∨
    b.msg.request_id ≠ id) : asked cfg id (sent ++ es) = asked cfg id sent := by
  have hnil : asked cfg id es = [] := by
    unfold asked
    rw [List.filter_eq_nil_iff]
    intro b hb
    have := h b hb
    simp only [decide_eq_true_eq]
    rintro ⟨hsrc, hquery, hid⟩
    rcases this with h | h | h
    · exact h hsrc
    · rw [hquery] at h
      cases h
    · exact h hid
  rw [asked_append, hnil, List.append_nil]

theorem asked_of_turn (hturn : Turn cfg { w with transit := rest } a w')
    (hpending : w.server.pending id = none)
    (hid : id = w.server.current_request →
      w'.server.current_request = w.server.current_request) :
    asked cfg id w'.sent = asked cfg id w.sent := by
  have hrepo : ∀ out, a.dst ∈ cfg.repos →
      ∀ b ∈ World.stamp a.dst a.req out, b.src ≠ cfg.address := by
    intro out hdst b hb
    obtain ⟨s, -, rfl⟩ := List.mem_map.mp hb
    exact World.Inv.src_ne_address hdst
  cases hturn with
  | busy => exact asked_frame fun b hb => Or.inr (Or.inl (by rw [List.mem_singleton.mp hb]; rfl))
  | accept _ _ hmsg _ =>
    refine asked_frame fun b hb => Or.inr (Or.inr ?_)
    rw [List.mem_singleton.mp hb]
    intro heq
    have hbook := hid (heq.symm.trans (hmsg.forwarded cfg.hosts w.server.current_request).2.1)
    exact absurd hbook (Nat.succ_ne_self _)
  | response | complete =>
    exact asked_frame fun b hb => Or.inr (Or.inl (by rw [List.mem_singleton.mp hb]; rfl))
  | @next i client st t s queue queue' v _ _ _ hsome _ _ _ =>
    refine asked_frame fun b hb => Or.inr (Or.inr ?_)
    rw [List.mem_singleton.mp hb]
    rintro (heq : i.request_id = id)
    simp only at hsome
    rw [heq, hpending] at hsome
    cases hsome
  | stored hdst => exact asked_frame fun b hb => Or.inl (hrepo _ hdst b hb)
  | asked => exact asked_frame fun b hb => Or.inr (Or.inl (by rw [List.mem_singleton.mp hb]; rfl))
  | updated => exact asked_frame fun b hb => Or.inr (Or.inl (by rw [List.mem_singleton.mp hb]; rfl))
  | deleted hdst => exact asked_frame fun b hb => Or.inl (hrepo _ hdst b hb)
  | taken => rfl

theorem Turn.current_request_le (hturn : Turn cfg { w with transit := rest } a w') :
    w.server.current_request ≤ w'.server.current_request := by
  cases hturn with
  | accept => exact Nat.le_succ _
  | _ => exact le_rfl

theorem Turn.accepted_subset (hturn : Turn cfg { w with transit := rest } a w') :
    w.accepted ⊆ w'.accepted := by
  cases hturn with
  | accept => exact List.subset_append_left _ _
  | _ => exact List.Subset.refl _

end Asked

/-! ## The invariant -/

/-- The invariant of the deployment with inboxes. -/
structure Inboxes.Inv (cfg : Config) (q : Inboxes) : Prop where
  world : q.world.Inv cfg
  rows : Rows cfg q.world.repo q.world.accepted q.world.transit
  transit : q.world.transit = ↑(q.inbox ++ q.unsent)
  replies : ∀ h ∈ cfg.repos, EndsInReply cfg (q.unsent.filter fun a => decide (a.src = h))
  unasked : ∀ n : ℕ, q.world.server.current_request ≤ n → asked cfg n q.world.sent = []

/-- `host` has taken `a` out of its inbox, behind `before` and ahead of `after`, and sends `es`. -/
structure Inboxes.Took (cfg : Config) (q : Inboxes) (host : Host) (before : List Envelope)
    (a : Envelope) (after es : List Envelope) (q' : Inboxes) : Prop where
  inbox : q.inbox = before ++ a :: after
  skipped : ∀ b ∈ before, b.dst ≠ host
  dst : a.dst = host
  oldest : q.inbox.find? (fun a => decide (a.dst = host)) = some a
  idle : ∀ b ∈ q.unsent, b.src ≠ host
  transit : q.world.transit = a ::ₘ ↑(before ++ after ++ q.unsent)
  turn : Turn cfg { q.world with transit := ↑(before ++ after ++ q.unsent) } a q'.world
  sent : q'.world.sent = q.world.sent ++ es
  src : ∀ b ∈ es, b.src = host
  reply : host ∈ cfg.repos → EndsInReply cfg es
  transit' : q'.world.transit = ↑(before ++ after ++ q.unsent) + (es : Multiset Envelope)
  inbox' : q'.inbox = before ++ after
  unsent' : q'.unsent = q.unsent ++ es

namespace Inboxes.Inv

variable {cfg : Config} {q q' : Inboxes} {host : Host}

theorem start (cfg : Config) : (Inboxes.start cfg).Inv cfg where
  world := World.Inv.start cfg
  rows := Rows.start
  transit := rfl
  replies := fun _ _ => Or.inl rfl
  unasked := fun _ _ => rfl

theorem took (h : q.Inv cfg) (hadm : q.world.Admissible) (hne : cfg.repos ≠ [])
    (hstep : q.step cfg (.take host) = some q') :
    ∃ before a after es, Took cfg q host before a after es q' := by
  obtain ⟨hidle, l₁, a, l₂, w, hinbox, hl₁, hdst, hold, hw, rfl⟩ := step_take hstep
  obtain ⟨rest, htransit, hturn⟩ :=
    h.world.turn_of_step hne hadm (show noThrow = noThrow from rfl) hw
  have hmem : a ∈ q.world.transit := by simp [htransit]
  obtain ⟨es, hsent, htransit', hsrc, hreply⟩ := hturn.sends (h.world.placed a hmem)
  have hcons : q.world.transit = a ::ₘ ↑(l₁ ++ l₂ ++ q.unsent) := by
    rw [h.transit, hinbox, Multiset.cons_coe, Multiset.coe_eq_coe]
    simp
  have hrest : rest = ↑(l₁ ++ l₂ ++ q.unsent) := by
    rw [htransit] at hcons
    exact (Multiset.cons_inj_right a).mp hcons
  subst hrest
  refine ⟨l₁, a, l₂, es, hinbox, hl₁, hdst, hold, hidle, hcons, hturn, hsent, ?_, ?_, htransit',
    rfl, ?_⟩
  · rwa [← hdst]
  · rwa [← hdst]
  · simp only
    rw [hsent, List.drop_left]

theorem step (h : q.Inv cfg) (hadm : q.world.Admissible) (hne : cfg.repos ≠ []) {e : Action}
    (hstep : q.step cfg e = some q') : q'.Inv cfg := by
  cases e with
  | request client msg =>
    obtain ⟨hclient, hmsg, rfl⟩ := step_request hstep
    refine ⟨h.world.request hclient hmsg, h.rows.request client msg, ?_, h.replies, fun n hn => ?_⟩
    · rw [World.post_transit, h.transit, Multiset.coe_add, Multiset.coe_eq_coe, List.append_assoc,
        List.append_assoc]
      exact List.perm_append_comm.append_left _
    · rw [World.post_sent, asked_frame]
      · exact h.unasked n hn
      · intro b hb
        rw [List.mem_singleton.mp hb]
        exact Or.inl hclient.1
  | take host =>
    obtain ⟨before, a, after, es, ht⟩ := h.took hadm hne hstep
    refine ⟨ht.turn.inv h.world hadm hne ht.transit, ht.turn.rows h.world hne ht.transit h.rows, ?_,
      fun host' hhost' => ?_, fun n hn => ?_⟩
    · rw [ht.transit', ht.inbox', ht.unsent', Multiset.coe_add, List.append_assoc]
    · rw [ht.unsent', List.filter_append]
      by_cases heq : host' = host
      · subst heq
        have hnil : q.unsent.filter (fun a => decide (a.src = host')) = [] := by
          rw [List.filter_eq_nil_iff]
          simpa using ht.idle
        have hall : es.filter (fun a => decide (a.src = host')) = es := by
          rw [List.filter_eq_self]
          simpa using ht.src
        rw [hnil, hall]
        exact ht.reply hhost'
      · have hnil : es.filter (fun a => decide (a.src = host')) = [] := by
          rw [List.filter_eq_nil_iff]
          intro b hb
          simpa [ht.src b hb] using Ne.symm heq
        rw [hnil, List.append_nil]
        exact h.replies host' hhost'
    · have hle := ht.turn.current_request_le
      rw [asked_of_turn ht.turn (h.world.ledger.future_none (hle.trans hn)) fun heq => by omega]
      exact h.unasked n (hle.trans hn)
  | send host =>
    obtain ⟨l₁, a, l₂, hunsent, hl₁, hsrc, rfl⟩ := step_send hstep
    refine ⟨h.world, h.rows, ?_, fun host' hhost' => ?_, h.unasked⟩
    · rw [h.transit, hunsent, Multiset.coe_eq_coe, List.append_assoc]
      exact List.perm_middle.append_left _
    · have hold := h.replies host' hhost'
      simp only
      rw [hunsent, List.filter_append] at hold
      rw [List.filter_append]
      by_cases heq : host' = host
      · subst heq
        have hnil : l₁.filter (fun a => decide (a.src = host')) = [] := by
          rw [List.filter_eq_nil_iff]
          simpa using hl₁
        rw [hnil, List.nil_append, List.filter_cons_of_pos (by simpa using hsrc)] at hold
        rw [hnil, List.nil_append]
        rcases hold with hempty | ⟨es, b, heq, hb⟩
        · cases hempty
        · cases es with
          | nil => exact Or.inl (List.cons.inj heq).2
          | cons c es => exact Or.inr ⟨es, b, (List.cons.inj heq).2, hb⟩
      · rwa [List.filter_cons_of_neg (by simpa [hsrc] using Ne.symm heq)] at hold

end Inboxes.Inv

end DGDB
