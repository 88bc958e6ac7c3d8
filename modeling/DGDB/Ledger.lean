import Mathlib
import DGDB.Turn

/-!
# The ledger of accepted requests

The invariant between `pending`, the messages in transit and the answers sent. For every id,
`pending` has an entry exactly as long as one message carries the id, and the answer goes out when
the entry is erased. A turn leaves the ledger alone, opens an id, moves the message of one, or
closes one.
-/

namespace DGDB

/-- The ledger. -/
structure Ledger (cfg : Config) (pending : ℤ → Option Pending) (current_request : ℕ)
    (accepted : List (ℕ × Envelope)) (transit : Multiset Envelope) (sent : List Envelope) :
    Prop where
  pos : 1 ≤ current_request
  numbers : accepted.map Prod.fst = List.range' 1 (current_request - 1)
  clients : ∀ p ∈ accepted, cfg.IsClient p.2.src
  entry : ∀ id e, pending id = some e → ∃ p ∈ accepted, id = p.1 ∧ e.client_sock = p.2.src
  names : ∀ id client st, pending id = some ⟨client, some st⟩ → ∀ x ∈ st.node_queue, AsciiName x.1
  awaits : ∀ id e, pending id = some e →
    ∃ a, transit.filter (Carries cfg id) = {a} ∧ Awaits cfg e a
  idle : ∀ id, 1 ≤ id → pending id = none → transit.filter (Carries cfg id) = 0
  unanswered : ∀ p ∈ accepted, pending p.1 ≠ none → answers cfg p.1 sent = []
  answered : ∀ p ∈ accepted, pending p.1 = none →
    ∃ a, answers cfg p.1 sent = [a] ∧ a.dst = p.2.src
  future : ∀ n : ℕ, current_request ≤ n → answers cfg n sent = []

namespace Ledger

variable {cfg : Config} {pending : ℤ → Option Pending} {current_request : ℕ}
  {accepted : List (ℕ × Envelope)} {transit transit' : Multiset Envelope}
  {sent sent' : List Envelope} {id : ℤ} {e : Pending}

theorem start : Ledger cfg (fun _ => none) 1 [] 0 [] := by
  constructor <;> simp [answers]

theorem mem_range (h : Ledger cfg pending current_request accepted transit sent)
    {p : ℕ × Envelope} (hp : p ∈ accepted) : 1 ≤ p.1 ∧ p.1 < current_request := by
  have hmem : p.1 ∈ accepted.map Prod.fst := List.mem_map_of_mem hp
  rw [h.numbers, List.mem_range'_1] at hmem
  have := h.pos
  omega

theorem id_range (h : Ledger cfg pending current_request accepted transit sent)
    (hid : pending id = some e) : 1 ≤ id ∧ id < current_request := by
  obtain ⟨p, hp, rfl, -⟩ := h.entry id e hid
  have := h.mem_range hp
  omega

theorem future_none (h : Ledger cfg pending current_request accepted transit sent) {n : ℕ}
    (hn : current_request ≤ n) : pending n = none := by
  by_contra hne
  obtain ⟨e, he⟩ := Option.ne_none_iff_exists'.mp hne
  have := h.id_range he
  omega

/-- The message in transit that carries an id shows that it is pending. -/
theorem pending_of_carries (h : Ledger cfg pending current_request accepted transit sent)
    {a : Envelope} (ha : a ∈ transit) (hid : 1 ≤ id) (hcarries : Carries cfg id a) :
    ∃ e, pending id = some e ∧ transit.filter (Carries cfg id) = {a} ∧ Awaits cfg e a := by
  have hmem : a ∈ transit.filter (Carries cfg id) := Multiset.mem_filter.mpr ⟨ha, hcarries⟩
  cases hpending : pending id with
  | none =>
    rw [h.idle id hid hpending] at hmem
    simp at hmem
  | some e =>
    obtain ⟨b, hb, hawaits⟩ := h.awaits id e hpending
    rw [hb, Multiset.mem_singleton] at hmem
    subst hmem
    exact ⟨e, rfl, hb, hawaits⟩

/-- What carries no id and is no answer does not enter the ledger. -/
theorem frame (h : Ledger cfg pending current_request accepted transit sent)
    (htransit : ∀ id, 1 ≤ id → transit'.filter (Carries cfg id) = transit.filter (Carries cfg id))
    (hsent : ∀ id, 1 ≤ id → answers cfg id sent' = answers cfg id sent) :
    Ledger cfg pending current_request accepted transit' sent' where
  pos := h.pos
  numbers := h.numbers
  clients := h.clients
  entry := h.entry
  names := h.names
  awaits := fun id e he => by
    rw [htransit id (h.id_range he).1]
    exact h.awaits id e he
  idle := fun id hid he => by
    rw [htransit id hid]
    exact h.idle id hid he
  unanswered := fun p hp he => by
    rw [hsent _ (by have := h.mem_range hp; omega)]
    exact h.unanswered p hp he
  answered := fun p hp he => by
    rw [hsent _ (by have := h.mem_range hp; omega)]
    exact h.answered p hp he
  future := fun n hn => by
    rw [hsent _ (by have := h.pos; omega)]
    exact h.future n hn

theorem book (h : Ledger cfg pending current_request accepted transit sent) {r a : Envelope}
    {state : Option QueryState} (hclient : cfg.IsClient r.src)
    (hnames : ∀ st, state = some st → ∀ x ∈ st.node_queue, AsciiName x.1)
    (hawaits : Awaits cfg ⟨r.src, state⟩ a)
    (hnew : transit'.filter (Carries cfg current_request) =
      a ::ₘ transit.filter (Carries cfg current_request))
    (hold : ∀ id : ℤ, 1 ≤ id → id ≠ current_request →
      transit'.filter (Carries cfg id) = transit.filter (Carries cfg id))
    (hsent : ∀ id, 1 ≤ id → answers cfg id sent' = answers cfg id sent) :
    Ledger cfg (Function.update pending current_request (some ⟨r.src, state⟩))
      (current_request + 1) (accepted ++ [(current_request, r)]) transit' sent' where
  pos := Nat.le_add_left 1 _
  numbers := by
    have hpos := h.pos
    rw [List.map_append, h.numbers, Nat.add_sub_cancel]
    conv_rhs => rw [← Nat.sub_add_cancel hpos, List.range'_concat]
    simp
    omega
  clients := by
    intro p hp
    rcases List.mem_append.mp hp with hp | hp
    · exact h.clients p hp
    · rw [List.mem_singleton.mp hp]
      exact hclient
  entry := by
    intro id e he
    by_cases hid : id = current_request
    · subst hid
      rw [Function.update_self] at he
      cases he
      exact ⟨(current_request, r), by simp, rfl, rfl⟩
    · rw [Function.update_of_ne hid] at he
      obtain ⟨p, hp, h'⟩ := h.entry id e he
      exact ⟨p, List.mem_append_left _ hp, h'⟩
  names := by
    intro id client st he
    by_cases hid : id = current_request
    · subst hid
      rw [Function.update_self] at he
      cases he
      exact hnames st rfl
    · rw [Function.update_of_ne hid] at he
      exact h.names id client st he
  awaits := by
    intro id e he
    by_cases hid : id = current_request
    · subst hid
      rw [Function.update_self] at he
      cases he
      refine ⟨a, ?_, hawaits⟩
      rw [hnew, h.idle _ (by have := h.pos; omega) (h.future_none le_rfl)]
      rfl
    · rw [Function.update_of_ne hid] at he
      rw [hold id (h.id_range he).1 hid]
      exact h.awaits id e he
  idle := by
    intro id hid he
    have hne : id ≠ current_request := by
      rintro rfl
      simp at he
    rw [Function.update_of_ne hne] at he
    rw [hold id hid hne]
    exact h.idle id hid he
  unanswered := by
    intro p hp he
    have hpos := h.pos
    rcases List.mem_append.mp hp with hp | hp
    · have hrange := h.mem_range hp
      rw [Function.update_of_ne (by omega)] at he
      rw [hsent _ (by omega)]
      exact h.unanswered p hp he
    · rw [List.mem_singleton.mp hp]
      rw [hsent _ (by simp only; omega)]
      exact h.future _ le_rfl
  answered := by
    intro p hp he
    rcases List.mem_append.mp hp with hp | hp
    · have hrange := h.mem_range hp
      rw [Function.update_of_ne (by omega)] at he
      rw [hsent _ (by omega)]
      exact h.answered p hp he
    · rw [List.mem_singleton.mp hp] at he
      simp at he
  future := fun n hn => by
    rw [hsent _ (by have := h.pos; omega)]
    exact h.future n (by omega)

theorem pass (h : Ledger cfg pending current_request accepted transit sent) {e' : Pending}
    {a : Envelope} (hid : pending id = some e) (hclient : e'.client_sock = e.client_sock)
    (hnames : ∀ st, e'.state = some st → ∀ x ∈ st.node_queue, AsciiName x.1)
    (hawaits : Awaits cfg e' a) (hnew : transit'.filter (Carries cfg id) = {a})
    (hold : ∀ id' : ℤ, 1 ≤ id' → id' ≠ id →
      transit'.filter (Carries cfg id') = transit.filter (Carries cfg id'))
    (hsent : ∀ id, 1 ≤ id → answers cfg id sent' = answers cfg id sent) :
    Ledger cfg (Function.update pending id (some e')) current_request accepted transit' sent' where
  pos := h.pos
  numbers := h.numbers
  clients := h.clients
  entry := by
    intro id' e₁ he
    by_cases hne : id' = id
    · subst hne
      rw [Function.update_self] at he
      cases he
      rw [hclient]
      exact h.entry id' e hid
    · rw [Function.update_of_ne hne] at he
      exact h.entry id' e₁ he
  names := by
    intro id' client st he
    by_cases hne : id' = id
    · subst hne
      rw [Function.update_self] at he
      cases he
      exact hnames st rfl
    · rw [Function.update_of_ne hne] at he
      exact h.names id' client st he
  awaits := by
    intro id' e₁ he
    by_cases hne : id' = id
    · subst hne
      rw [Function.update_self] at he
      cases he
      exact ⟨a, hnew, hawaits⟩
    · rw [Function.update_of_ne hne] at he
      rw [hold id' (h.id_range he).1 hne]
      exact h.awaits id' e₁ he
  idle := by
    intro id' hpos he
    have hne : id' ≠ id := by
      rintro rfl
      simp at he
    rw [Function.update_of_ne hne] at he
    rw [hold id' hpos hne]
    exact h.idle id' hpos he
  unanswered := by
    intro p hp he
    have hrange := h.mem_range hp
    rw [hsent _ (by omega)]
    refine h.unanswered p hp ?_
    by_cases hne : (p.1 : ℤ) = id
    · rw [hne, hid]
      simp
    · rwa [Function.update_of_ne hne] at he
  answered := by
    intro p hp he
    have hrange := h.mem_range hp
    have hne : (p.1 : ℤ) ≠ id := by
      intro heq
      rw [heq] at he
      simp at he
    rw [Function.update_of_ne hne] at he
    rw [hsent _ (by omega)]
    exact h.answered p hp he
  future := fun n hn => by
    rw [hsent _ (by have := h.pos; omega)]
    exact h.future n hn

theorem move (h : Ledger cfg pending current_request accepted transit sent) {a : Envelope}
    (hid : pending id = some e) (hawaits : Awaits cfg e a)
    (hnew : transit'.filter (Carries cfg id) = {a})
    (hold : ∀ id' : ℤ, 1 ≤ id' → id' ≠ id →
      transit'.filter (Carries cfg id') = transit.filter (Carries cfg id'))
    (hsent : ∀ id, 1 ≤ id → answers cfg id sent' = answers cfg id sent) :
    Ledger cfg pending current_request accepted transit' sent' := by
  have hnames : ∀ st, e.state = some st → ∀ x ∈ st.node_queue, AsciiName x.1 := by
    intro st hst
    exact h.names id e.client_sock st (by rw [hid, ← hst])
  have hpass := h.pass hid rfl hnames hawaits hnew hold hsent
  rwa [← hid, Function.update_eq_self] at hpass

theorem close (h : Ledger cfg pending current_request accepted transit sent) {a : Envelope}
    (hid : pending id = some e) (hdst : a.dst = e.client_sock)
    (hnew : transit'.filter (Carries cfg id) = 0)
    (hold : ∀ id' : ℤ, 1 ≤ id' → id' ≠ id →
      transit'.filter (Carries cfg id') = transit.filter (Carries cfg id'))
    (hanswer : answers cfg id sent' = answers cfg id sent ++ [a])
    (hsent : ∀ id', 1 ≤ id' → id' ≠ id → answers cfg id' sent' = answers cfg id' sent) :
    Ledger cfg (Function.update pending id none) current_request accepted transit' sent' where
  pos := h.pos
  numbers := h.numbers
  clients := h.clients
  entry := by
    intro id' e₁ he
    have hne : id' ≠ id := by
      rintro rfl
      simp at he
    rw [Function.update_of_ne hne] at he
    exact h.entry id' e₁ he
  names := by
    intro id' client st he
    have hne : id' ≠ id := by
      rintro rfl
      simp at he
    rw [Function.update_of_ne hne] at he
    exact h.names id' client st he
  awaits := by
    intro id' e₁ he
    have hne : id' ≠ id := by
      rintro rfl
      simp at he
    rw [Function.update_of_ne hne] at he
    rw [hold id' (h.id_range he).1 hne]
    exact h.awaits id' e₁ he
  idle := by
    intro id' hpos he
    by_cases hne : id' = id
    · rw [hne]
      exact hnew
    · rw [Function.update_of_ne hne] at he
      rw [hold id' hpos hne]
      exact h.idle id' hpos he
  unanswered := by
    intro p hp he
    have hrange := h.mem_range hp
    have hne : (p.1 : ℤ) ≠ id := by
      intro heq
      rw [heq] at he
      simp at he
    rw [Function.update_of_ne hne] at he
    rw [hsent _ (by omega) hne]
    exact h.unanswered p hp he
  answered := by
    intro p hp he
    have hrange := h.mem_range hp
    by_cases hne : (p.1 : ℤ) = id
    · obtain ⟨q, hq, hq1, hq2⟩ := h.entry id e hid
      have hpq : p = q := by
        have hnodup : (accepted.map Prod.fst).Nodup := by
          rw [h.numbers]
          exact List.nodup_range'
        exact List.inj_on_of_nodup_map hnodup hp hq (by omega)
      refine ⟨a, ?_, by rw [hdst, hpq, hq2]⟩
      rw [hne, hanswer, ← hne, h.unanswered p hp (by rw [hne, hid]; simp)]
      rfl
    · rw [Function.update_of_ne hne] at he
      rw [hsent _ (by omega) hne]
      exact h.answered p hp he
  future := fun n hn => by
    have := h.id_range hid
    rw [hsent _ (by have := h.pos; omega) (by omega)]
    exact h.future n hn

end Ledger

end DGDB
