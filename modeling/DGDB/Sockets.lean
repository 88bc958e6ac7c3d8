import Mathlib
import DGDB.Inbox
import DGDB.Exclusion
import DGDB.Client
import DGDB.Coalescing

/-!
# The deployment over its sockets

Every message is passed to `SendTo`, which takes it apart; its packets and their acknowledgements
are lost, repeated and delayed, and `RecvFrom` puts together what arrives. Each process acts on the
bytes that `RecvFrom` returns. As long as no two calls of `SendTo` meet at a socket and every step
is orderly, a run is one of `Inboxes`: each message is handled once and whole, and a client prints
the text of its answer.
-/

namespace DGDB

open Rdt EventSystem

/-! ## The turn on a string -/

/-- The world after the turn of the process `a` is addressed to on a string that `RecvFrom` has
returned. With the first string that is not empty, `a` is no longer in transit. -/
def World.hear (cfg : Config) (throws : ℕ → Option Str) (w : World) (a : Envelope)
    (s_buffer : Str) : Option World :=
  let w := if s_buffer = [] then w else { w with transit := w.transit.erase a }
  if a.dst = cfg.address then
    match runConnection throws w.server a.src s_buffer with
    | .ok (db, out) => some (w.serverTurn cfg a db out)
    | .error _ => none
  else
    match runConnection throws (w.repo a.dst) a.src s_buffer with
    | .ok (db, out) => some (w.repoTurn a db out)
    | .error _ => none

section Hear

variable {cfg : Config} {throws : ℕ → Option Str} {w : World} {a : Envelope}

theorem World.post_nil (w : World) : w.post [] = w := by
  simp [World.post]

theorem World.hear_nil : w.hear cfg throws a [] = some w := by
  have hserver : w.serverTurn cfg a w.server [] = w := by
    unfold World.serverTurn
    rw [if_neg (lt_irrefl _)]
    exact w.post_nil
  have hrepo : w.repoTurn a (w.repo a.dst) [] = w := by
    unfold World.repoTurn
    rw [Function.update_eq_self]
    exact w.post_nil
  unfold World.hear
  simp only [if_true, runConnection_nil, hserver, hrepo, ite_self]

/-- The whole message is handled as it is when it is delivered. -/
theorem World.hear_buffer (hdst : ¬ cfg.IsClient a.dst) (hmem : a ∈ w.transit) :
    w.hear cfg throws a a.msg.buffer = w.step cfg (.deliver a throws) := by
  unfold World.hear
  rw [if_neg a.msg.buffer_ne_nil]
  show _ = if a ∈ w.transit then _ else _
  rw [if_pos hmem]
  unfold World.handle
  by_cases hserver : a.dst = cfg.address
  · exact (if_pos hserver).trans (if_pos hserver).symm
  · have hrepo : a.dst ∈ cfg.repos := by
      by_contra hrepo
      exact hdst ⟨hserver, hrepo⟩
    exact (if_neg hserver).trans ((if_neg hserver).trans (if_pos hrepo)).symm

theorem World.step_client (hdst : cfg.IsClient a.dst) (hmem : a ∈ w.transit) :
    w.step cfg (.deliver a throws) = some { w with transit := w.transit.erase a } := by
  show (if a ∈ w.transit then _ else _) = _
  rw [if_pos hmem]
  unfold World.handle
  rw [if_neg hdst.1, if_neg hdst.2]

end Hear

/-! ## The deployment -/

/-- A call of `SendTo`, and the link from its socket to the one it sends to. -/
structure Call where
  envelope : Envelope
  link : Link

namespace Call

def start (a : Envelope) : Call := ⟨a, Link.start a.msg.buffer []⟩

/-- One step: the receiver is `runConnection`, or the `WaitResponse` of a client. -/
def step (cfg : Config) (c : Call) (e : Link.Event) : Option Link :=
  if cfg.IsClient c.envelope.dst then Client.step c.link e else c.link.step true e

/-- `RecvFrom` has returned nothing of the message. -/
def Unheard (c : Call) : Prop := Client.message c.link = []

instance : DecidablePred Unheard := fun _ => inferInstanceAs (Decidable (_ = _))

/-- No call of `RecvFrom` gives up inside the message, and none takes its last packet again for a
new one. -/
def Orderly (cfg : Config) (c : Call) (e : Link.Event) : Prop :=
  if cfg.IsClient c.envelope.dst then Client.Patient c.envelope.msg.buffer c.link e
  else Link.Orderly c.envelope.msg.buffer c.link e

instance (cfg : Config) (c : Call) (e : Link.Event) : Decidable (c.Orderly cfg e) :=
  inferInstanceAs (Decidable (ite _ _ _))

end Call

/-- The world, the messages that the turns have still to send, with the oldest first, the calls of
`SendTo`, and what the clients have printed, each with its answer. -/
structure Sockets where
  world : World
  unsent : List Envelope
  calls : List Call
  printed : List (Envelope × Str)

namespace Sockets

inductive Event
  /-- A client calls `SendTo` with a request. -/
  | request (client : Host) (msg : Msg)
  /-- A process calls `SendTo` with the oldest message it has still to send. -/
  | call (host : Host)
  /-- A step of the link of the call at `j`. -/
  | link (j : ℕ) (e : Link.Event)
  /-- The call at `j` has returned, and left nothing behind. -/
  | finish (j : ℕ)

def start (cfg : Config) : Sockets := ⟨World.start cfg, [], [], []⟩

/-- The last turn of `host` has sent everything. -/
def Idle (q : Sockets) (host : Host) : Prop := ∀ a ∈ q.unsent, a.src ≠ host

/-- No call of `SendTo` has an end at `host`. -/
def Unlinked (q : Sockets) (host : Host) : Prop :=
  ∀ c ∈ q.calls, c.envelope.src ≠ host ∧ c.envelope.dst ≠ host

instance (q : Sockets) : DecidablePred q.Idle := fun _ => inferInstanceAs (Decidable (∀ _ ∈ _, _))

instance (q : Sockets) : DecidablePred q.Unlinked :=
  fun _ => inferInstanceAs (Decidable (∀ _ ∈ _, _))

/-- The turn of the receiver of `a` after a step of its link: a client prints the message once it
begins with an `M`, and a process acts on the string that `RecvFrom` has returned. -/
def receive (cfg : Config) (q : Sockets) (a : Envelope) (before after : Link) : Option Sockets :=
  if cfg.IsClient a.dst then
    if ¬ Client.Ended before ∧ Client.Ended after then
      match waitResponse (Client.message after) with
      | .ok (some text) => some { q with
          world := { q.world with transit := q.world.transit.erase a }
          printed := q.printed ++ [(a, text)] }
      | _ => none
    else some q
  else
    match after.returned.drop before.returned.length with
    | [] => some q
    | r :: _ => (q.world.hear cfg noThrow a r.data).map fun w => { q with
        world := w
        unsent := q.unsent ++ w.sent.drop q.world.sent.length }

/-- One step. `SendTo` is called when neither end has another call or a message of its last turn to
send, and `RecvFrom` when the last turn has sent everything. A message of a process to itself is
lost: `SendTo` takes each packet for its own acknowledgement, and returns
(`Rdt.Exchange.own_address_lost`). -/
def step (cfg : Config) (q : Sockets) : Event → Option Sockets
  | .request client msg =>
    if (q.Idle client ∧ q.Unlinked client) ∧ q.Idle cfg.address ∧ q.Unlinked cfg.address then
      (q.world.step cfg (.request client msg)).map fun w => { q with
        world := w
        calls := q.calls ++ [Call.start ⟨client, cfg.address, msg, 0⟩] }
    else none
  | .call host =>
    (q.unsent.find? fun a => decide (a.src = host)).bind fun a =>
      if a.dst = host then
        if q.Unlinked host then some { q with
          world := { q.world with transit := q.world.transit.erase a }
          unsent := q.unsent.erase a }
        else none
      else if q.Unlinked host ∧ q.Idle a.dst ∧ q.Unlinked a.dst then some { q with
        unsent := q.unsent.erase a
        calls := q.calls ++ [Call.start a] }
      else none
  | .link j e =>
    q.calls[j]?.bind fun c =>
      if (e = .packet ∨ e = .giveUp) ∧ ¬ q.Idle c.envelope.dst then none
      else (c.step cfg e).bind fun link =>
        receive cfg { q with calls := q.calls.set j ⟨c.envelope, link⟩ } c.envelope c.link link
  | .finish j =>
    q.calls[j]?.bind fun c =>
      if c.link.Quiescent ∧ c.link.receiving.data = [] then
        some { q with calls := q.calls.eraseIdx j }
      else none

/-- What the calls of a list have not yet brought. -/
def undelivered (l : List Call) : List Envelope :=
  (l.filter fun c => decide c.Unheard).map Call.envelope

/-- The messages of the calls under way are in the inboxes. -/
def inboxes (q : Sockets) : Inboxes := ⟨q.world, undelivered q.calls, q.unsent⟩

/-- Every step of a link is orderly. -/
def Orderly (cfg : Config) (q : Sockets) : Event → Prop
  | .link j e => ∀ c ∈ q.calls[j]?, c.Orderly cfg e
  | _ => True

instance (cfg : Config) (q : Sockets) : DecidablePred (Orderly cfg q)
  | .link j e => inferInstanceAs (Decidable (∀ c ∈ q.calls[j]?, c.Orderly cfg e))
  | .request _ _ | .call _ | .finish _ => inferInstanceAs (Decidable True)

/-- The assumptions on the states of a run: no process has a message to itself to send. -/
structure Admissible (q : Sockets) : Prop where
  world : q.world.Admissible
  clean : ∀ c ∈ q.calls, Clean c.envelope.msg.buffer
  apart : ∀ a ∈ q.unsent, a.dst ≠ a.src

instance : DecidablePred Admissible := fun q =>
  decidable_of_iff (q.world.Admissible ∧ (∀ c ∈ q.calls, Clean c.envelope.msg.buffer) ∧
      ∀ a ∈ q.unsent, a.dst ≠ a.src)
    ⟨fun ⟨h₁, h₂, h₃⟩ => ⟨h₁, h₂, h₃⟩, fun h => ⟨h.1, h.2, h.3⟩⟩

end Sockets

/-! ## One call -/

namespace Call

/-- What a process has heard is nothing or the message, and what a client has is so too. -/
structure Good (cfg : Config) (c : Call) : Prop where
  process : ¬ cfg.IsClient c.envelope.dst → Link.Intact c.envelope.msg.buffer c.link
  client : cfg.IsClient c.envelope.dst → ∃ m : ResponseMsg, c.envelope.msg = .response m ∧ m.Fits ∧
    (∃ got, Client.Waiting (parseNewMessageResponse m) got c.link) ∧
    (Client.message c.link = [] ∨ Client.message c.link = parseNewMessageResponse m)

section Good

variable {cfg : Config} {c : Call} {e : Link.Event} {link : Link}

theorem unheard_iff (c : Call) :
    c.Unheard ↔ (c.link.returned.map Return.data).filter (· ≠ []) = [] := by
  unfold Unheard Client.message
  rw [List.flatMap_eq_nil_iff, List.filter_eq_nil_iff]
  simp

theorem start_unheard (a : Envelope) : (start a).Unheard := rfl

theorem Good.start {a : Envelope}
    (ha : cfg.IsClient a.dst → ∃ m : ResponseMsg, a.msg = .response m ∧ m.Fits) :
    (Call.start a).Good cfg where
  process := fun _ => Link.Intact.start _
  client := by
    intro hdst
    obtain ⟨m, hmsg, hfits⟩ := ha hdst
    refine ⟨m, hmsg, hfits, ⟨0, ?_⟩, Or.inl rfl⟩
    show Client.Waiting _ 0 (Link.start a.msg.buffer [])
    rw [hmsg]
    exact Client.Waiting.start _

theorem step_returned {again : Bool} {q q' : Link} (hevent : ¬ (e = .packet ∨ e = .giveUp))
    (h : q.step again e = some q') : q'.returned = q.returned := by
  cases e with
  | call =>
    obtain ⟨-, m, messages, -, rfl⟩ := Link.step_call h
    rfl
  | send =>
    obtain ⟨-, p, -, rfl⟩ := Link.step_send h
    rfl
  | resend =>
    obtain ⟨-, p, -, rfl⟩ := Link.step_resend h
    rfl
  | ack =>
    obtain ⟨-, a, acks, sending, -, -, rfl⟩ := Link.step_ack h
    rfl
  | packet => exact absurd (Or.inl rfl) hevent
  | giveUp => exact absurd (Or.inr rfl) hevent
  | losePacket j => simp only [Link.step] at h; split_ifs at h; cases h; rfl
  | loseAck j => simp only [Link.step] at h; split_ifs at h; cases h; rfl
  | repeatPacket j => simp only [Link.step] at h; split_ifs at h; cases h; rfl
  | repeatAck j => simp only [Link.step] at h; split_ifs at h; cases h; rfl

theorem drop_returned {again : Bool} {q q' : Link} (h : q.step again e = some q') :
    q'.returned = q.returned ∧ q'.returned.drop q.returned.length = [] ∨
      (e = .packet ∨ e = .giveUp) ∧ ∃ r, q'.returned = q.returned ++ [r] ∧
        q'.returned.drop q.returned.length = [r] := by
  obtain ⟨x, ⟨-, hsame⟩ | ⟨-, b, hreturned⟩⟩ := Link.step_strings h
  · exact Or.inl ⟨hsame, by rw [hsame, List.drop_length]⟩
  · refine Or.inr ⟨?_, _, hreturned, by rw [hreturned, List.drop_left]⟩
    by_contra hevent
    have hsame := step_returned hevent h
    rw [hsame] at hreturned
    simp at hreturned

/-- **One step of a call to a process**: its receiver gets nothing, or it gets the message. -/
theorem Good.step_process (h : c.Good cfg) (hdst : ¬ cfg.IsClient c.envelope.dst)
    (hclean : Clean c.envelope.msg.buffer) (horderly : c.Orderly cfg e)
    (hstep : c.step cfg e = some link) :
    Good cfg ⟨c.envelope, link⟩ ∧
      ((Unheard ⟨c.envelope, link⟩ ↔ c.Unheard) ∧
          (∀ r ∈ (link.returned.drop c.link.returned.length), r.data = []) ∨
        (e = .packet ∨ e = .giveUp) ∧ c.Unheard ∧ ¬ Unheard ⟨c.envelope, link⟩ ∧
          ∃ r, link.returned.drop c.link.returned.length = [r] ∧
            r.data = c.envelope.msg.buffer) := by
  unfold Call.step at hstep
  rw [if_neg hdst] at hstep
  unfold Orderly at horderly
  rw [if_neg hdst] at horderly
  have hintact := (Link.Intact.step hclean c.envelope.msg.buffer_ne_nil (h.process hdst) hstep).1
    horderly
  refine ⟨⟨fun _ => hintact, fun hclient => absurd hclient hdst⟩, ?_⟩
  rw [unheard_iff, unheard_iff]
  rcases drop_returned hstep with ⟨hsame, hdrop⟩ | ⟨hevent, r, hreturned, hdrop⟩
  · refine Or.inl ⟨by rw [hsame], fun r hr => ?_⟩
    rw [hdrop] at hr
    cases hr
  · have hfilter : (link.returned.map Return.data).filter (· ≠ []) =
        (c.link.returned.map Return.data).filter (· ≠ []) ++ [r.data].filter (· ≠ []) := by
      rw [hreturned, List.map_append, List.filter_append]
      rfl
    by_cases hnil : r.data = []
    · refine Or.inl ⟨?_, fun r' hr' => ?_⟩
      · show (link.returned.map Return.data).filter (· ≠ []) = [] ↔ _
        rw [hfilter, hnil]
        simp
      · rw [hdrop] at hr'
        rwa [List.mem_singleton.mp hr']
    · -- the message has not been returned before
      have hsome : [r.data].filter (· ≠ []) = [r.data] := by simp [hnil]
      rw [hsome] at hfilter
      obtain ⟨got, -, ⟨hnone, -⟩ | ⟨hone, -⟩⟩ := hintact
      · rw [hnone] at hfilter
        simp at hfilter
      · rw [hone] at hfilter
        rw [← List.nil_append [c.envelope.msg.buffer]] at hfilter
        obtain ⟨hfirst, hdata⟩ := List.append_inj' hfilter rfl
        refine Or.inr ⟨hevent, hfirst.symm, ?_, r, hdrop, (List.singleton_inj.mp hdata).symm⟩
        show ¬ (link.returned.map Return.data).filter (· ≠ []) = []
        rw [hone]
        simp

/-- **One step of a call to a client**: it waits, it ends with the whole answer, or it has ended. -/
theorem Good.step_client (h : c.Good cfg) (hdst : cfg.IsClient c.envelope.dst)
    (hclean : Clean c.envelope.msg.buffer) (horderly : c.Orderly cfg e)
    (hstep : c.step cfg e = some link) :
    Good cfg ⟨c.envelope, link⟩ ∧
      ((Unheard ⟨c.envelope, link⟩ ↔ c.Unheard) ∧
          ¬ (¬ Client.Ended c.link ∧ Client.Ended link) ∨
        (e = .packet ∨ e = .giveUp) ∧ c.Unheard ∧ ¬ Unheard ⟨c.envelope, link⟩ ∧
          (¬ Client.Ended c.link ∧ Client.Ended link) ∧
          ∃ m : ResponseMsg, c.envelope.msg = .response m ∧
            waitResponse (Client.message link) = .ok (some (newlines m.message))) := by
  obtain ⟨m, hmsg, hfits, ⟨got, hwaiting⟩, hmessage⟩ := h.client hdst
  unfold Call.step at hstep
  rw [if_pos hdst] at hstep
  unfold Orderly at horderly
  rw [if_pos hdst, hmsg] at horderly
  rw [hmsg] at hclean
  have hhead : (parseNewMessageResponse m).headD 0 = ch 'M' := rfl
  obtain ⟨got', hwaiting', hended, hopen, -⟩ := hwaiting.step hclean hhead hstep
  have hgood : (Client.message link = [] ∨ Client.message link = parseNewMessageResponse m) →
      Good cfg ⟨c.envelope, link⟩ := fun hmessage' =>
    ⟨fun hnot => absurd hdst hnot, fun _ => ⟨m, hmsg, hfits, ⟨got', hwaiting'⟩, hmessage'⟩⟩
  by_cases hend : Client.Ended c.link
  · have hsame := (hended hend).2
    refine ⟨hgood (by rwa [hsame]), Or.inl ⟨?_, fun hnot => hnot.1 hend⟩⟩
    show Client.message link = [] ↔ _
    rw [hsame]
    rfl
  · have hnil := (hwaiting.open_iff hhead).mp hend
    have hmessage' := hopen hend horderly
    refine ⟨hgood hmessage', ?_⟩
    by_cases hend' : Client.Ended link
    · have hne := (hwaiting'.ended_iff hhead).mp hend'
      refine Or.inr ⟨?_, hnil, hne, ⟨hend, hend'⟩, m, hmsg, ?_⟩
      · by_contra hevent
        refine hne (show link.returned.flatMap Return.data = [] from ?_)
        rw [step_returned hevent (Client.step_some hstep).2]
        exact hnil
      · obtain ⟨hprinted, htext⟩ := hwaiting'.printed hfits hend'
        rw [hprinted, htext.mpr (hmessage'.resolve_left hne)]
    · refine Or.inl ⟨?_, fun hnot => hend' hnot.2⟩
      show Client.message link = [] ↔ Client.message c.link = []
      rw [hnil, (hwaiting'.open_iff hhead).mp hend']

/-- A call that has returned and left nothing behind has brought its message. -/
theorem Good.finished (h : c.Good cfg) (hquiet : c.link.Quiescent)
    (hnil : c.link.receiving.data = []) : ¬ c.Unheard := by
  by_cases hdst : cfg.IsClient c.envelope.dst
  · obtain ⟨m, -, -, ⟨got, hwaiting⟩, -⟩ := h.client hdst
    intro hunheard
    have hall := hwaiting.arrived rfl hunheard hquiet.2.1
    rw [hnil] at hall
    cases hall
  · rw [unheard_iff]
    intro hnone
    have hall := (h.process hdst).delivered_eq c.envelope.msg.buffer_ne_nil hquiet
    rw [Link.delivered_eq, hnone, hnil] at hall
    cases hall

end Good

end Call

/-! ## The run of the inboxes -/

/-- No message that is not taken yet goes where the new one goes. -/
def Inboxes.Alone (cfg : Config) (q : Inboxes) : Action → Prop
  | .request _ _ => ∀ b ∈ q.inbox, b.dst ≠ cfg.address
  | .send host => ∀ a ∈ q.unsent.find? fun a => decide (a.src = host), ∀ b ∈ q.inbox, b.dst ≠ a.dst
  | .take _ => True

theorem Inboxes.take_eq {cfg : Config} {q : Inboxes} {a : Envelope} {before after : List Envelope}
    {w : World} (hidle : ∀ b ∈ q.unsent, b.src ≠ a.dst) (hinbox : q.inbox = before ++ a :: after)
    (hbefore : ∀ b ∈ before, b.dst ≠ a.dst) (hw : q.world.step cfg (.deliver a noThrow) = some w) :
    q.step cfg (.take a.dst) =
      some ⟨w, before ++ after, q.unsent ++ w.sent.drop q.world.sent.length⟩ := by
  have hany : ¬ (q.unsent.any fun b => decide (b.src = a.dst)) = true := by
    simpa using hidle
  have hfind : q.inbox.find? (fun b => decide (b.dst = a.dst)) = some a := by
    rw [hinbox, List.find?_append, List.find?_eq_none.mpr (by simpa using hbefore),
      List.find?_cons_of_pos (by simp), Option.none_or]
  have herase : q.inbox.erase a = before ++ after := by
    rw [hinbox, List.erase_append_right _ fun ha => hbefore a ha rfl, List.erase_cons_head]
  simp only [Inboxes.step, if_neg hany, hfind, Option.bind_some, hw, Option.map_some, herase]

/-- `a` is a message to a client. -/
def ForClient (cfg : Config) (a : Envelope) : Prop := cfg.IsClient a.dst

instance (cfg : Config) : DecidablePred (ForClient cfg) :=
  fun _ => inferInstanceAs (Decidable (cfg.IsClient _))

namespace Sockets

/-- The invariant of the deployment over its sockets. -/
structure Inv (cfg : Config) (q : Sockets) : Prop where
  inboxes : q.inboxes.Inv cfg
  calls : ∀ c ∈ q.calls, c.Good cfg
  apart : q.calls.Pairwise fun c d => c.envelope.dst ≠ d.envelope.dst
  printed : ∀ p ∈ q.printed, ∃ m : ResponseMsg, p.1.msg = .response m ∧ p.2 = newlines m.message
  conserved : ↑(q.printed.map Prod.fst) + q.world.transit.filter (ForClient cfg) =
    (↑(q.world.sent.filter fun a => decide (ForClient cfg a)) : Multiset Envelope)

section Split

variable {q : Sockets} {j : ℕ} {c : Call}

theorem calls_split (h : q.calls[j]? = some c) : ∃ l₁ l₂, q.calls = l₁ ++ c :: l₂ ∧
    (∀ d, q.calls.set j d = l₁ ++ d :: l₂) ∧ q.calls.eraseIdx j = l₁ ++ l₂ := by
  obtain ⟨hj, hc⟩ := List.getElem?_eq_some_iff.mp h
  refine ⟨q.calls.take j, q.calls.drop (j + 1), ?_, fun d => ?_, List.eraseIdx_eq_take_drop_succ ..⟩
  · rw [← hc, List.cons_getElem_drop_succ, List.take_append_drop]
  · rw [List.set_eq_take_append_cons_drop, if_pos hj]

theorem undelivered_append (l₁ l₂ : List Call) :
    undelivered (l₁ ++ l₂) = undelivered l₁ ++ undelivered l₂ := by
  unfold undelivered
  rw [List.filter_append, List.map_append]

theorem undelivered_cons_of_pos {l : List Call} (h : c.Unheard) :
    undelivered (c :: l) = c.envelope :: undelivered l := by
  unfold undelivered
  rw [List.filter_cons_of_pos (by simpa using h), List.map_cons]

theorem undelivered_cons_of_neg {l : List Call} (h : ¬ c.Unheard) :
    undelivered (c :: l) = undelivered l := by
  unfold undelivered
  rw [List.filter_cons_of_neg (by simpa using h)]

theorem undelivered_start (l : List Call) (a : Envelope) :
    undelivered (l ++ [Call.start a]) = undelivered l ++ [a] := by
  rw [undelivered_append, undelivered_cons_of_pos (Call.start_unheard a)]
  rfl

theorem mem_undelivered {l : List Call} {a : Envelope} (h : a ∈ undelivered l) :
    ∃ c ∈ l, c.envelope = a := by
  obtain ⟨c, hc, rfl⟩ := List.mem_map.mp h
  exact ⟨c, List.mem_of_mem_filter hc, rfl⟩

end Split

section Steps

variable {cfg : Config} {q q' : Sockets} {c : Call} {link : Link} {l₁ l₂ : List Call}

theorem Inv.start (cfg : Config) : (Sockets.start cfg).Inv cfg where
  inboxes := Inboxes.Inv.start cfg
  calls := nofun
  apart := List.Pairwise.nil
  printed := nofun
  conserved := rfl

theorem Inv.replaced (h : q.Inv cfg) (hcalls : q.calls = l₁ ++ c :: l₂)
    (hgood : Call.Good cfg ⟨c.envelope, link⟩) :
    (∀ d ∈ l₁ ++ ⟨c.envelope, link⟩ :: l₂, d.Good cfg) ∧
      (l₁ ++ ⟨c.envelope, link⟩ :: l₂).Pairwise fun c d => c.envelope.dst ≠ d.envelope.dst := by
  refine ⟨fun d hd => ?_, ?_⟩
  · rcases List.mem_append.mp hd with hd | hd
    · exact h.calls d (by rw [hcalls]; exact List.mem_append_left _ hd)
    · rcases List.mem_cons.mp hd with rfl | hd
      · exact hgood
      · exact h.calls d (by rw [hcalls]; exact List.mem_append_right _ (List.mem_cons_of_mem _ hd))
  · have hapart := h.apart
    rw [hcalls] at hapart
    have hmap : ∀ l : List Call, (l.Pairwise fun c d => c.envelope.dst ≠ d.envelope.dst) ↔
        (l.map fun c => c.envelope.dst).Pairwise (· ≠ ·) := fun l => List.pairwise_map.symm
    rw [hmap] at hapart ⊢
    simpa using hapart

/-- The link of one call goes on, and nothing is heard. -/
theorem Inv.quiet (h : q.Inv cfg) (hcalls : q.calls = l₁ ++ c :: l₂)
    (hgood : Call.Good cfg ⟨c.envelope, link⟩)
    (hsame : Call.Unheard ⟨c.envelope, link⟩ ↔ c.Unheard) :
    Inv cfg ⟨q.world, q.unsent, l₁ ++ ⟨c.envelope, link⟩ :: l₂, q.printed⟩ ∧
      Sockets.inboxes ⟨q.world, q.unsent, l₁ ++ ⟨c.envelope, link⟩ :: l₂, q.printed⟩ =
        q.inboxes := by
  have hinboxes : Sockets.inboxes ⟨q.world, q.unsent, l₁ ++ ⟨c.envelope, link⟩ :: l₂, q.printed⟩ =
      q.inboxes := by
    show Inboxes.mk q.world (undelivered (l₁ ++ ⟨c.envelope, link⟩ :: l₂)) q.unsent =
      ⟨q.world, undelivered q.calls, q.unsent⟩
    rw [hcalls, undelivered_append, undelivered_append]
    by_cases hunheard : c.Unheard
    · rw [undelivered_cons_of_pos hunheard, undelivered_cons_of_pos (hsame.mpr hunheard)]
    · rw [undelivered_cons_of_neg hunheard, undelivered_cons_of_neg fun hnew =>
        hunheard (hsame.mp hnew)]
  obtain ⟨hcalls', hapart'⟩ := h.replaced hcalls hgood
  refine ⟨⟨?_, hcalls', hapart', h.printed, h.conserved⟩, hinboxes⟩
  rw [hinboxes]
  exact h.inboxes

theorem Inv.take (h : q.Inv cfg) (hcalls : q.calls = l₁ ++ c :: l₂) (hunheard : c.Unheard)
    (hidle : q.Idle c.envelope.dst) {w : World}
    (hw : q.world.step cfg (.deliver c.envelope noThrow) = some w) :
    q.inboxes.step cfg (.take c.envelope.dst) = some ⟨w, undelivered l₁ ++ undelivered l₂,
      q.unsent ++ w.sent.drop q.world.sent.length⟩ := by
  refine Inboxes.take_eq (q := q.inboxes) hidle ?_ (fun b hb => ?_) hw
  · show undelivered q.calls = _
    rw [hcalls, undelivered_append, undelivered_cons_of_pos hunheard]
  · obtain ⟨d, hd, rfl⟩ := mem_undelivered hb
    have hapart := h.apart
    rw [hcalls] at hapart
    exact (List.pairwise_append.mp hapart).2.2 d hd c List.mem_cons_self

theorem Inv.mem_transit (h : q.Inv cfg) (hcalls : q.calls = l₁ ++ c :: l₂) (hunheard : c.Unheard) :
    c.envelope ∈ q.world.transit := by
  show c.envelope ∈ q.inboxes.world.transit
  rw [h.inboxes.transit]
  show c.envelope ∈ undelivered q.calls ++ q.unsent
  rw [hcalls, undelivered_append, undelivered_cons_of_pos hunheard]
  simp

/-- **A process hears a message.** -/
theorem Inv.heard (h : q.Inv cfg) (hne : cfg.repos ≠ []) (hadm : q.world.Admissible)
    (hcalls : q.calls = l₁ ++ c :: l₂) (hdst : ¬ cfg.IsClient c.envelope.dst)
    (hidle : q.Idle c.envelope.dst) (hgood : Call.Good cfg ⟨c.envelope, link⟩)
    (hunheard : c.Unheard) (hnew : ¬ Call.Unheard ⟨c.envelope, link⟩) {w : World}
    (hw : q.world.hear cfg noThrow c.envelope c.envelope.msg.buffer = some w) :
    Inv cfg ⟨w, q.unsent ++ w.sent.drop q.world.sent.length, l₁ ++ ⟨c.envelope, link⟩ :: l₂,
        q.printed⟩ ∧
      q.inboxes.step cfg (.take c.envelope.dst) =
        some (Sockets.inboxes ⟨w, q.unsent ++ w.sent.drop q.world.sent.length,
          l₁ ++ ⟨c.envelope, link⟩ :: l₂, q.printed⟩) := by
  rw [World.hear_buffer hdst (h.mem_transit hcalls hunheard)] at hw
  have hstep : q.inboxes.step cfg (.take c.envelope.dst) =
      some (Sockets.inboxes ⟨w, q.unsent ++ w.sent.drop q.world.sent.length,
        l₁ ++ ⟨c.envelope, link⟩ :: l₂, q.printed⟩) := by
    rw [h.take hcalls hunheard hidle hw]
    show _ = some (Inboxes.mk w (undelivered (l₁ ++ ⟨c.envelope, link⟩ :: l₂)) _)
    rw [undelivered_append, undelivered_cons_of_neg hnew]
  obtain ⟨hcalls', hapart'⟩ := h.replaced hcalls hgood
  obtain ⟨before, a, after, es, ht⟩ := h.inboxes.took hadm hne hstep
  refine ⟨⟨h.inboxes.step hadm hne hstep, hcalls', hapart', h.printed, ?_⟩, hstep⟩
  have hnot : ¬ ForClient cfg a := by rwa [ForClient, ht.dst]
  have htransit : w.transit = ↑(before ++ after ++ q.unsent) + (es : Multiset Envelope) :=
    ht.transit'
  have hsent : w.sent = q.world.sent ++ es := ht.sent
  have hold : q.world.transit = a ::ₘ ↑(before ++ after ++ q.unsent) := ht.transit
  have hconserved := h.conserved
  rw [hold, Multiset.filter_cons_of_neg _ hnot] at hconserved
  show _ + Multiset.filter _ w.transit = (↑(w.sent.filter _) : Multiset Envelope)
  rw [htransit, hsent, Multiset.filter_add, List.filter_append, ← add_assoc, hconserved,
    Multiset.filter_coe, Multiset.coe_add]

/-- **A client hears its answer**, and prints the text of it. -/
theorem Inv.shown (h : q.Inv cfg) (hne : cfg.repos ≠ []) (hadm : q.world.Admissible)
    (hcalls : q.calls = l₁ ++ c :: l₂) (hdst : cfg.IsClient c.envelope.dst)
    (hidle : q.Idle c.envelope.dst) (hgood : Call.Good cfg ⟨c.envelope, link⟩)
    (hunheard : c.Unheard) (hnew : ¬ Call.Unheard ⟨c.envelope, link⟩) {m : ResponseMsg}
    (hmsg : c.envelope.msg = .response m) :
    Inv cfg ⟨{ q.world with transit := q.world.transit.erase c.envelope }, q.unsent,
        l₁ ++ ⟨c.envelope, link⟩ :: l₂, q.printed ++ [(c.envelope, newlines m.message)]⟩ ∧
      q.inboxes.step cfg (.take c.envelope.dst) =
        some (Sockets.inboxes ⟨{ q.world with transit := q.world.transit.erase c.envelope },
          q.unsent, l₁ ++ ⟨c.envelope, link⟩ :: l₂,
          q.printed ++ [(c.envelope, newlines m.message)]⟩) := by
  have hmem := h.mem_transit hcalls hunheard
  have hstep : q.inboxes.step cfg (.take c.envelope.dst) =
      some (Sockets.inboxes ⟨{ q.world with transit := q.world.transit.erase c.envelope },
        q.unsent, l₁ ++ ⟨c.envelope, link⟩ :: l₂,
        q.printed ++ [(c.envelope, newlines m.message)]⟩) := by
    rw [h.take hcalls hunheard hidle (World.step_client hdst hmem)]
    show _ = some (Inboxes.mk _ (undelivered (l₁ ++ ⟨c.envelope, link⟩ :: l₂)) q.unsent)
    rw [undelivered_append, undelivered_cons_of_neg hnew]
    show some (Inboxes.mk _ _ (q.unsent ++ q.world.sent.drop q.world.sent.length)) = _
    rw [List.drop_length, List.append_nil]
  obtain ⟨hcalls', hapart'⟩ := h.replaced hcalls hgood
  refine ⟨⟨h.inboxes.step hadm hne hstep, hcalls', hapart', fun p hp => ?_, ?_⟩, hstep⟩
  · rcases List.mem_append.mp hp with hp | hp
    · exact h.printed p hp
    · rw [List.mem_singleton.mp hp]
      exact ⟨m, hmsg, rfl⟩
  · have hconserved := h.conserved
    rw [← Multiset.cons_erase hmem,
      Multiset.filter_cons_of_pos _ (show ForClient cfg c.envelope from hdst)] at hconserved
    rw [List.map_append, ← Multiset.coe_add, add_assoc]
    exact hconserved

theorem Inv.begun (h : q.Inv cfg) {a : Envelope} (hfree : q.Unlinked a.dst)
    (ha : cfg.IsClient a.dst → ∃ m : ResponseMsg, a.msg = .response m ∧ m.Fits) :
    (∀ c ∈ q.calls ++ [Call.start a], c.Good cfg) ∧
      (q.calls ++ [Call.start a]).Pairwise fun c d => c.envelope.dst ≠ d.envelope.dst := by
  refine ⟨fun c hc => ?_, List.pairwise_append.mpr
    ⟨h.apart, List.pairwise_singleton _ _, fun c hc d hd => ?_⟩⟩
  · rcases List.mem_append.mp hc with hc | hc
    · exact h.calls c hc
    · rw [List.mem_singleton.mp hc]
      exact Call.Good.start ha
  · rw [List.mem_singleton.mp hd]
    exact (hfree c hc).2

theorem Unlinked.inbox {host : Host} (h : q.Unlinked host) :
    ∀ b ∈ q.inboxes.inbox, b.dst ≠ host := by
  intro b hb
  obtain ⟨c, hc, rfl⟩ := mem_undelivered hb
  exact (h c hc).2

theorem Inv.request (h : q.Inv cfg) (hne : cfg.repos ≠ []) (hadm : q.world.Admissible)
    {client : Host} {msg : Msg} (hstep : q.step cfg (.request client msg) = some q') :
    q'.Inv cfg ∧ q.inboxes.step cfg (.request client msg) = some q'.inboxes ∧
      q.inboxes.Alone cfg (.request client msg) := by
  simp only [Sockets.step] at hstep
  split_ifs at hstep with hfree
  obtain ⟨w, hw, rfl⟩ := Option.map_eq_some_iff.mp hstep
  have hserver : ¬ cfg.IsClient cfg.address := fun hclient => hclient.1 rfl
  have hinboxes : q.inboxes.step cfg (.request client msg) = some (Sockets.inboxes
      ⟨w, q.unsent, q.calls ++ [Call.start ⟨client, cfg.address, msg, 0⟩], q.printed⟩) := by
    show (q.world.step cfg (.request client msg)).map _ =
      some (Inboxes.mk w (undelivered (q.calls ++ [Call.start _])) q.unsent)
    rw [hw, undelivered_start]
    rfl
  obtain ⟨hcalls', hapart'⟩ := h.begun (a := ⟨client, cfg.address, msg, 0⟩) hfree.2.2
    fun hdst => absurd hdst hserver
  refine ⟨⟨h.inboxes.step hadm hne hinboxes, hcalls', hapart', h.printed, ?_⟩, hinboxes,
    Unlinked.inbox hfree.2.2⟩
  obtain ⟨-, -, rfl⟩ := step_request hw
  have hnot : ¬ ForClient cfg ⟨client, cfg.address, msg, 0⟩ := hserver
  rw [World.post_transit, World.post_sent, Multiset.filter_add, List.filter_append,
    Multiset.filter_coe, List.filter_cons_of_neg (by simpa using hnot), List.filter_nil,
    List.append_nil, Multiset.coe_nil, add_zero]
  exact h.conserved

theorem Inv.call (h : q.Inv cfg) (hne : cfg.repos ≠ []) (hadm : q.Admissible) {host : Host}
    (hstep : q.step cfg (.call host) = some q') :
    q'.Inv cfg ∧ q.inboxes.step cfg (.send host) = some q'.inboxes ∧
      q.inboxes.Alone cfg (.send host) := by
  obtain ⟨a, hfind, hstep⟩ := Option.bind_eq_some_iff.mp hstep
  have hsrc : a.src = host := by simpa using List.find?_some hfind
  have happart : a.dst ≠ host := hsrc ▸ hadm.apart a (List.mem_of_find?_eq_some hfind)
  rw [if_neg happart] at hstep
  split_ifs at hstep with hfree
  cases hstep
  have hinboxes : q.inboxes.step cfg (.send host) = some (Sockets.inboxes
      ⟨q.world, q.unsent.erase a, q.calls ++ [Call.start a], q.printed⟩) := by
    show (q.unsent.find? _).map _ =
      some (Inboxes.mk q.world (undelivered (q.calls ++ [Call.start a])) (q.unsent.erase a))
    rw [hfind, undelivered_start]
    rfl
  have hmem : a ∈ q.world.transit := by
    show a ∈ q.inboxes.world.transit
    rw [h.inboxes.transit]
    exact List.mem_append_right _ (List.mem_of_find?_eq_some hfind)
  have hanswer : cfg.IsClient a.dst → ∃ m : ResponseMsg, a.msg = .response m ∧ m.Fits := by
    intro hdst
    obtain ⟨m, hmsg⟩ := (h.inboxes.world.placed a hmem).response_of_client hdst
    have hfits := hadm.world.fits a hmem
    rw [hmsg] at hfits
    exact ⟨m, hmsg, hfits⟩
  obtain ⟨hcalls', hapart'⟩ := h.begun hfree.2.2 hanswer
  refine ⟨⟨h.inboxes.step hadm.world hne hinboxes, hcalls', hapart', h.printed, h.conserved⟩,
    hinboxes, fun b hb => ?_⟩
  have hfind' : q.unsent.find? (fun a => decide (a.src = host)) = some b := hb
  rw [hfind] at hfind'
  cases hfind'
  exact Unlinked.inbox hfree.2.2

theorem Inv.link_step (h : q.Inv cfg) (hne : cfg.repos ≠ []) (hadm : q.Admissible) {j : ℕ}
    {e : Link.Event} (horderly : q.Orderly cfg (.link j e))
    (hstep : q.step cfg (.link j e) = some q') :
    q'.Inv cfg ∧ (q'.inboxes = q.inboxes ∨
      ∃ host, q.inboxes.step cfg (.take host) = some q'.inboxes) := by
  obtain ⟨c, hc, hstep⟩ := Option.bind_eq_some_iff.mp hstep
  split_ifs at hstep with hbusy
  obtain ⟨l, hl, hstep⟩ := Option.bind_eq_some_iff.mp hstep
  obtain ⟨l₁, l₂, hcalls, hset, -⟩ := calls_split hc
  rw [hset] at hstep
  have hmem : c ∈ q.calls := by simp [hcalls]
  have hclean := hadm.clean c hmem
  have horderly : c.Orderly cfg e := horderly c hc
  have hidle : e = .packet ∨ e = .giveUp → q.Idle c.envelope.dst := fun he =>
    not_not.mp fun hidle => hbusy ⟨he, hidle⟩
  by_cases hdst : cfg.IsClient c.envelope.dst
  · unfold receive at hstep
    rw [if_pos hdst] at hstep
    obtain ⟨hgood, ⟨hsame, hend⟩ | ⟨hevent, hunheard, hnew, hend, m, hmsg, hprints⟩⟩ :=
      (h.calls c hmem).step_client hdst hclean horderly hl
    · rw [if_neg hend] at hstep
      cases hstep
      obtain ⟨hinv, hinboxes⟩ := h.quiet hcalls hgood hsame
      exact ⟨hinv, Or.inl hinboxes⟩
    · rw [if_pos hend, hprints] at hstep
      cases hstep
      obtain ⟨hinv, hinboxes⟩ := h.shown hne hadm.world hcalls hdst (hidle hevent) hgood hunheard
        hnew hmsg
      exact ⟨hinv, Or.inr ⟨_, hinboxes⟩⟩
  · unfold receive at hstep
    rw [if_neg hdst] at hstep
    obtain ⟨hgood, ⟨hsame, hnil⟩ | ⟨hevent, hunheard, hnew, r, hdrop, hdata⟩⟩ :=
      (h.calls c hmem).step_process hdst hclean horderly hl
    · obtain ⟨hinv, hinboxes⟩ := h.quiet hcalls hgood hsame
      have hq : q' = ⟨q.world, q.unsent, l₁ ++ ⟨c.envelope, l⟩ :: l₂, q.printed⟩ := by
        cases hdrop : l.returned.drop c.link.returned.length with
        | nil =>
          rw [hdrop] at hstep
          exact (Option.some.inj hstep).symm
        | cons r rest =>
          rw [hdrop] at hstep
          simp only [hnil r (by rw [hdrop]; exact List.mem_cons_self), World.hear_nil,
            Option.map_some, List.drop_length, List.append_nil] at hstep
          exact (Option.some.inj hstep).symm
      rw [hq]
      exact ⟨hinv, Or.inl hinboxes⟩
    · rw [hdrop] at hstep
      obtain ⟨w, hw, rfl⟩ := Option.map_eq_some_iff.mp hstep
      rw [hdata] at hw
      obtain ⟨hinv, hinboxes⟩ := h.heard hne hadm.world hcalls hdst (hidle hevent) hgood hunheard
        hnew hw
      exact ⟨hinv, Or.inr ⟨_, hinboxes⟩⟩

theorem Inv.finish (h : q.Inv cfg) {j : ℕ} (hstep : q.step cfg (.finish j) = some q') :
    q'.Inv cfg ∧ q'.inboxes = q.inboxes := by
  obtain ⟨c, hc, hstep⟩ := Option.bind_eq_some_iff.mp hstep
  split_ifs at hstep with hquiet
  cases hstep
  obtain ⟨l₁, l₂, hcalls, -, herase⟩ := calls_split hc
  have hfinished := (h.calls c (by simp [hcalls])).finished hquiet.1 hquiet.2
  have hinboxes : Sockets.inboxes ⟨q.world, q.unsent, q.calls.eraseIdx j, q.printed⟩ =
      q.inboxes := by
    show Inboxes.mk q.world (undelivered (q.calls.eraseIdx j)) q.unsent =
      ⟨q.world, undelivered q.calls, q.unsent⟩
    rw [herase, hcalls, undelivered_append, undelivered_append, undelivered_cons_of_neg hfinished]
  have hsub := List.eraseIdx_sublist q.calls j
  refine ⟨⟨?_, fun d hd => h.calls d (hsub.subset hd), h.apart.sublist hsub, h.printed,
    h.conserved⟩, hinboxes⟩
  rw [hinboxes]
  exact h.inboxes

/-- **One step** is one of the inboxes, or none. -/
theorem Inv.step (h : q.Inv cfg) (hne : cfg.repos ≠ []) (hadm : q.Admissible) {e : Event}
    (horderly : q.Orderly cfg e) (hstep : q.step cfg e = some q') :
    q'.Inv cfg ∧ (q'.inboxes = q.inboxes ∨ ∃ d, q.inboxes.step cfg d = some q'.inboxes ∧
      q.inboxes.Alone cfg d ∧ ∀ client msg, d = .request client msg → e = .request client msg) := by
  cases e with
  | request client msg =>
    obtain ⟨hinv, hinboxes, halone⟩ := h.request hne hadm.world hstep
    refine ⟨hinv, Or.inr ⟨_, hinboxes, halone, fun client' msg' heq => ?_⟩⟩
    cases heq
    rfl
  | call host =>
    obtain ⟨hinv, hinboxes, halone⟩ := h.call hne hadm hstep
    exact ⟨hinv, Or.inr ⟨_, hinboxes, halone, nofun⟩⟩
  | link j e =>
    obtain ⟨hinv, hsame | ⟨host, hinboxes⟩⟩ := h.link_step hne hadm horderly hstep
    · exact ⟨hinv, Or.inl hsame⟩
    · exact ⟨hinv, Or.inr ⟨_, hinboxes, trivial, nofun⟩⟩
  | finish j =>
    obtain ⟨hinv, hsame⟩ := h.finish hstep
    exact ⟨hinv, Or.inl hsame⟩

end Steps

end Sockets

/-! ## Whole runs -/

/-- **The deployment over its sockets is the one with inboxes.** In every run in which what is sent
fits the wire and has no newlines and NULs, no process sends to itself and every step of a link is
orderly, whatever else is lost, repeated or timed out, the processes are in a state that they come
to with inboxes that keep the order, each message handled once and whole. The clients have printed
the texts of the answers that are no longer in transit, each once. -/
theorem sockets_refine {cfg : Config} {q : Sockets} (hne : cfg.repos ≠ [])
    {es : List Sockets.Event}
    (hadm : Along (Sockets.step cfg) Sockets.Admissible (Sockets.start cfg) es)
    (horderly : Meets (Sockets.step cfg) (Sockets.Orderly cfg) (Sockets.start cfg) es)
    (hrun : run (Sockets.step cfg) (Sockets.start cfg) es = some q) :
    (∃ actions, run (Inboxes.step cfg) (Inboxes.start cfg) actions = some q.inboxes ∧
      Along (Inboxes.step cfg) (fun q => q.world.Admissible) (Inboxes.start cfg) actions ∧
      Meets (Inboxes.step cfg) (Inboxes.Alone cfg) (Inboxes.start cfg) actions) ∧
    (∀ p ∈ q.printed, ∃ m : ResponseMsg, p.1.msg = .response m ∧ p.2 = newlines m.message) ∧
    ↑(q.printed.map Prod.fst) + q.world.transit.filter (ForClient cfg) =
      (↑(q.world.sent.filter fun a => decide (ForClient cfg a)) : Multiset Envelope) := by
  obtain ⟨hinv, actions, hactions, hadm', halone⟩ := run_refines (f := Sockets.inboxes)
    (A := Sockets.Admissible) (I := Sockets.Inv cfg) (B := fun q => q.world.Admissible)
    (C := Sockets.Orderly cfg) (D := Inboxes.Alone cfg) (fun _ h => h.world)
    (fun s e s' hA _ hC hI hs => by
      obtain ⟨hI', hsame | ⟨d, hd, halone, -⟩⟩ := hI.step hne hA hC hs
      · exact ⟨hI', Or.inl hsame⟩
      · exact ⟨hI', Or.inr ⟨d, hd, halone⟩⟩)
    (Sockets.Inv.start cfg) hadm horderly hrun
  exact ⟨⟨actions, hactions, hadm', halone⟩, hinv.printed, hinv.conserved⟩

/-- The steps of a call whose packets and acknowledgements all arrive; `RecvFrom` gives up behind
the message if its last packet does not end it. -/
def carried (packets : ℕ) (long : Bool) : List Link.Event :=
  (List.replicate packets [.send, .packet, .ack]).flatten ++ if long then [.giveUp] else []

/-- The only call is made, has the steps `es`, and is over. -/
def callOf (e : Sockets.Event) (es : List Link.Event) : List Sockets.Event :=
  e :: es.map (.link 0) ++ [.finish 0]

/-- Client 7 creates a node; the first packet of the server is lost, and the first acknowledgement
of the repository's reply. -/
def createOverSockets : List Sockets.Event :=
  let server := oneRepository.address
  let repository : Host := ⟨str "10.0.0.2", 50001⟩
  callOf (.request (clientHost 7) (.node ⟨str "a", [], [], 0, []⟩)) (carried 1 true) ++
    callOf (.call server)
      ([.send, .losePacket 0, .giveUp, .resend, .packet, .ack] ++ carried 2 false) ++
    callOf (.call repository)
      ([.send, .packet, .loseAck 0, .resend, .packet, .ack] ++ carried 1 true) ++
    callOf (.call server) (carried 2 true)

theorem sockets_refine_lost : ∃ (q : Sockets) (b : Envelope),
    run (Sockets.step oneRepository) (Sockets.start oneRepository) createOverSockets = some q ∧
    q.printed = [(b, storedText)] ∧ b.dst = clientHost 7 ∧
    ∃ actions, run (Inboxes.step oneRepository) (Inboxes.start oneRepository) actions =
      some q.inboxes := by
  have hrun : ∃ q, run (Sockets.step oneRepository) (Sockets.start oneRepository)
      createOverSockets = some q ∧ q.printed.map (fun p => (p.1.dst, p.2)) =
        [(clientHost 7, storedText)] := exists_of_check (by decide +kernel)
  obtain ⟨q, hq, hprinted⟩ := hrun
  obtain ⟨⟨b, text⟩, hb, hpair⟩ := List.map_eq_singleton_iff.mp hprinted
  obtain ⟨hdst, rfl⟩ := Prod.mk.inj hpair
  obtain ⟨⟨actions, hactions, -⟩, -⟩ := sockets_refine (show oneRepository.repos ≠ [] by decide)
    (by decide +kernel) (by decide +kernel) hq
  exact ⟨q, b, hq, hb, hdst, actions, hactions⟩

end DGDB
