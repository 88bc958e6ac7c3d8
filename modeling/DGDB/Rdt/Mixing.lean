import Mathlib
import DGDB.Rdt.Link

/-!
# Several senders and one receiver

Any number of hosts run `SendTo` to one process that calls `RecvFrom` again and again. The datagrams
of each host arrive in order, and those of different hosts in any order. The expected bit of a call
is one for all hosts: the payloads stay apart exactly as long as the packets that reach a call suit
it.
-/

namespace DGDB.Rdt

open EventSystem StopAndWait

/-! ## The system -/

/-- A datagram in transit to the receiver, with the index of the packet it is a copy of. -/
structure Copy where
  index : ℕ
  text : Str
  deriving DecidableEq

/-- A call of `RecvFrom`, with the packets whose payloads it has appended: host and index. -/
structure Call where
  receiving : Receiving
  parts : List (Host × ℕ)
  deriving DecidableEq

namespace Call

def start : Call := ⟨Receiving.start, []⟩

/-- The call after the packet `index` of `host`, which has been appended if the bit has changed. -/
def next (c : Call) (host : Host) (index : ℕ) (receiving : Receiving) : Call :=
  ⟨receiving,
    if receiving.alternate_bit = c.receiving.alternate_bit then c.parts
    else c.parts ++ [(host, index)]⟩

end Call

structure Hub where
  sending : Host → Sending
  packets : Host → List Copy
  acks : Host → List Str
  current : Call
  returned : List Call
  /-- The packets for which a host has been sent an acknowledgement with their bit. -/
  acked : List (Host × ℕ)

namespace Hub

inductive Event
  | send (host : Host)
  | resend (host : Host)
  | ack (host : Host)
  | packet (host : Host)
  | giveUp

/-- Every host has been told to send its string. -/
def start (data : Host → Str) : Hub :=
  ⟨fun host => Sending.start (data host), fun _ => [], fun _ => [], Call.start, [], []⟩

/-- All calls of `RecvFrom`, the one that is running last. -/
def calls (q : Hub) : List Call := q.returned ++ [q.current]

def put (q : Hub) (host : Host) (p : Packet) : Hub :=
  { q with
    packets := Function.update q.packets host
      (q.packets host ++ [⟨(q.sending host).index, p.toText⟩]) }

/-- `RecvFrom` has handled the packet `index` of `host`. -/
def handled (q : Hub) (host : Host) (index : ℕ) (packets : List Copy) (receiving : Receiving)
    (ack : AckPacket) (returns : Bool) : Hub :=
  let call := q.current.next host index receiving
  { q with
    packets := Function.update q.packets host packets
    acks := Function.update q.acks host (q.acks host ++ [ack.toText])
    current := if returns then Call.start else call
    returned := if returns then q.returned ++ [call] else q.returned
    acked := if ack.ack_number = bit index then q.acked ++ [(host, index)] else q.acked }

def step (q : Hub) : Event → Option Hub
  | .send host =>
    match (q.sending host).current with
    | some p =>
      if (q.sending host).waiting then none
      else some { q.put host p with
        sending := Function.update q.sending host { q.sending host with waiting := true } }
    | none => none
  | .resend host =>
    match (q.sending host).current with
    | some p => if (q.sending host).waiting then some (q.put host p) else none
    | none => none
  | .ack host =>
    match (q.sending host).waiting, q.acks host with
    | true, a :: acks =>
      match (q.sending host).readAck (recvBuffer kMaxAckSize a) with
      | .ok sending => some { q with
          sending := Function.update q.sending host sending
          acks := Function.update q.acks host acks }
      | .error _ => none
    | _, _ => none
  | .packet host =>
    match q.packets host with
    | p :: packets =>
      match q.current.receiving.take host (recvBuffer kMaxPacketSize p.text) with
      | .ok (receiving, ack, returns) =>
        some (q.handled host p.index packets receiving ack returns)
      | .error _ => none
    | [] => none
  | .giveUp => some { q with current := Call.start, returned := q.returned ++ [q.current] }

/-! ## No mixing -/

/-- The payloads of a call come from the host whose address it returns, and a host is acknowledged
for a packet only if that packet has been appended to a message of that host. -/
structure Unmixed (data : Host → Str) (q : Hub) : Prop where
  spelled : ∀ c ∈ q.calls, c.receiving.data = c.parts.flatMap fun part => chunk (data part.1) part.2
  single : ∀ c ∈ q.calls, ∀ part ∈ c.parts, c.receiving.from_addr = some part.1
  appended : ∀ a ∈ q.acked, ∃ c ∈ q.calls, a ∈ c.parts ∧ c.receiving.from_addr = some a.1

/-- A packet that reaches the receiver suits the call that is running. If it has the bit the call
waits for, the call has received nothing yet or began with a datagram of the same host. If it has
the other bit, it repeats a packet that has been appended before. -/
def Suits (q : Hub) : Event → Prop
  | .packet host =>
    match q.packets host with
    | p :: _ =>
      if q.current.receiving.alternate_bit = bit p.index then
        q.current.receiving.from_addr = none ∨ q.current.receiving.from_addr = some host
      else ∃ c ∈ q.calls, (host, p.index) ∈ c.parts
    | [] => True
  | _ => True

instance decidableSuits (q : Hub) : DecidablePred q.Suits
  | .packet host =>
    match h : q.packets host with
    | [] => isTrue (by simp only [Suits, h])
    | p :: _ => decidable_of_iff
        (if q.current.receiving.alternate_bit = bit p.index then
          q.current.receiving.from_addr = none ∨ q.current.receiving.from_addr = some host
        else ∃ c ∈ q.calls, (host, p.index) ∈ c.parts) (by simp only [Suits, h])
  | .send _ => isTrue trivial
  | .resend _ => isTrue trivial
  | .ack _ => isTrue trivial
  | .giveUp => isTrue trivial

/-- What every step keeps, suitable or not. -/
structure Inv (data : Host → Str) (q : Hub) : Prop where
  string : ∀ host, (q.sending host).data = data host
  packets : ∀ host, ∀ p ∈ q.packets host, p.text = (Rdt.packet (data host) p.index).toText
  fresh : q.current.receiving.from_addr = none → q.current.parts = []
  spelled : ∀ c ∈ q.calls, c.receiving.data = c.parts.flatMap fun part => chunk (data part.1) part.2

section Steps

variable {data : Host → Str} {q q' : Hub} {host : Host}

theorem step_send (h : q.step (.send host) = some q') :
    ∃ p, (q.sending host).current = some p ∧ q' = { q.put host p with
      sending := Function.update q.sending host { q.sending host with waiting := true } } := by
  simp only [step] at h
  split at h
  · rename_i p hcurrent
    split_ifs at h
    exact ⟨p, hcurrent, (Option.some.inj h).symm⟩
  · cases h

theorem step_resend (h : q.step (.resend host) = some q') :
    ∃ p, (q.sending host).current = some p ∧ q' = q.put host p := by
  simp only [step] at h
  split at h
  · rename_i p hcurrent
    split_ifs at h
    exact ⟨p, hcurrent, (Option.some.inj h).symm⟩
  · cases h

theorem step_ack (h : q.step (.ack host) = some q') :
    ∃ a acks sending, (q.sending host).readAck (recvBuffer kMaxAckSize a) = .ok sending ∧
      q' = { q with
        sending := Function.update q.sending host sending
        acks := Function.update q.acks host acks } := by
  simp only [step] at h
  split at h
  · rename_i a acks _ _
    split at h
    · rename_i sending hread
      exact ⟨a, acks, sending, hread, (Option.some.inj h).symm⟩
    · cases h
  · cases h

theorem step_packet (h : q.step (.packet host) = some q') :
    ∃ p packets receiving ack returns, q.packets host = p :: packets ∧
      q.current.receiving.take host (recvBuffer kMaxPacketSize p.text) =
        .ok (receiving, ack, returns) ∧
      q' = q.handled host p.index packets receiving ack returns := by
  simp only [step] at h
  split at h
  · rename_i p packets hpackets
    split at h
    · rename_i receiving ack returns htake
      exact ⟨p, packets, receiving, ack, returns, hpackets, htake, (Option.some.inj h).symm⟩
    · cases h
  · cases h

theorem readAck_data {s s' : Sending} {ack_str : Str} (h : s.readAck ack_str = .ok s') :
    s'.data = s.data := by
  obtain ⟨ack_packet, -, h⟩ := bind_eq_ok.mp h
  split_ifs at h
  · cases h
    rfl
  · cases h
    rfl

theorem Inv.put (h : q.Inv data) {p : Packet} (hp : (q.sending host).current = some p) :
    ∀ host', ∀ c ∈ (q.put host p).packets host',
      c.text = (Rdt.packet (data host') c.index).toText := by
  obtain ⟨-, rfl⟩ := Sending.of_current hp
  intro host' c hc
  unfold Hub.put at hc
  by_cases heq : host' = host
  · subst heq
    simp only [Function.update_self] at hc
    rcases List.mem_append.mp hc with hc | hc
    · exact h.packets host' c hc
    · rw [List.mem_singleton.mp hc, h.string]
  · simp only [Function.update_of_ne heq] at hc
    exact h.packets host' c hc

theorem update_data (h : ∀ host, (q.sending host).data = data host) {s : Sending}
    (hs : s.data = data host) (host' : Host) :
    (Function.update q.sending host s host').data = data host' := by
  by_cases heq : host' = host
  · subst heq
    rw [Function.update_self]
    exact hs
  · rw [Function.update_of_ne heq]
    exact h host'

/-! ## Packets that reach the receiver -/

theorem mem_calls_handled {k : ℕ} {packets : List Copy} {receiving : Receiving} {ack : AckPacket}
    {returns : Bool} {c : Call} (h : c ∈ (q.handled host k packets receiving ack returns).calls) :
    c ∈ q.returned ∨ c = q.current.next host k receiving ∨ c = Call.start := by
  unfold handled calls at h
  cases returns
  · rcases List.mem_append.mp h with h | h
    · exact Or.inl h
    · exact Or.inr (Or.inl (List.mem_singleton.mp h))
  · rcases List.mem_append.mp h with h | h
    · rcases List.mem_append.mp h with h | h
      · exact Or.inl h
      · exact Or.inr (Or.inl (List.mem_singleton.mp h))
    · exact Or.inr (Or.inr (List.mem_singleton.mp h))

theorem returned_subset_handled {k : ℕ} {packets : List Copy} {receiving : Receiving}
    {ack : AckPacket} {returns : Bool} {c : Call}
    (h : c ∈ q.returned ∨ c = q.current.next host k receiving) :
    c ∈ (q.handled host k packets receiving ack returns).calls := by
  unfold handled calls
  cases returns
  · rcases h with h | rfl
    · exact List.mem_append_left _ h
    · exact List.mem_append_right _ (List.mem_singleton_self _)
  · rcases h with h | rfl
    · exact List.mem_append_left _ (List.mem_append_left _ h)
    · exact List.mem_append_left _ (List.mem_append_right _ (List.mem_singleton_self _))

theorem next_new {c : Call} {k : ℕ} {r : Receiving} (hbit : c.receiving.alternate_bit = bit k)
    (hr : r.alternate_bit = bit (k + 1)) : c.next host k r = ⟨r, c.parts ++ [(host, k)]⟩ := by
  unfold Call.next
  rw [hbit, hr, bit_succ, if_neg (Bool.not_ne_self _)]

theorem next_other {c : Call} {k : ℕ} {r : Receiving}
    (hr : r.alternate_bit = c.receiving.alternate_bit) : c.next host k r = ⟨r, c.parts⟩ := by
  unfold Call.next
  rw [if_pos hr]

/-- What a packet does: it is appended or it is not, and it is acknowledged with its bit. -/
theorem Inv.packet_cases (hclean : ∀ host, Clean (data host)) (h : q.Inv data)
    (hs : q.step (.packet host) = some q') :
    ∃ p packets receiving returns, q.packets host = p :: packets ∧
      q' = q.handled host p.index packets receiving ⟨0, 0, bit p.index⟩ returns ∧
      receiving.from_addr = some (q.current.receiving.from_addr.getD host) ∧
      ((q.current.receiving.alternate_bit = bit p.index ∧
        receiving.alternate_bit = bit (p.index + 1) ∧
        receiving.data = q.current.receiving.data ++ chunk (data host) p.index) ∨
      (q.current.receiving.alternate_bit ≠ bit p.index ∧
        receiving.alternate_bit = q.current.receiving.alternate_bit ∧
        receiving.data = q.current.receiving.data)) := by
  obtain ⟨p, packets, receiving, ack, returns, hpackets, htake, rfl⟩ := step_packet hs
  have htext : p.text = (Rdt.packet (data host) p.index).toText :=
    h.packets host p (by rw [hpackets]; exact List.mem_cons_self)
  rw [htext, Receiving.take_eq _ _ (parse_packet (hclean host) p.index)] at htake
  by_cases hbit : q.current.receiving.alternate_bit = bit p.index
  · rw [Receiving.accept_new host hbit] at htake
    cases htake
    exact ⟨p, packets, _, _, hpackets, rfl, rfl, Or.inl ⟨hbit, rfl, rfl⟩⟩
  · rw [Receiving.accept_other host (Bool.eq_not_of_ne hbit)] at htake
    cases htake
    exact ⟨p, packets, _, _, hpackets, rfl, rfl, Or.inr ⟨hbit, rfl, rfl⟩⟩

theorem Inv.handled {p : Copy} {packets : List Copy} {receiving : Receiving} {ack : AckPacket}
    {returns : Bool} (h : q.Inv data) (hpackets : q.packets host = p :: packets)
    (hfrom : receiving.from_addr ≠ none)
    (hdata : receiving.data = (q.current.next host p.index receiving).parts.flatMap
      fun part => chunk (data part.1) part.2) :
    (q.handled host p.index packets receiving ack returns).Inv data where
  string := h.string
  packets := by
    intro host' c hc
    apply h.packets host'
    unfold Hub.handled at hc
    by_cases heq : host' = host
    · subst heq
      simp only [Function.update_self] at hc
      rw [hpackets]
      exact List.mem_cons_of_mem _ hc
    · simp only [Function.update_of_ne heq] at hc
      exact hc
  fresh := by
    intro hnone
    unfold Hub.handled at *
    cases returns
    · exact absurd hnone hfrom
    · rfl
  spelled := by
    intro c hc
    rcases mem_calls_handled hc with hc | rfl | rfl
    · exact h.spelled c (List.mem_append_left _ hc)
    · exact hdata
    · rfl

/-- A packet keeps the payloads apart if the call it has reached comes from one host and some call
of its host has its payload. -/
theorem Unmixed.handled {k : ℕ} {packets : List Copy} {receiving : Receiving} {ack : AckPacket}
    {returns : Bool} (h : q.Unmixed data)
    (hinv : (q.handled host k packets receiving ack returns).Inv data)
    (hkeep : q.current.parts ⊆ (q.current.next host k receiving).parts)
    (hsingle : ∀ part ∈ (q.current.next host k receiving).parts,
      receiving.from_addr = some part.1)
    (happended : ∃ c ∈ (q.handled host k packets receiving ack returns).calls,
      (host, k) ∈ c.parts) :
    (q.handled host k packets receiving ack returns).Unmixed data := by
  have hall : ∀ c ∈ (q.handled host k packets receiving ack returns).calls, ∀ part ∈ c.parts,
      c.receiving.from_addr = some part.1 := by
    intro c hc part hpart
    rcases mem_calls_handled hc with hc | rfl | rfl
    · exact h.single c (List.mem_append_left _ hc) part hpart
    · exact hsingle part hpart
    · cases hpart
  refine ⟨hinv.spelled, hall, fun a ha => ?_⟩
  have hcall : ∃ c ∈ (q.handled host k packets receiving ack returns).calls, a ∈ c.parts := by
    by_cases hold : a ∈ q.acked
    · obtain ⟨c, hc, hpart, -⟩ := h.appended a hold
      rcases List.mem_append.mp hc with hc | hc
      · exact ⟨c, returned_subset_handled (Or.inl hc), hpart⟩
      · rw [List.mem_singleton.mp hc] at hpart
        exact ⟨_, returned_subset_handled (Or.inr rfl), hkeep hpart⟩
    · have hnew : a = (host, k) := by
        unfold Hub.handled at ha
        simp only at ha
        split_ifs at ha
        · rcases List.mem_append.mp ha with ha | ha
          · exact absurd ha hold
          · exact List.mem_singleton.mp ha
        · exact absurd ha hold
      rw [hnew]
      exact happended
  obtain ⟨c, hc, hpart⟩ := hcall
  exact ⟨c, hc, hpart, hall c hc a hpart⟩

theorem Inv.packet (hclean : ∀ host, Clean (data host)) (h : q.Inv data) (hu : q.Unmixed data)
    (hs : q.step (.packet host) = some q') :
    q'.Inv data ∧ (q'.Unmixed data ↔ q.Suits (.packet host)) := by
  have hcurrent : q.current ∈ q.calls := List.mem_append_right _ (List.mem_singleton_self _)
  have hdata := h.spelled q.current hcurrent
  obtain ⟨p, packets, receiving, returns, hpackets, rfl, hfrom, ⟨hbit, hnew, happend⟩ |
    ⟨hbit, hsame, hkeep⟩⟩ := h.packet_cases hclean hs
  · -- appended: the call must be one of this host
    have hnext : q.current.next host p.index receiving =
        ⟨receiving, q.current.parts ++ [(host, p.index)]⟩ := next_new hbit hnew
    have hinv :
        (q.handled host p.index packets receiving ⟨0, 0, bit p.index⟩ returns).Inv data := by
      apply h.handled hpackets
      · rw [hfrom]
        exact Option.some_ne_none _
      · rw [hnext, List.flatMap_append, ← hdata, happend]
        simp
    refine ⟨hinv, ?_⟩
    simp only [Suits, hpackets, if_pos hbit]
    constructor
    · intro hu'
      have hsingle := hu'.single _ (returned_subset_handled (Or.inr rfl)) (host, p.index)
        (by rw [hnext]; simp)
      rw [hnext, hfrom] at hsingle
      cases hfirst : q.current.receiving.from_addr with
      | none => exact Or.inl rfl
      | some from_addr =>
        rw [hfirst] at hsingle
        exact Or.inr hsingle
    · intro hsuits
      refine hu.handled hinv (by rw [hnext]; exact List.subset_append_left _ _) ?_
        ⟨_, returned_subset_handled (Or.inr rfl), by rw [hnext]; simp⟩
      rw [hnext, hfrom]
      intro part hpart
      rcases hsuits with hfirst | hfirst
      · rw [h.fresh hfirst] at hpart
        rw [List.mem_singleton.mp hpart, hfirst]
        rfl
      · rw [hfirst]
        rcases List.mem_append.mp hpart with hpart | hpart
        · exact hfirst.symm.trans (hu.single _ hcurrent part hpart)
        · rw [List.mem_singleton.mp hpart]
          rfl
  · -- acknowledged as a repeat: it must be one
    have hnext : q.current.next host p.index receiving = ⟨receiving, q.current.parts⟩ :=
      next_other hsame
    have hinv :
        (q.handled host p.index packets receiving ⟨0, 0, bit p.index⟩ returns).Inv data := by
      apply h.handled hpackets
      · rw [hfrom]
        exact Option.some_ne_none _
      · rw [hnext, hkeep]
        exact hdata
    refine ⟨hinv, ?_⟩
    simp only [Suits, hpackets, if_neg hbit]
    constructor
    · intro hu'
      obtain ⟨c, hc, hpart, -⟩ := hu'.appended (host, p.index) (by simp [Hub.handled])
      rcases mem_calls_handled hc with hc | rfl | rfl
      · exact ⟨c, List.mem_append_left _ hc, hpart⟩
      · rw [hnext] at hpart
        exact ⟨q.current, hcurrent, hpart⟩
      · cases hpart
    · rintro ⟨c, hc, hpart⟩
      refine hu.handled hinv (by rw [hnext]; exact List.Subset.refl _) ?_ ?_
      · rw [hnext, hfrom]
        intro part hpart
        rw [hu.single _ hcurrent part hpart]
        rfl
      · rcases List.mem_append.mp hc with hc | hc
        · exact ⟨c, returned_subset_handled (Or.inl hc), hpart⟩
        · rw [List.mem_singleton.mp hc] at hpart
          exact ⟨_, returned_subset_handled (Or.inr rfl), by rw [hnext]; exact hpart⟩

/-! ## Runs -/

theorem Inv.start (data : Host → Str) : (start data).Inv data where
  string _ := rfl
  packets := by
    intro host p hp
    cases hp
  fresh _ := rfl
  spelled := by
    intro c hc
    rw [List.mem_singleton.mp hc]
    rfl

theorem Unmixed.start (data : Host → Str) : (start data).Unmixed data where
  spelled := (Inv.start data).spelled
  single := by
    intro c hc part hpart
    rw [List.mem_singleton.mp hc] at hpart
    cases hpart
  appended := by
    intro a ha
    cases ha

theorem Unmixed.giveUp (h : q.Unmixed data) (hs : q.step .giveUp = some q') : q'.Unmixed data := by
  cases hs
  have hcalls : ∀ c, c ∈ q.calls ++ [Call.start] → c ∈ q.calls ∨ c = Call.start := by simp
  refine ⟨fun c hc => ?_, fun c hc part hpart => ?_, fun a ha => ?_⟩
  · rcases hcalls c hc with hc | rfl
    · exact h.spelled c hc
    · rfl
  · rcases hcalls c hc with hc | rfl
    · exact h.single c hc part hpart
    · cases hpart
  · obtain ⟨c, hc, hpart⟩ := h.appended a ha
    exact ⟨c, List.mem_append_left _ hc, hpart⟩

/-- One step: the payloads stay apart exactly if the packet it brings suits the call. -/
theorem Unmixed.step (hclean : ∀ host, Clean (data host)) {e : Event} (h : q.Inv data)
    (hu : q.Unmixed data) (hs : q.step e = some q') :
    q'.Inv data ∧ (q'.Unmixed data ↔ q.Suits e) := by
  cases e with
  | send host =>
    obtain ⟨p, hp, rfl⟩ := step_send hs
    refine ⟨⟨update_data h.string (h.string host), h.put hp, h.fresh, h.spelled⟩, ?_⟩
    exact iff_of_true ⟨hu.spelled, hu.single, hu.appended⟩ trivial
  | resend host =>
    obtain ⟨p, hp, rfl⟩ := step_resend hs
    refine ⟨⟨h.string, h.put hp, h.fresh, h.spelled⟩, ?_⟩
    exact iff_of_true ⟨hu.spelled, hu.single, hu.appended⟩ trivial
  | ack host =>
    obtain ⟨a, acks, sending, hread, rfl⟩ := step_ack hs
    have hstring := (readAck_data hread).trans (h.string host)
    refine ⟨⟨update_data h.string hstring, h.packets, h.fresh, h.spelled⟩, ?_⟩
    exact iff_of_true ⟨hu.spelled, hu.single, hu.appended⟩ trivial
  | packet host => exact h.packet hclean hu hs
  | giveUp =>
    have hu' := hu.giveUp hs
    refine ⟨?_, iff_of_true hu' trivial⟩
    cases hs
    exact ⟨h.string, h.packets, fun _ => rfl, hu'.spelled⟩

end Steps

/-- **The senders stay apart** in every state of a run, exactly if every packet that reaches the
receiver suits the call that is running. -/
theorem senders_unmixed_iff {data : Host → Str} (hclean : ∀ host, Clean (data host))
    (es : List Event) :
    Along step (Unmixed data) (start data) es ↔ Meets step Suits (start data) es :=
  along_iff_meets (fun _ _ _ h hu hs => hu.step hclean h hs) (Inv.start data) (Unmixed.start data)

def one : Host := ⟨str "127.0.0.1", 5001⟩
def two : Host := ⟨str "127.0.0.1", 5002⟩

def twoStrings (host : Host) : Str :=
  if host = one then str "twenty bytes of one, rest of one"
  else if host = two then str "twenty bytes of two, the rest"
  else []

theorem clean_twoStrings (host : Host) : Clean (twoStrings host) := by
  unfold twoStrings
  split_ifs
  · decide
  · decide
  · exact ⟨List.not_mem_nil, List.not_mem_nil⟩

/-- Both hosts send their first packet; then `two` sends its second. -/
def interleaved : List Event :=
  [.send one, .send two, .packet one, .packet two, .ack two, .send two, .packet two]

/-- **The senders are mixed**: the call returns the address of `one` and the end of the string of
`two`, whose first packet has been acknowledged and appended nowhere. -/
theorem senders_mixed : (∀ host, Clean (twoStrings host)) ∧
    ∃ q, run step (start twoStrings) interleaved = some q ∧
      q.calls = [⟨⟨str "twenty bytes of one, the rest", false, some one⟩, [(one, 0), (two, 1)]⟩,
        Call.start] ∧
      (two, 0) ∈ q.acked ∧ ¬ q.Unmixed twoStrings := by
  have hrun : ∃ q, run step (start twoStrings) interleaved = some q ∧
      q.calls = [⟨⟨str "twenty bytes of one, the rest", false, some one⟩, [(one, 0), (two, 1)]⟩,
        Call.start] ∧
      (two, 0) ∈ q.acked := exists_of_check (by decide +kernel)
  obtain ⟨q, hq, hcalls, hacked⟩ := hrun
  refine ⟨clean_twoStrings, q, hq, hcalls, hacked, fun hu => ?_⟩
  obtain ⟨c, hc, hpart, -⟩ := hu.appended _ hacked
  rw [hcalls] at hc
  rcases List.mem_cons.mp hc with rfl | hc
  · exact absurd hpart (by decide +kernel)
  · rw [List.mem_singleton.mp hc] at hpart
    cases hpart

/-- The two strings one after the other, with a packet that is sent twice. -/
def inTurns : List Event :=
  [.send one, .packet one, .ack one, .send one, .packet one, .ack one, .giveUp,
    .send two, .packet two, .resend two, .packet two, .ack two]

theorem senders_unmixed_turns :
    ∃ q, run step (start twoStrings) inTurns = some q ∧ q.Unmixed twoStrings := by
  have hrun : ∃ q, run step (start twoStrings) inTurns = some q ∧ q.acks two ≠ [] :=
    exists_of_check (by decide +kernel)
  obtain ⟨q, hq, -⟩ := hrun
  exact ⟨q, hq, ((senders_unmixed_iff clean_twoStrings inTurns).mpr (by decide +kernel)).last hq⟩

end Hub

end DGDB.Rdt
