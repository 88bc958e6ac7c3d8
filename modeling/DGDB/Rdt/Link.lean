import Mathlib
import DGDB.Lib.Run
import DGDB.Rdt.Packet

/-!
# `SendTo`, `RecvFrom` and the channels between them

One turn of the wait loop of `SendTo` and one turn of the loop of `RecvFrom`, and a link: a process
that passes strings to successive calls of `SendTo`, one that calls `RecvFrom`, and the datagrams in
transit between them in the order in which they were sent.
-/

namespace DGDB.Rdt

open EventSystem StopAndWait

/-! ## The two loops -/

/-- The variables of `SendTo`: the string, the packet it is at, and whether that packet has been
sent and its acknowledgement is waited for. -/
structure Sending where
  data : Str
  index : ℕ
  alternate_bit : Bool
  waiting : Bool
  deriving DecidableEq

namespace Sending

def start (data : Str) : Sending := ⟨data, 0, false, false⟩

/-- The packet `SendTo` is at; none once it returns. -/
def current (s : Sending) : Option Packet := (makePackets s.data)[s.index]?

/-- What `SendTo` does with a datagram it receives while it waits. -/
def readAck (s : Sending) (ack_str : Str) : Result Sending := do
  let ack_packet ← AckPacket.parse ack_str
  if ack_packet.ack_number = s.alternate_bit then
    return ⟨s.data, s.index + 1, !s.alternate_bit, false⟩
  else return s

section Current

variable {s : Sending}

theorem current_of_lt (h : s.index < chunkCount s.data) :
    s.current = some (packet s.data s.index) := getElem?_makePackets h

theorem of_current {p : Packet} (h : s.current = some p) :
    s.index < chunkCount s.data ∧ p = packet s.data s.index := by
  by_cases hlt : s.index < chunkCount s.data
  · rw [current_of_lt hlt] at h
    exact ⟨hlt, (Option.some.inj h).symm⟩
  · unfold current at h
    rw [getElem?_makePackets_none (not_lt.mp hlt)] at h
    cases h

theorem le_of_current (h : s.current = none) : chunkCount s.data ≤ s.index := by
  by_contra hlt
  rw [current_of_lt (not_le.mp hlt)] at h
  cases h

end Current

end Sending

/-- The variables of `RecvFrom`. `from_addr` is set by the first datagram of the call. -/
structure Receiving where
  data : Str
  alternate_bit : Bool
  from_addr : Option Host
  deriving DecidableEq

namespace Receiving

def start : Receiving := ⟨[], false, none⟩

/-- What `RecvFrom` does with a packet from `from_addr`: the acknowledgement it sends there, and
whether it returns. -/
def accept (r : Receiving) (from_addr : Host) (packet : Packet) : Receiving × AckPacket × Bool :=
  let from_addr := r.from_addr.getD from_addr
  if packet.sequence_number = r.alternate_bit ∧ isCorrupt packet = false then
    (⟨r.data ++ packet.data, !r.alternate_bit, some from_addr⟩, ⟨0, 0, r.alternate_bit⟩,
      decide (packet.len < 10))
  else
    (⟨r.data, r.alternate_bit, some from_addr⟩, ⟨0, 0, !r.alternate_bit⟩, decide (packet.len < 10))

/-- What `RecvFrom` does with a datagram. -/
def take (r : Receiving) (from_addr : Host) (s_buffer : Str) :
    Result (Receiving × AckPacket × Bool) := do
  return r.accept from_addr (← Packet.parse s_buffer)

theorem accept_new {r : Receiving} {data : Str} {k : ℕ} (from_addr : Host)
    (hbit : r.alternate_bit = bit k) :
    r.accept from_addr (packet data k) = (⟨r.data ++ chunk data k, bit (k + 1),
      some (r.from_addr.getD from_addr)⟩, ⟨0, 0, bit k⟩, decide ((chunk data k).length < 10)) := by
  unfold accept
  rw [hbit, if_pos ⟨rfl, isCorrupt_packet data k⟩, bit_succ]
  rfl

theorem accept_other {r : Receiving} {data : Str} {k : ℕ} (from_addr : Host)
    (hbit : r.alternate_bit = !bit k) :
    r.accept from_addr (packet data k) = (⟨r.data, r.alternate_bit,
      some (r.from_addr.getD from_addr)⟩, ⟨0, 0, bit k⟩, decide ((chunk data k).length < 10)) := by
  have hne : ¬ ((packet data k).sequence_number = r.alternate_bit ∧
      isCorrupt (packet data k) = false) := by
    rw [hbit]
    rintro ⟨h, -⟩
    exact Bool.not_ne_self _ h.symm
  unfold accept
  rw [if_neg hne, hbit, Bool.not_not]
  rfl

/-- Every packet of a string is acknowledged with its own bit. -/
theorem accept_ack (r : Receiving) (from_addr : Host) (data : Str) (k : ℕ) :
    (r.accept from_addr (packet data k)).2 =
      (⟨0, 0, bit k⟩, decide ((chunk data k).length < 10)) := by
  rcases Bool.eq_or_eq_not r.alternate_bit (bit k) with h | h
  · rw [accept_new from_addr h]
  · rw [accept_other from_addr h]

theorem take_eq {s_buffer : Str} {p : Packet} (r : Receiving) (from_addr : Host)
    (hparse : Packet.parse s_buffer = .ok p) :
    r.take from_addr s_buffer = .ok (r.accept from_addr p) := by
  unfold take
  rw [hparse, ok_bind]
  rfl

end Receiving

/-! ## The link -/

/-- A string that a call of `RecvFrom` has returned. -/
structure Return where
  data : Str
  timedOut : Bool
  deriving DecidableEq

structure Link where
  /-- The strings of the calls of `SendTo` still to come. -/
  messages : List Str
  sending : Sending
  receiving : Receiving
  returned : List Return
  packets : List Str
  acks : List Str

namespace Link

inductive Event
  /-- `SendTo` is called with the next string. -/
  | call
  /-- `SendTo` sends the packet it has come to. -/
  | send
  /-- The timeout of `SendTo`: it sends its packet again. -/
  | resend
  /-- `SendTo` receives a datagram. -/
  | ack
  /-- `RecvFrom` receives a datagram. -/
  | packet
  /-- The timeout of `RecvFrom`. -/
  | giveUp
  | losePacket (j : ℕ)
  | loseAck (j : ℕ)
  | repeatPacket (j : ℕ)
  | repeatAck (j : ℕ)
  deriving DecidableEq

/-- The first string has been passed to `SendTo`, and `RecvFrom` has been called. -/
def start (data : Str) (messages : List Str) : Link :=
  ⟨messages, Sending.start data, Receiving.start, [], [], []⟩

/-- `RecvFrom` returns `data`. -/
def done (q : Link) (data : Str) (timedOut : Bool) : Link :=
  { q with returned := q.returned ++ [⟨data, timedOut⟩], receiving := Receiving.start }

/-- One step. `again` says whether `RecvFrom` is called again when it has returned; an exception of
`stoi` ends the process, so there is no step. -/
def step (again : Bool) (q : Link) : Event → Option Link
  | .call =>
    match q.sending.current, q.messages with
    | none, m :: messages => some { q with messages := messages, sending := Sending.start m }
    | _, _ => none
  | .send =>
    match q.sending.current with
    | some p =>
      if q.sending.waiting then none
      else some { q with
        sending := { q.sending with waiting := true }
        packets := q.packets ++ [p.toText] }
    | none => none
  | .resend =>
    match q.sending.current with
    | some p =>
      if q.sending.waiting then some { q with packets := q.packets ++ [p.toText] } else none
    | none => none
  | .ack =>
    match q.sending.waiting, q.acks with
    | true, a :: acks =>
      match q.sending.readAck (recvBuffer kMaxAckSize a) with
      | .ok sending => some { q with sending := sending, acks := acks }
      | .error _ => none
    | _, _ => none
  | .packet =>
    match again || q.returned.isEmpty, q.packets with
    | true, p :: packets =>
      -- the address of the only sender
      match q.receiving.take ⟨[], 0⟩ (recvBuffer kMaxPacketSize p) with
      | .ok (receiving, ack, returns) =>
        let q := { q with
          receiving := receiving
          packets := packets
          acks := q.acks ++ [ack.toText] }
        some (if returns then q.done receiving.data false else q)
      | .error _ => none
    | _, _ => none
  | .giveUp =>
    if again || q.returned.isEmpty then some (q.done q.receiving.data true) else none
  | .losePacket j =>
    if j < q.packets.length then some { q with packets := q.packets.eraseIdx j } else none
  | .loseAck j => if j < q.acks.length then some { q with acks := q.acks.eraseIdx j } else none
  | .repeatPacket j =>
    if j < q.packets.length then some { q with packets := repeatAt j q.packets } else none
  | .repeatAck j => if j < q.acks.length then some { q with acks := repeatAt j q.acks } else none

section Steps

variable {again : Bool} {q q' : Link}

theorem step_call (h : q.step again .call = some q') :
    q.sending.current = none ∧ ∃ m messages, q.messages = m :: messages ∧
      q' = { q with messages := messages, sending := Sending.start m } := by
  simp only [step] at h
  split at h
  · rename_i hcurrent hmessages
    exact ⟨hcurrent, _, _, hmessages, (Option.some.inj h).symm⟩
  · cases h

theorem step_send (h : q.step again .send = some q') :
    q.sending.waiting = false ∧ ∃ p, q.sending.current = some p ∧
      q' = { q with
        sending := { q.sending with waiting := true }
        packets := q.packets ++ [p.toText] } := by
  simp only [step] at h
  split at h
  · rename_i p hcurrent
    split_ifs at h with hwaiting
    exact ⟨by simpa using hwaiting, p, hcurrent, (Option.some.inj h).symm⟩
  · cases h

theorem step_resend (h : q.step again .resend = some q') :
    q.sending.waiting = true ∧ ∃ p, q.sending.current = some p ∧
      q' = { q with packets := q.packets ++ [p.toText] } := by
  simp only [step] at h
  split at h
  · rename_i p hcurrent
    split_ifs at h with hwaiting
    exact ⟨hwaiting, p, hcurrent, (Option.some.inj h).symm⟩
  · cases h

theorem step_ack (h : q.step again .ack = some q') :
    q.sending.waiting = true ∧ ∃ a acks sending, q.acks = a :: acks ∧
      q.sending.readAck (recvBuffer kMaxAckSize a) = .ok sending ∧
      q' = { q with sending := sending, acks := acks } := by
  simp only [step] at h
  split at h
  · rename_i a acks hwaiting hacks
    split at h
    · rename_i sending hread
      exact ⟨hwaiting, a, acks, sending, hacks, hread, (Option.some.inj h).symm⟩
    · cases h
  · cases h

theorem step_packet (h : q.step again .packet = some q') :
    (again || q.returned.isEmpty) = true ∧ ∃ p packets receiving ack returns,
      q.packets = p :: packets ∧
      q.receiving.take ⟨[], 0⟩ (recvBuffer kMaxPacketSize p) = .ok (receiving, ack, returns) ∧
      q' = if returns then
          { q with
            receiving := receiving
            packets := packets
            acks := q.acks ++ [ack.toText] : Link }.done receiving.data false
        else { q with
          receiving := receiving
          packets := packets
          acks := q.acks ++ [ack.toText] } := by
  simp only [step] at h
  split at h
  · rename_i p packets hagain hpackets
    split at h
    · rename_i receiving ack returns htake
      exact ⟨hagain, p, packets, receiving, ack, returns, hpackets, htake, (Option.some.inj h).symm⟩
    · cases h
  · cases h

theorem step_giveUp (h : q.step again .giveUp = some q') :
    (again || q.returned.isEmpty) = true ∧ q' = q.done q.receiving.data true := by
  simp only [step] at h
  split_ifs at h with hagain
  exact ⟨hagain, (Option.some.inj h).symm⟩

end Steps

end Link

end DGDB.Rdt
