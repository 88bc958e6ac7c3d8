import Mathlib
import DGDB.Rdt.Link

/-!
# What reaches `SendTo` while it waits

A process sends a string, and what others send to it comes in through the same socket: the
acknowledgements of the destination, those for earlier strings, the packets of peers, and its own
packets when the destination is the address the process is bound to. The network may lose, repeat
and reorder datagrams.
-/

namespace DGDB.Rdt

open EventSystem StopAndWait

/-! ## The system -/

/-- A datagram at the socket of the process. -/
inductive Datagram
  /-- The answer of the destination's `RecvFrom` to the packet `k` of the string. -/
  | ack (k : ℕ) (ack : AckPacket)
  /-- The answer to a packet of an earlier string. -/
  | earlier (ack : AckPacket)
  | packet (host : Host) (p : Packet)
  deriving DecidableEq

def Datagram.text : Datagram → Str
  | .ack _ a => a.toText
  | .earlier a => a.toText
  | .packet _ p => p.toText

/-- An answer to a packet has its bit only if the packet has been accepted. -/
def Datagram.Answers (accepted : List ℕ) : Datagram → Prop
  | .ack k a => (∃ b, a = ⟨0, 0, b⟩) ∧ (a.ack_number = bit k → k ∈ accepted)
  | .earlier a => ∃ b, a = ⟨0, 0, b⟩
  | .packet _ _ => True

theorem Datagram.Answers.mono {accepted accepted' : List ℕ} {d : Datagram}
    (h : d.Answers accepted) (hsub : accepted ⊆ accepted') : d.Answers accepted' := by
  cases d with
  | ack k a => exact ⟨h.1, fun hbit => hsub (h.2 hbit)⟩
  | earlier a => exact h
  | packet host p => trivial

structure Exchange where
  /-- The address the process is bound to. -/
  host : Host
  destination : Host
  sending : Sending
  /-- The packets that have been sent to the destination, with their indices. -/
  packets : List (ℕ × Packet)
  /-- The running call of `RecvFrom` at the destination. -/
  receiving : Receiving
  /-- The packets of the string that `RecvFrom` has accepted. -/
  accepted : List ℕ
  /-- The answers to them. -/
  acks : List Datagram
  /-- The queue of the socket. -/
  inbox : List Datagram
  /-- What `SendTo` has received from the socket. -/
  taken : List Datagram

namespace Exchange

inductive Event
  | send
  | resend
  /-- `SendTo` receives the first datagram of the queue. -/
  | read
  /-- The destination's `RecvFrom` receives a packet of the string. -/
  | packet (j : ℕ)
  /-- The destination's `RecvFrom` receives any other datagram. -/
  | other (host : Host) (text : Str)
  | giveUp
  /-- An answer of the destination arrives at the socket. -/
  | ack (j : ℕ)
  /-- A packet that the process has sent to itself arrives. -/
  | own (j : ℕ)
  /-- A packet of a peer arrives: the packet `k` of the string `data`. -/
  | peer (host : Host) (data : Str) (k : ℕ)
  | earlier (ack_number : Bool)

/-- `SendTo` is called; the destination is in some call of `RecvFrom`. -/
def start (host destination : Host) (data : Str) (receiving : Receiving) : Exchange :=
  ⟨host, destination, Sending.start data, [], receiving, [], [], [], []⟩

def put (q : Exchange) (p : Packet) : Exchange :=
  { q with packets := q.packets ++ [(q.sending.index, p)] }

def arrive (q : Exchange) (d : Datagram) : Exchange := { q with inbox := q.inbox ++ [d] }

/-- One step. A process that sends to itself is in `SendTo` and not in `RecvFrom`. -/
def step (q : Exchange) : Event → Option Exchange
  | .send =>
    match q.sending.current with
    | some p =>
      if q.sending.waiting then none
      else some { q.put p with sending := { q.sending with waiting := true } }
    | none => none
  | .resend =>
    match q.sending.current with
    | some p => if q.sending.waiting then some (q.put p) else none
    | none => none
  | .read =>
    match q.sending.waiting, q.inbox with
    | true, d :: inbox =>
      match q.sending.readAck (recvBuffer kMaxAckSize d.text) with
      | .ok sending => some { q with sending := sending, inbox := inbox, taken := q.taken ++ [d] }
      | .error _ => none
    | _, _ => none
  | .packet j =>
    match q.packets[j]? with
    | some (k, p) =>
      if q.destination = q.host then none
      else match q.receiving.take q.host (recvBuffer kMaxPacketSize p.toText) with
        | .ok (receiving, ack, returns) => some { q with
            receiving := if returns then Receiving.start else receiving
            accepted := if receiving.alternate_bit = q.receiving.alternate_bit then q.accepted
              else q.accepted ++ [k]
            acks := q.acks ++ [.ack k ack] }
        | .error _ => none
    | none => none
  | .other host text =>
    if q.destination = q.host then none
    else match q.receiving.take host (recvBuffer kMaxPacketSize text) with
      | .ok (receiving, _, returns) =>
        some { q with receiving := if returns then Receiving.start else receiving }
      | .error _ => none
  | .giveUp => if q.destination = q.host then none else some { q with receiving := Receiving.start }
  | .ack j => q.acks[j]?.map q.arrive
  | .own j =>
    if q.destination = q.host then q.packets[j]?.map fun c => q.arrive (.packet q.host c.2)
    else none
  | .peer host data k => (makePackets data)[k]?.map fun p => q.arrive (.packet host p)
  | .earlier ack_number => some (q.arrive (.earlier ⟨0, 0, ack_number⟩))

/-! ## Success means delivery -/

/-- `SendTo` has gone past accepted packets only, and has received no packet. -/
structure Delivered (q : Exchange) : Prop where
  passed : ∀ k < q.sending.index, k ∈ q.accepted
  returned : q.sending.current = none → ∀ k < chunkCount q.sending.data, k ∈ q.accepted
  kept : ∀ host p, .packet host p ∉ q.taken

/-- What `SendTo` receives is an answer and, if it has the bit that is waited for, the answer to the
packet it is at; and a packet that `RecvFrom` has not accepted before has the bit its call waits
for. -/
def Undisturbed (q : Exchange) : Event → Prop
  | .read =>
    match q.inbox with
    | .ack k a :: _ => a.ack_number = q.sending.alternate_bit → k = q.sending.index
    | .earlier a :: _ => a.ack_number ≠ q.sending.alternate_bit
    | .packet _ _ :: _ => False
    | [] => True
  | .packet j => ∀ c ∈ q.packets[j]?, q.receiving.alternate_bit ≠ bit c.1 → c.1 ∈ q.accepted
  | _ => True

structure Inv (data : Str) (q : Exchange) : Prop where
  string : q.sending.data = data
  turn : q.sending.alternate_bit = bit q.sending.index
  packets : ∀ c ∈ q.packets, c.2 = Rdt.packet data c.1
  acks : ∀ d ∈ q.acks, d.Answers q.accepted
  inbox : ∀ d ∈ q.inbox, d.Answers q.accepted
  delivered : q.Delivered

section Steps

variable {data : Str} {q q' : Exchange}

theorem step_send (h : q.step .send = some q') : ∃ p, q.sending.current = some p ∧
    q' = { q.put p with sending := { q.sending with waiting := true } } := by
  simp only [step] at h
  split at h
  · rename_i p hcurrent
    split_ifs at h
    exact ⟨p, hcurrent, (Option.some.inj h).symm⟩
  · cases h

theorem step_resend (h : q.step .resend = some q') :
    ∃ p, q.sending.current = some p ∧ q' = q.put p := by
  simp only [step] at h
  split at h
  · rename_i p hcurrent
    split_ifs at h
    exact ⟨p, hcurrent, (Option.some.inj h).symm⟩
  · cases h

theorem step_read (h : q.step .read = some q') :
    ∃ d inbox sending, q.inbox = d :: inbox ∧
      q.sending.readAck (recvBuffer kMaxAckSize d.text) = .ok sending ∧
      q' = { q with sending := sending, inbox := inbox, taken := q.taken ++ [d] } := by
  simp only [step] at h
  split at h
  · rename_i d inbox _ hinbox
    split at h
    · rename_i sending hread
      exact ⟨d, inbox, sending, hinbox, hread, (Option.some.inj h).symm⟩
    · cases h
  · cases h

theorem step_packet {j : ℕ} (h : q.step (.packet j) = some q') :
    ∃ k p receiving ack returns, q.packets[j]? = some (k, p) ∧
      q.receiving.take q.host (recvBuffer kMaxPacketSize p.toText) =
        .ok (receiving, ack, returns) ∧
      q' = { q with
        receiving := if returns then Receiving.start else receiving
        accepted := if receiving.alternate_bit = q.receiving.alternate_bit then q.accepted
          else q.accepted ++ [k]
        acks := q.acks ++ [.ack k ack] } := by
  simp only [step] at h
  split at h
  · rename_i k p hp
    split_ifs at h
    split at h
    · rename_i receiving ack returns htake
      exact ⟨k, p, receiving, ack, returns, hp, htake, (Option.some.inj h).symm⟩
    · cases h
  · cases h

theorem step_other {host : Host} {text : Str} (h : q.step (.other host text) = some q') :
    ∃ receiving, q' = { q with receiving := receiving } := by
  simp only [step] at h
  split_ifs at h
  split at h
  · exact ⟨_, (Option.some.inj h).symm⟩
  · cases h

theorem step_giveUp (h : q.step .giveUp = some q') :
    ∃ receiving, q' = { q with receiving := receiving } := by
  simp only [step] at h
  split_ifs at h
  exact ⟨_, (Option.some.inj h).symm⟩

theorem accept_cases (r : Receiving) (from_addr : Host) (p : Packet) :
    ((r.accept from_addr p).1.alternate_bit ≠ r.alternate_bit ∧
      (r.accept from_addr p).2.1 = ⟨0, 0, r.alternate_bit⟩) ∨
    ((r.accept from_addr p).1.alternate_bit = r.alternate_bit ∧
      (r.accept from_addr p).2.1 = ⟨0, 0, !r.alternate_bit⟩) := by
  unfold Receiving.accept
  split_ifs
  · exact Or.inl ⟨Bool.not_ne_self _, rfl⟩
  · exact Or.inr ⟨rfl, rfl⟩

theorem readAck_cases {s s' : Sending} {b : Bool}
    (h : s.readAck (recvBuffer kMaxAckSize (AckPacket.toText ⟨0, 0, b⟩)) = .ok s') :
    (b = s.alternate_bit ∧ s' = ⟨s.data, s.index + 1, !s.alternate_bit, false⟩) ∨
      (b ≠ s.alternate_bit ∧ s' = s) := by
  unfold Sending.readAck at h
  rw [parse_ack, ok_bind] at h
  split_ifs at h with hbit
  · cases h
    exact Or.inl ⟨hbit, rfl⟩
  · cases h
    exact Or.inr ⟨hbit, rfl⟩

theorem Inv.start (host destination : Host) (data : Str) (receiving : Receiving) :
    (start host destination data receiving).Inv data where
  string := rfl
  turn := rfl
  packets := by
    intro c hc
    cases hc
  acks := by
    intro d hd
    cases hd
  inbox := by
    intro d hd
    cases hd
  delivered := by
    refine ⟨fun k hk => absurd hk (Nat.not_lt_zero k), fun hnone k hk => ?_, fun host p hp => ?_⟩
    · exact absurd (hk.trans_le (Sending.le_of_current hnone)) (Nat.not_lt_zero k)
    · cases hp

theorem Inv.put {p : Packet} (h : q.Inv data) (hp : q.sending.current = some p) :
    (q.put p).Inv data where
  string := h.string
  turn := h.turn
  packets := by
    intro c hc
    rcases List.mem_append.mp hc with hc | hc
    · exact h.packets c hc
    · obtain ⟨-, rfl⟩ := Sending.of_current hp
      rw [List.mem_singleton.mp hc, h.string]
  acks := h.acks
  inbox := h.inbox
  delivered := ⟨h.delivered.passed, h.delivered.returned, h.delivered.kept⟩

theorem Inv.arrive {d : Datagram} (h : q.Inv data) (hd : d.Answers q.accepted) :
    (q.arrive d).Inv data where
  string := h.string
  turn := h.turn
  packets := h.packets
  acks := h.acks
  inbox := by
    intro d' hd'
    rcases List.mem_append.mp hd' with hd' | hd'
    · exact h.inbox d' hd'
    · rw [List.mem_singleton.mp hd']
      exact hd
  delivered := ⟨h.delivered.passed, h.delivered.returned, h.delivered.kept⟩

/-- `SendTo` receives a datagram: it goes past its packet only with an answer to that packet. -/
theorem Inv.read (h : q.Inv data) (hC : q.Undisturbed .read) (hs : q.step .read = some q') :
    q'.Inv data := by
  obtain ⟨d, inbox, sending, hinbox, hread, rfl⟩ := step_read hs
  have hd : d.Answers q.accepted := h.inbox d (by rw [hinbox]; exact List.mem_cons_self)
  have hrest : ∀ d' ∈ inbox, d'.Answers q.accepted := fun d' hd' =>
    h.inbox d' (by rw [hinbox]; exact List.mem_cons_of_mem _ hd')
  have hkept : (∀ host p, d ≠ .packet host p) → ∀ host p, .packet host p ∉ q.taken ++ [d] := by
    intro hne host p hp
    rcases List.mem_append.mp hp with hp | hp
    · exact h.delivered.kept host p hp
    · exact hne host p (List.mem_singleton.mp hp).symm
  simp only [Undisturbed, hinbox] at hC
  cases d with
  | ack k a =>
    obtain ⟨⟨b, rfl⟩, haccepted⟩ := hd
    have hkept := hkept (by intro host p heq; cases heq)
    rcases readAck_cases hread with ⟨hbit, rfl⟩ | ⟨-, rfl⟩
    · have hk := hC hbit
      have hmem : q.sending.index ∈ q.accepted := by
        rw [← hk]
        apply haccepted
        rw [hk, ← h.turn]
        exact hbit
      have hpassed : ∀ i < q.sending.index + 1, i ∈ q.accepted := by
        intro i hi
        rcases Nat.lt_succ_iff_lt_or_eq.mp hi with hi | rfl
        · exact h.delivered.passed i hi
        · exact hmem
      refine ⟨h.string, ?_, h.packets, h.acks, hrest, hpassed, fun hnone i hi => ?_, hkept⟩
      · rw [h.turn, bit_succ]
      · exact hpassed i (hi.trans_le (Sending.le_of_current hnone))
    · exact ⟨h.string, h.turn, h.packets, h.acks, hrest, h.delivered.passed, h.delivered.returned,
        hkept⟩
  | earlier a =>
    obtain ⟨b, rfl⟩ := hd
    rcases readAck_cases hread with ⟨hbit, -⟩ | ⟨-, rfl⟩
    · exact absurd hbit hC
    · exact ⟨h.string, h.turn, h.packets, h.acks, hrest, h.delivered.passed, h.delivered.returned,
        hkept (by intro host p heq; cases heq)⟩
  | packet host p => exact hC.elim

/-- `RecvFrom` answers a packet with its bit only if it has been accepted, now or before. -/
theorem Inv.packet {j : ℕ} (h : q.Inv data) (hC : q.Undisturbed (.packet j))
    (hs : q.step (.packet j) = some q') : q'.Inv data := by
  obtain ⟨k, p, receiving, ack, returns, hp, htake, rfl⟩ := step_packet hs
  have hpacket : p = Rdt.packet data k := h.packets (k, p) (List.mem_of_getElem? hp)
  rw [hpacket, Receiving.take_eq _ _ (parse_received data k)] at htake
  have hcases := accept_cases q.receiving q.host { Rdt.packet data k with
    data := ((chunk data k).takeWhile (· != 0)).takeWhile (· != newline) }
  rw [Except.ok.inj htake] at hcases
  have hsub : q.accepted ⊆ if receiving.alternate_bit = q.receiving.alternate_bit then q.accepted
      else q.accepted ++ [k] := by
    split_ifs
    · exact List.Subset.refl _
    · exact List.subset_append_left _ _
  refine ⟨h.string, h.turn, h.packets, fun d hd => ?_, fun d hd => (h.inbox d hd).mono hsub,
    fun i hi => hsub (h.delivered.passed i hi),
    fun hnone i hi => hsub (h.delivered.returned hnone i hi), h.delivered.kept⟩
  rcases List.mem_append.mp hd with hd | hd
  · exact (h.acks d hd).mono hsub
  · rw [List.mem_singleton.mp hd]
    rcases hcases with ⟨hbit, hack⟩ | ⟨hbit, hack⟩
    · refine ⟨⟨_, hack⟩, fun _ => ?_⟩
      rw [if_neg hbit]
      exact List.mem_append_right _ (List.mem_singleton_self k)
    · refine ⟨⟨_, hack⟩, fun hnumber => hsub (hC (k, p) hp ?_)⟩
      have hnot : (!q.receiving.alternate_bit) = bit k := by
        rw [← hnumber]
        exact (congrArg AckPacket.ack_number hack).symm
      rw [← hnot]
      exact (Bool.not_ne_self _).symm

theorem Inv.step {e : Event} (h : q.Inv data) (hC : q.Undisturbed e) (hs : q.step e = some q') :
    q'.Inv data := by
  cases e with
  | send =>
    obtain ⟨p, hp, rfl⟩ := step_send hs
    have hput := h.put hp
    exact ⟨hput.string, hput.turn, hput.packets, hput.acks, hput.inbox, hput.delivered.passed,
      hput.delivered.returned, hput.delivered.kept⟩
  | resend =>
    obtain ⟨p, hp, rfl⟩ := step_resend hs
    exact h.put hp
  | read => exact h.read hC hs
  | packet j => exact h.packet hC hs
  | other host text =>
    obtain ⟨receiving, rfl⟩ := step_other hs
    exact ⟨h.string, h.turn, h.packets, h.acks, h.inbox, h.delivered.passed, h.delivered.returned,
      h.delivered.kept⟩
  | giveUp =>
    obtain ⟨receiving, rfl⟩ := step_giveUp hs
    exact ⟨h.string, h.turn, h.packets, h.acks, h.inbox, h.delivered.passed, h.delivered.returned,
      h.delivered.kept⟩
  | ack j =>
    obtain ⟨d, hd, rfl⟩ := Option.map_eq_some_iff.mp hs
    exact h.arrive (h.acks d (List.mem_of_getElem? hd))
  | own j =>
    simp only [Exchange.step] at hs
    split_ifs at hs
    obtain ⟨c, -, rfl⟩ := Option.map_eq_some_iff.mp hs
    exact h.arrive trivial
  | peer host data k =>
    obtain ⟨p, -, rfl⟩ := Option.map_eq_some_iff.mp hs
    exact h.arrive trivial
  | earlier b =>
    cases hs
    exact h.arrive ⟨b, rfl⟩

end Steps

/-- **Success means delivery**, in every state of a run in which nothing disturbs `SendTo`. -/
theorem passed_delivered {host destination : Host} {data : Str} {receiving : Receiving}
    {es : List Event} (h : Meets step Undisturbed (start host destination data receiving) es) :
    Along step Delivered (start host destination data receiving) es := by
  have hinv : Along step (Inv data) (start host destination data receiving) es :=
    Along.of_step (fun _ _ _ _ _ hC hI hs => hI.step hC hs) (Inv.start _ _ _ _) (along_true _ _) h
  exact hinv.mono fun _ hI => hI.delivered

instance decidableUndisturbed (q : Exchange) : DecidablePred q.Undisturbed
  | .read =>
    match h : q.inbox with
    | [] => isTrue (by simp only [Undisturbed, h])
    | .ack k a :: _ => decidable_of_iff
        (a.ack_number = q.sending.alternate_bit → k = q.sending.index)
        (by simp only [Undisturbed, h])
    | .earlier a :: _ => decidable_of_iff
        (a.ack_number ≠ q.sending.alternate_bit) (by simp only [Undisturbed, h])
    | .packet _ _ :: _ => isFalse (by simp only [Undisturbed, h, not_false_eq_true])
  | .packet j => inferInstanceAs (Decidable (∀ c ∈ q.packets[j]?,
      q.receiving.alternate_bit ≠ bit c.1 → c.1 ∈ q.accepted))
  | .send => isTrue trivial
  | .resend => isTrue trivial
  | .other _ _ => isTrue trivial
  | .giveUp => isTrue trivial
  | .ack _ => isTrue trivial
  | .own _ => isTrue trivial
  | .peer _ _ _ => isTrue trivial
  | .earlier _ => isTrue trivial

def server : Host := ⟨str "127.0.0.1", 50000⟩
def repository : Host := ⟨str "127.0.0.1", 50001⟩
def peer : Host := ⟨str "127.0.0.1", 50002⟩

/-- A string of two packets, the first of which is sent and answered twice. The answer to an earlier
string and a packet of a peer arrive as well, and the packet stays in the queue. -/
def undisturbed : List Event :=
  [.send, .packet 0, .earlier true, .resend, .packet 1, .ack 0, .read, .read, .send, .ack 1, .read,
    .packet 2, .ack 2, .peer peer (str "question") 0, .read]

theorem passed_delivered_resent : ∃ q,
    run step (start repository server (str "twenty-five bytes of data") Receiving.start)
      undisturbed = some q ∧
    q.sending.current = none ∧ q.Delivered := by
  have hrun : ∃ q,
      run step (start repository server (str "twenty-five bytes of data") Receiving.start)
        undisturbed = some q ∧ q.sending.current = none := exists_of_check (by decide +kernel)
  obtain ⟨q, hq, hreturned⟩ := hrun
  exact ⟨q, hq, hreturned, (passed_delivered (by decide +kernel)).last hq⟩

/-! ## Datagrams that are not answers -/

/-- `SendTo` goes past its packet when it receives a packet with the same bit. -/
theorem readAck_packet {s : Sending} {data : Str} {k : ℕ} (h : s.alternate_bit = bit k) :
    s.readAck (recvBuffer kMaxAckSize (Rdt.packet data k).toText) =
      .ok ⟨s.data, s.index + 1, bit (k + 1), false⟩ := by
  unfold Sending.readAck
  rw [parse_as_ack, ok_bind, h, bit_succ]
  exact if_pos rfl

/-- The process has sent `n` packets to its own address and taken each for its acknowledgement. -/
structure Own (data : Str) (n : ℕ) (q : Exchange) : Prop where
  destination : q.destination = q.host
  sending : q.sending = ⟨data, n, bit n, false⟩
  packets : q.packets.length = n
  inbox : q.inbox = []
  accepted : q.accepted = []

theorem Own.packet {q : Exchange} {data : Str} {n : ℕ} (h : q.Own data n)
    (hn : n < chunkCount data) :
    ∃ q', run step q [.send, .own n, .read] = some q' ∧ q'.Own data (n + 1) := by
  have hcurrent : (⟨data, n, bit n, false⟩ : Sending).current = some (Rdt.packet data n) :=
    Sending.current_of_lt hn
  have hlast : (q.packets ++ [(n, Rdt.packet data n)])[n]? = some (n, Rdt.packet data n) := by
    rw [List.getElem?_append_right h.packets.le, h.packets, Nat.sub_self]
    rfl
  have hread : (⟨data, n, bit n, true⟩ : Sending).readAck
      (recvBuffer kMaxAckSize (Rdt.packet data n).toText) = .ok ⟨data, n + 1, bit (n + 1), false⟩ :=
    readAck_packet rfl
  refine ⟨{ q with
    sending := ⟨data, n + 1, bit (n + 1), false⟩
    packets := q.packets ++ [(n, Rdt.packet data n)]
    taken := q.taken ++ [.packet q.host (Rdt.packet data n)] }, ?_, h.destination, rfl, ?_, h.inbox,
    h.accepted⟩
  · have hsend : q.step .send = some { q with
        sending := ⟨data, n, bit n, true⟩
        packets := q.packets ++ [(n, Rdt.packet data n)] } := by
      simp [step, hcurrent, h.sending, put]
    rw [run, hsend, Option.bind_some, run]
    simp [step, h.destination, hlast, arrive, h.inbox, run, Datagram.text, hread]
  · rw [List.length_append, h.packets]
    rfl

/-- **A string sent to the own address is lost**: `SendTo` returns, and nothing is accepted. -/
theorem own_address_lost (host : Host) (data : Str) (receiving : Receiving) :
    ∃ es q, run step (start host host data receiving) es = some q ∧ q.sending.current = none ∧
      q.accepted = [] := by
  have hrun : ∀ n ≤ chunkCount data, ∃ es q,
      run step (start host host data receiving) es = some q ∧ q.Own data n := by
    intro n
    induction n with
    | zero => exact fun _ => ⟨[], _, rfl, rfl, rfl, rfl, rfl, rfl⟩
    | succ n ih =>
      intro hn
      obtain ⟨es, q, hq, hown⟩ := ih (Nat.le_of_succ_le hn)
      obtain ⟨q', hq', hown'⟩ := hown.packet hn
      exact ⟨es ++ [.send, .own n, .read], q', by rw [run_append, hq]; exact hq', hown'⟩
  obtain ⟨es, q, hq, hown⟩ := hrun (chunkCount data) le_rfl
  refine ⟨es, q, hq, ?_, hown.accepted⟩
  rw [hown.sending]
  exact getElem?_makePackets_none le_rfl

/-- A string of two packets sent to the own address, and one of one packet sent while a packet of a
peer comes in. -/
def disturbed : List Event := [.send, .peer peer (str "question") 0, .read]

/-- **Success does not mean delivery**: both strings are lost, and the packet of the peer is too. -/
theorem passed_not_delivered :
    (∃ q, run step (start repository repository (str "twenty-five bytes of data") Receiving.start)
        [.send, .own 0, .read, .send, .own 1, .read] = some q ∧
      q.sending.current = none ∧ q.accepted = [] ∧ ¬ q.Delivered) ∧
    ∃ q, run step (start repository server (str "answer") Receiving.start) disturbed = some q ∧
      q.sending.current = none ∧ q.accepted = [] ∧ q.inbox = [] ∧
      .packet peer (Rdt.packet (str "question") 0) ∈ q.taken ∧ ¬ q.Delivered := by
  have hown : ∃ q,
      run step (start repository repository (str "twenty-five bytes of data") Receiving.start)
        [.send, .own 0, .read, .send, .own 1, .read] = some q ∧
      q.sending.current = none ∧ q.accepted = [] ∧ q.sending.index = 2 :=
    exists_of_check (by decide +kernel)
  have hpeer : ∃ q, run step (start repository server (str "answer") Receiving.start) disturbed =
        some q ∧
      q.sending.current = none ∧ q.accepted = [] ∧ q.inbox = [] ∧
      .packet peer (Rdt.packet (str "question") 0) ∈ q.taken := exists_of_check (by decide +kernel)
  refine ⟨?_, ?_⟩
  · obtain ⟨q, hq, hreturned, haccepted, hindex⟩ := hown
    refine ⟨q, hq, hreturned, haccepted, fun h => ?_⟩
    have hmem := h.passed 0 (by omega)
    rw [haccepted] at hmem
    cases hmem
  · obtain ⟨q, hq, hreturned, haccepted, hinbox, htaken⟩ := hpeer
    exact ⟨q, hq, hreturned, haccepted, hinbox, htaken, fun h => h.kept _ _ htaken⟩

end Exchange

end DGDB.Rdt
