import Mathlib
import DGDB.Rdt.Link

/-!
# One transfer

The invariant of one call of `SendTo` against a process that calls `RecvFrom`: the datagrams in
transit carry packets and acknowledgements of one string, and their indices form a window of
`StopAndWait`. Losses, repetitions in place and the timeouts of the sender keep it.
-/

namespace DGDB.Rdt

open EventSystem StopAndWait

/-! ## The channels of a transfer -/

/-- `SendTo` is called once, with `data`, and the packets before `got` have been taken. -/
structure Transfer (data : Str) (got : ℕ) (q : Link) : Prop where
  messages : q.messages = []
  string : q.sending.data = data
  alternate_bit : q.sending.alternate_bit = bit q.sending.index
  index_le : q.sending.index ≤ chunkCount data
  waiting : q.sending.waiting = true → q.sending.index < chunkCount data
  got_le : got ≤ chunkCount data
  window : ∃ acks sent : List ℕ, q.acks = acks.map (fun i => AckPacket.toText ⟨0, 0, bit i⟩) ∧
    q.packets = sent.map (fun i => (packet data i).toText) ∧
    (∀ i ∈ sent, i < chunkCount data) ∧
    Window q.sending.index got (acks.map Nat.succ) (sent.map Nat.succ)

namespace Transfer

variable {data : Str} {got : ℕ} {again : Bool} {q q' : Link}

theorem start (data : Str) : Transfer data 0 (Link.start data []) where
  messages := rfl
  string := rfl
  alternate_bit := rfl
  index_le := Nat.zero_le _
  waiting := fun h => by cases h
  got_le := Nat.zero_le _
  window := ⟨[], [], rfl, rfl, by simp, Window.start⟩

theorem current (h : Transfer data got q) {p : Packet} (hp : q.sending.current = some p) :
    q.sending.index < chunkCount data ∧ p = packet data q.sending.index := by
  rw [← h.string]
  exact Sending.of_current hp

theorem current_eq_none (h : Transfer data got q) (hp : q.sending.current = none) :
    q.sending.index = chunkCount data := by
  have hle := Sending.le_of_current hp
  rw [h.string] at hle
  exact le_antisymm h.index_le hle

theorem copy (h : Transfer data got q) (hlt : q.sending.index < chunkCount data) {b : Bool} :
    Transfer data got { q with
      sending := { q.sending with waiting := b }
      packets := q.packets ++ [(packet data q.sending.index).toText] } where
  messages := h.messages
  string := h.string
  alternate_bit := h.alternate_bit
  index_le := h.index_le
  waiting := fun _ => hlt
  got_le := h.got_le
  window := by
    obtain ⟨acks, sent, hacks, hsent, hmem, hwindow⟩ := h.window
    refine ⟨acks, sent ++ [q.sending.index], hacks, by simp [hsent], ?_, ?_⟩
    · intro i hi
      rcases List.mem_append.mp hi with hi | hi
      · exact hmem i hi
      · rwa [List.mem_singleton.mp hi]
    · rw [List.map_append]
      exact hwindow.send

theorem ack (h : Transfer data got q) (hwaiting : q.sending.waiting = true) {a : Str}
    {acks : List Str} {sending : Sending} (hacks : q.acks = a :: acks)
    (hread : q.sending.readAck (recvBuffer kMaxAckSize a) = .ok sending) :
    Transfer data got { q with sending := sending, acks := acks } := by
  obtain ⟨labels, sent, hlabels, hsent, hmem, hwindow⟩ := h.window
  rw [hacks] at hlabels
  cases labels with
  | nil => cases hlabels
  | cons i labels =>
    obtain ⟨rfl, rfl⟩ := List.cons.inj hlabels
    have hlt := h.waiting hwaiting
    unfold Sending.readAck at hread
    rw [parse_ack, ok_bind] at hread
    simp only [h.alternate_bit] at hread
    rw [List.map_cons] at hwindow
    split_ifs at hread with hbit
    · -- the bit of the acknowledgement tells its index
      have hi : i = q.sending.index := by
        rcases hwindow.ack_cases with hold | hnew
        · exfalso
          rw [← hold, Nat.succ_eq_add_one, bit_succ] at hbit
          exact Bool.not_ne_self _ hbit.symm
        · exact Nat.succ.inj hnew
      subst hi
      cases hread
      obtain ⟨-, hwindow'⟩ := hwindow.advance
      exact ⟨h.messages, h.string, (bit_succ _).symm, hlt, fun hw => (by cases hw), h.got_le,
        labels, sent, rfl, hsent, hmem, hwindow'⟩
    · cases hread
      exact ⟨h.messages, h.string, h.alternate_bit, h.index_le, h.waiting, h.got_le, labels, sent,
        rfl, hsent, hmem, hwindow.drop_ack⟩

theorem channels (h : Transfer data got q) {acks packets : List Str}
    (hnew : ∀ labels sent : List ℕ,
      q.acks = labels.map (fun i => AckPacket.toText ⟨0, 0, bit i⟩) →
      q.packets = sent.map (fun i => (packet data i).toText) →
      Window q.sending.index got (labels.map Nat.succ) (sent.map Nat.succ) →
      ∃ labels' sent' : List ℕ, acks = labels'.map (fun i => AckPacket.toText ⟨0, 0, bit i⟩) ∧
        packets = sent'.map (fun i => (packet data i).toText) ∧ sent' ⊆ sent ∧
        Window q.sending.index got (labels'.map Nat.succ) (sent'.map Nat.succ)) :
    Transfer data got { q with acks := acks, packets := packets } where
  messages := h.messages
  string := h.string
  alternate_bit := h.alternate_bit
  index_le := h.index_le
  waiting := h.waiting
  got_le := h.got_le
  window := by
    obtain ⟨labels, sent, hlabels, hsent, hmem, hwindow⟩ := h.window
    obtain ⟨labels', sent', h₁, h₂, hsub, h₃⟩ := hnew labels sent hlabels hsent hwindow
    exact ⟨labels', sent', h₁, h₂, fun i hi => hmem i (hsub hi), h₃⟩

/-- **What is not a step of the receiver keeps the transfer** and leaves the receiver alone. -/
theorem step (h : Transfer data got q) {e : Link.Event} (hpacket : e ≠ .packet)
    (hgiveUp : e ≠ .giveUp) (hstep : q.step again e = some q') :
    Transfer data got q' ∧ q'.receiving = q.receiving ∧ q'.returned = q.returned := by
  cases e with
  | call =>
    obtain ⟨-, m, messages, hmessages, -⟩ := Link.step_call hstep
    rw [h.messages] at hmessages
    cases hmessages
  | send =>
    obtain ⟨-, p, hp, rfl⟩ := Link.step_send hstep
    obtain ⟨hlt, rfl⟩ := h.current hp
    exact ⟨h.copy hlt, rfl, rfl⟩
  | resend =>
    obtain ⟨hwaiting, p, hp, rfl⟩ := Link.step_resend hstep
    obtain ⟨hlt, rfl⟩ := h.current hp
    refine ⟨?_, rfl, rfl⟩
    exact h.copy (b := q.sending.waiting) hlt
  | ack =>
    obtain ⟨hwaiting, a, acks, sending, hacks, hread, rfl⟩ := Link.step_ack hstep
    exact ⟨h.ack hwaiting hacks hread, rfl, rfl⟩
  | packet => exact absurd rfl hpacket
  | giveUp => exact absurd rfl hgiveUp
  | losePacket j =>
    simp only [Link.step] at hstep
    split_ifs at hstep
    cases hstep
    refine ⟨h.channels fun labels sent hlabels hsent hwindow =>
      ⟨labels, sent.eraseIdx j, hlabels, ?_, List.eraseIdx_subset,
        hwindow.lose (List.Sublist.refl _) ?_⟩, rfl, rfl⟩
    · rw [hsent, List.eraseIdx_map]
    · exact (List.eraseIdx_sublist sent j).map Nat.succ
  | loseAck j =>
    simp only [Link.step] at hstep
    split_ifs at hstep
    cases hstep
    refine ⟨h.channels fun labels sent hlabels hsent hwindow => ⟨labels.eraseIdx j, sent, ?_, hsent,
      List.Subset.refl _, hwindow.lose ?_ (List.Sublist.refl _)⟩, rfl, rfl⟩
    · rw [hlabels, List.eraseIdx_map]
    · exact (List.eraseIdx_sublist labels j).map Nat.succ
  | repeatPacket j =>
    simp only [Link.step] at hstep
    split_ifs at hstep
    cases hstep
    refine ⟨h.channels fun labels sent hlabels hsent hwindow =>
      ⟨labels, repeatAt j sent, hlabels, ?_, fun i => mem_of_mem_repeatAt, ?_⟩, rfl, rfl⟩
    · rw [hsent, map_repeatAt]
    · rw [map_repeatAt]
      exact hwindow.repeat_sent j
  | repeatAck j =>
    simp only [Link.step] at hstep
    split_ifs at hstep
    cases hstep
    refine ⟨h.channels fun labels sent hlabels hsent hwindow => ⟨repeatAt j labels, sent, ?_, hsent,
      List.Subset.refl _, ?_⟩, rfl, rfl⟩
    · rw [hlabels, map_repeatAt]
    · rw [map_repeatAt]
      exact hwindow.repeat_acks j

/-- **What reaches the receiver** is the packet it waits for or the one it took last. -/
theorem packet (h : Transfer data got q) {p : Str} {packets : List Str}
    (hpackets : q.packets = p :: packets) :
    ∃ i, p = (Rdt.packet data i).toText ∧ i < chunkCount data ∧ (i = got ∨ i + 1 = got) ∧
      ∀ receiving returned, Transfer data (i + 1)
        ⟨q.messages, q.sending, receiving, returned, packets,
          q.acks ++ [AckPacket.toText ⟨0, 0, bit i⟩]⟩ := by
  obtain ⟨labels, sent, hlabels, hsent, hmem, hwindow⟩ := h.window
  rw [hpackets] at hsent
  cases sent with
  | nil => cases hsent
  | cons i sent =>
    obtain ⟨rfl, rfl⟩ := List.cons.inj hsent
    have hlt := hmem i List.mem_cons_self
    rw [List.map_cons] at hwindow
    refine ⟨i, rfl, hlt, ?_, fun receiving returned => ?_⟩
    · rcases hwindow.label_cases with hold | hnew
      · exact Or.inr hold
      · exact Or.inl (Nat.succ.inj hnew)
    · refine ⟨h.messages, h.string, h.alternate_bit, h.index_le, h.waiting, hlt, labels ++ [i],
        sent, by simp [hlabels], rfl, fun j hj => hmem j (List.mem_cons_of_mem _ hj), ?_⟩
      rw [List.map_append]
      exact hwindow.receive

/-- The receiver has taken the packets before the one `SendTo` is at, and perhaps that one. -/
theorem got_cases (h : Transfer data got q) :
    got = q.sending.index ∨ got = q.sending.index + 1 := by
  obtain ⟨labels, sent, -, -, -, hwindow⟩ := h.window
  have := hwindow.got_mem
  omega

/-- **One datagram at a call that has taken every packet before `got`.** It has then taken every
packet up to the one received; the last packet, if it is short, makes it return the string. -/
theorem receive (h : Transfer data got q) (hclean : Clean data)
    (hdata : q.receiving.data = data.take (kMaxPacketLength * got))
    (hbit : q.receiving.alternate_bit = bit got) (hstep : q.step again .packet = some q') :
    ∃ i, i < chunkCount data ∧ Transfer data (i + 1) q' ∧
      (¬ (chunk data i).length < 10 ∧ q'.returned = q.returned ∧
          q'.receiving.data = data.take (kMaxPacketLength * (i + 1)) ∧
          q'.receiving.alternate_bit = bit (i + 1) ∨
        (chunk data i).length < 10 ∧ q'.returned = q.returned ++ [⟨data, false⟩] ∧
          q'.receiving = Receiving.start) := by
  obtain ⟨-, p, packets, receiving, ack, returns, hpackets, htake, rfl⟩ := Link.step_packet hstep
  obtain ⟨i, rfl, hlt, hi, htransfer⟩ := h.packet hpackets
  rw [Receiving.take_eq _ _ (parse_packet hclean i)] at htake
  have htake' := Except.ok.inj htake
  have hout : receiving.data = data.take (kMaxPacketLength * (i + 1)) ∧
      receiving.alternate_bit = bit (i + 1) ∧ ack = ⟨0, 0, bit i⟩ ∧
      returns = decide ((chunk data i).length < 10) := by
    rcases hi with rfl | rfl
    · rw [Receiving.accept_new _ hbit, hdata, take_chunk] at htake'
      cases htake'
      exact ⟨rfl, rfl, rfl, rfl⟩
    · rw [bit_succ] at hbit
      rw [Receiving.accept_other _ hbit] at htake'
      cases htake'
      exact ⟨hdata, by rw [hbit, bit_succ], rfl, rfl⟩
  obtain ⟨hdata', hbit', rfl, rfl⟩ := hout
  refine ⟨i, hlt, ?_⟩
  by_cases hshort : (chunk data i).length < 10
  · have hlast : chunkCount data ≤ i + 1 := by
      by_contra hnot
      rw [length_chunk_of_lt (not_le.mp hnot)] at hshort
      exact absurd hshort (by decide)
    rw [decide_eq_true hshort, if_pos rfl, hdata', take_chunkCount hlast]
    exact ⟨htransfer _ _, Or.inr ⟨hshort, rfl, rfl⟩⟩
  · rw [decide_eq_false hshort, if_neg Bool.false_ne_true]
    exact ⟨htransfer _ _, Or.inl ⟨hshort, rfl, hdata', hbit'⟩⟩

end Transfer

/-! ## One call of `RecvFrom` -/

/-- The data of the only call of `RecvFrom`. -/
def Link.received (q : Link) : Str :=
  match q.returned with
  | [] => q.receiving.data
  | r :: _ => r.data

/-- The first `k` pieces of a string, joined. -/
def joined (data : Str) (k : ℕ) : Str := ((makePackets data).take k).flatMap Packet.data

theorem joined_eq (data : Str) (k : ℕ) : joined data k = data.take (kMaxPacketLength * k) := by
  induction k with
  | zero => simp [joined]
  | succ k ih =>
    unfold joined at ih ⊢
    rw [List.take_add_one, List.flatMap_append, ih, ← take_chunk]
    by_cases hlt : k < chunkCount data
    · rw [getElem?_makePackets hlt]
      simp [packet]
    · have hnil : chunk data k = [] := by
        apply List.length_eq_zero_iff.mp
        rw [length_chunk]
        unfold chunkCount kMaxPacketLength at *
        omega
      rw [getElem?_makePackets_none (not_lt.mp hlt), hnil]
      rfl

/-- What one transfer guarantees at every moment. -/
structure Safe (data : Str) (q : Link) : Prop where
  /-- The data is that of the packets before the one `SendTo` is at, or up to it. -/
  received : ∃ k, (k = q.sending.index ∨ k = q.sending.index + 1) ∧ q.received = joined data k
  /-- Every packet `SendTo` has left has been appended. -/
  left : joined data q.sending.index <+: q.received
  whole : ∀ r ∈ q.returned, r.timedOut = false → r.data = data
  gaveUp : ∀ r ∈ q.returned, r.timedOut = true → ∃ k, r.data = joined data k

section OneCall

variable {data : Str} {q q' : Link}

/-- The invariant of a transfer to one call of `RecvFrom`. -/
def OneCall (data : Str) (q : Link) : Prop :=
  ∃ got, Transfer data got q ∧
    (q.returned = [] ∧ q.receiving.data = data.take (kMaxPacketLength * got) ∧
        q.receiving.alternate_bit = bit got ∨
      ∃ r, q.returned = [r] ∧ r.data = data.take (kMaxPacketLength * got) ∧
        (r.timedOut = false → r.data = data))

theorem OneCall.start (data : Str) : OneCall data (Link.start data []) :=
  ⟨0, Transfer.start data, Or.inl ⟨rfl, rfl, rfl⟩⟩

theorem OneCall.step (hclean : Clean data) (h : OneCall data q) {e : Link.Event}
    (hstep : q.step false e = some q') : OneCall data q' := by
  obtain ⟨got, htransfer, hcall⟩ := h
  by_cases hpacket : e = .packet
  · subst hpacket
    obtain ⟨hagain, -⟩ := Link.step_packet hstep
    rcases hcall with ⟨hreturned, hdata, hbit⟩ | ⟨r, hreturned, -⟩
    · obtain ⟨i, hlt, htransfer', ⟨-, hsame, hout⟩ | ⟨hshort, hsame, -⟩⟩ :=
        htransfer.receive hclean hdata hbit hstep
      · exact ⟨i + 1, htransfer', Or.inl ⟨hsame.trans hreturned, hout⟩⟩
      · have hlast : chunkCount data ≤ i + 1 := by
          by_contra hnot
          rw [length_chunk_of_lt (not_le.mp hnot)] at hshort
          exact absurd hshort (by decide)
        refine ⟨i + 1, htransfer', Or.inr ⟨⟨data, false⟩, by rw [hsame, hreturned]; rfl, ?_,
          fun _ => rfl⟩⟩
        exact (take_chunkCount hlast).symm
    · rw [hreturned] at hagain
      cases hagain
  by_cases hgiveUp : e = .giveUp
  · subst hgiveUp
    obtain ⟨hagain, rfl⟩ := Link.step_giveUp hstep
    rcases hcall with ⟨hreturned, hdata, -⟩ | ⟨r, hreturned, -⟩
    · refine ⟨got, ⟨htransfer.messages, htransfer.string, htransfer.alternate_bit,
        htransfer.index_le, htransfer.waiting, htransfer.got_le, htransfer.window⟩, Or.inr
        ⟨⟨q.receiving.data, true⟩, ?_, hdata, fun h => by cases h⟩⟩
      simp [Link.done, hreturned]
    · rw [hreturned] at hagain
      cases hagain
  · obtain ⟨htransfer', hreceiving, hreturned⟩ := htransfer.step hpacket hgiveUp hstep
    refine ⟨got, htransfer', ?_⟩
    rw [hreceiving, hreturned]
    exact hcall

theorem OneCall.safe (h : OneCall data q) : Safe data q := by
  obtain ⟨got, htransfer, hcall⟩ := h
  have hreceived : q.received = joined data got := by
    rw [joined_eq]
    unfold Link.received
    rcases hcall with ⟨hreturned, hdata, -⟩ | ⟨r, hreturned, hdata, -⟩
    · rw [hreturned]
      exact hdata
    · rw [hreturned]
      exact hdata
  refine ⟨⟨got, htransfer.got_cases, hreceived⟩, ?_, ?_, ?_⟩
  · rw [hreceived, joined_eq, joined_eq]
    apply List.take_prefix_take_left
    have := htransfer.got_cases
    gcongr
    omega
  · intro r hr hexit
    rcases hcall with ⟨hreturned, -⟩ | ⟨r', hreturned, -, hwhole⟩
    · rw [hreturned] at hr
      cases hr
    · rw [hreturned] at hr
      rw [List.mem_singleton.mp hr] at hexit ⊢
      exact hwhole hexit
  · intro r hr _
    rcases hcall with ⟨hreturned, -⟩ | ⟨r', hreturned, hdata, -⟩
    · rw [hreturned] at hr
      cases hr
    · rw [hreturned] at hr
      rw [List.mem_singleton.mp hr]
      exact ⟨got, hdata.trans (joined_eq data got).symm⟩

/-- **Alternating-bit safety of one transfer.** One call of `SendTo` and one of `RecvFrom`, over
channels that may lose datagrams or repeat them in place, with timeouts at any moment. -/
theorem transfer_safe (hclean : Clean data) (es : List Link.Event) :
    Along (Link.step false) (Safe data) (Link.start data []) es :=
  (Along.of_preserved (fun _ _ _ h hstep => OneCall.step hclean h hstep) (OneCall.start data)
    es).mono fun _ h => h.safe

/-- A transfer of two packets whose first acknowledgement is lost. -/
theorem transfer_safe_lost : ∃ q,
    run (Link.step false) (Link.start (str "twenty-five bytes of data") [])
      [.send, .packet, .loseAck 0, .resend, .packet, .ack, .send, .repeatPacket 0, .packet, .ack] =
        some q ∧
    q.returned = [⟨str "twenty-five bytes of data", false⟩] ∧
    Safe (str "twenty-five bytes of data") q := by
  have hrun : ∃ q, run (Link.step false) (Link.start (str "twenty-five bytes of data") [])
      [.send, .packet, .loseAck 0, .resend, .packet, .ack, .send, .repeatPacket 0, .packet, .ack] =
        some q ∧ q.returned = [⟨str "twenty-five bytes of data", false⟩] :=
    exists_of_check (by decide +kernel)
  obtain ⟨q, hq, hreturned⟩ := hrun
  exact ⟨q, hq, hreturned, (transfer_safe (by decide +kernel) _).last hq⟩

end OneCall

end DGDB.Rdt
