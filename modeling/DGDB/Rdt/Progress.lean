import Mathlib
import DGDB.Rdt.ExactlyOnce

/-!
# `SendTo` comes to its end

Whatever has been lost, repeated or timed out before: once the channels are left alone and the
timeout of `SendTo` fires only when they are empty, all its calls come to their end after a number
of steps that the state tells, and until then some step is possible. `RecvFrom` may give up at any
time.
-/

namespace DGDB.Rdt

open EventSystem StopAndWait

namespace Link

/-! ## The work that is left -/

/-- The packet that `p` is the text of has the bit `b`. -/
def hasBit (b : Bool) (p : Str) : Bool :=
  match Packet.parse (recvBuffer kMaxPacketSize p) with
  | .ok packet => packet.sequence_number == b
  | .error _ => false

/-- The acknowledgement that `a` is the text of has the bit `b`. -/
def acksBit (b : Bool) (a : Str) : Bool :=
  match AckPacket.parse (recvBuffer kMaxAckSize a) with
  | .ok ack => ack.ack_number == b
  | .error _ => false

/-- A datagram is in transit that lets `SendTo` go on, or will once it is acknowledged. -/
def awaited (q : Link) : Bool :=
  q.sending.waiting && (q.packets.any (hasBit q.sending.alternate_bit) ||
    q.acks.any (acksBit q.sending.alternate_bit))

/-- The steps that are left at most. -/
def work (q : Link) : ℕ :=
  2 * q.packets.length + q.acks.length + 4 * (chunkCount q.sending.data - q.sending.index) +
    (q.messages.map fun m => 4 * chunkCount m + 4).sum + if q.awaited then 0 else 3

/-- All strings have been sent, and all packets received. -/
def Finished (q : Link) : Prop := q.messages = [] ∧ q.sending.current = none ∧ q.packets = []

/-- A step of `SendTo` or `RecvFrom` itself, or a timeout of `SendTo` with nothing in transit, or
one of `RecvFrom`. -/
def Prompt (q : Link) : Event → Prop
  | .call | .send | .ack | .packet | .giveUp => True
  | .resend => q.packets = [] ∧ q.acks = []
  | _ => False

instance (q : Link) : DecidablePred (Prompt q)
  | .call | .send | .ack | .packet | .giveUp => inferInstanceAs (Decidable True)
  | .resend => inferInstanceAs (Decidable (_ ∧ _))
  | .losePacket _ | .loseAck _ | .repeatPacket _ | .repeatAck _ => inferInstanceAs (Decidable False)

/-! ## The channels -/

/-- What is in transit are packets and acknowledgements. -/
structure Carrying (q : Link) : Prop where
  clean : Clean q.sending.data ∧ ∀ m ∈ q.messages, Clean m
  alternate_bit : q.sending.alternate_bit = bit q.sending.index
  waiting : q.sending.waiting = true → q.sending.index < chunkCount q.sending.data
  packets : ∀ p ∈ q.packets, ∃ data k, Clean data ∧ p = (Rdt.packet data k).toText
  acks : ∀ a ∈ q.acks, ∃ b, a = AckPacket.toText ⟨0, 0, b⟩

namespace Carrying

variable {again : Bool} {q q' : Link} {e : Event}

theorem start {data : Str} {messages : List Str} (hclean : ∀ m ∈ data :: messages, Clean m) :
    (Link.start data messages).Carrying where
  clean := ⟨hclean data List.mem_cons_self, fun m hm => hclean m (List.mem_cons_of_mem _ hm)⟩
  alternate_bit := rfl
  waiting := nofun
  packets := nofun
  acks := nofun

theorem of_subset (h : q.Carrying) (hmessages : q'.messages = q.messages)
    (hsending : q'.sending = q.sending) (hpackets : q'.packets ⊆ q.packets)
    (hacks : q'.acks ⊆ q.acks) : q'.Carrying where
  clean := by
    rw [hmessages, hsending]
    exact h.clean
  alternate_bit := by
    rw [hsending]
    exact h.alternate_bit
  waiting := by
    rw [hsending]
    exact h.waiting
  packets := fun p hp => h.packets p (hpackets hp)
  acks := fun a ha => h.acks a (hacks ha)

theorem send (h : q.Carrying) {p : Packet} (hp : q.sending.current = some p) :
    Carrying { q with
      sending := { q.sending with waiting := true }
      packets := q.packets ++ [p.toText] } where
  clean := h.clean
  alternate_bit := h.alternate_bit
  waiting := fun _ => (Sending.of_current hp).1
  packets := by
    intro p' hp'
    rcases List.mem_append.mp hp' with hp' | hp'
    · exact h.packets p' hp'
    · obtain ⟨-, rfl⟩ := Sending.of_current hp
      exact ⟨_, _, h.clean.1, List.mem_singleton.mp hp'⟩
  acks := h.acks

theorem receive (h : q.Carrying) (hstep : q.step again .packet = some q') :
    ∃ data k packets, Clean data ∧ q.packets = (Rdt.packet data k).toText :: packets ∧
      q'.sending = q.sending ∧ q'.messages = q.messages ∧ q'.packets = packets ∧
      q'.acks = q.acks ++ [AckPacket.toText ⟨0, 0, bit k⟩] := by
  obtain ⟨-, p, packets, receiving, ack, returns, hpackets, htake, rfl⟩ := step_packet hstep
  obtain ⟨data, k, hclean, rfl⟩ := h.packets p (by simp [hpackets])
  rw [Receiving.take_eq _ _ (parse_packet hclean k)] at htake
  have hack := Receiving.accept_ack q.receiving ⟨[], 0⟩ data k
  rw [Except.ok.inj htake] at hack
  obtain ⟨rfl, -⟩ := Prod.mk.inj hack
  refine ⟨data, k, packets, hclean, hpackets, ?_⟩
  cases returns <;> exact ⟨rfl, rfl, rfl, rfl⟩

theorem take (h : q.Carrying) (hstep : q.step again .ack = some q') :
    ∃ b acks, q.acks = AckPacket.toText ⟨0, 0, b⟩ :: acks ∧ q.sending.waiting = true ∧
      (b = q.sending.alternate_bit ∧ q' = { q with
          sending := ⟨q.sending.data, q.sending.index + 1, !q.sending.alternate_bit, false⟩
          acks := acks } ∨
        b ≠ q.sending.alternate_bit ∧ q' = { q with acks := acks }) := by
  obtain ⟨hwaiting, a, acks, sending, hacks, hread, rfl⟩ := step_ack hstep
  obtain ⟨b, rfl⟩ := h.acks a (by simp [hacks])
  refine ⟨b, acks, hacks, hwaiting, ?_⟩
  unfold Sending.readAck at hread
  rw [parse_ack, ok_bind] at hread
  simp only at hread
  split_ifs at hread with hbit
  · cases hread
    exact Or.inl ⟨hbit, rfl⟩
  · cases hread
    exact Or.inr ⟨hbit, rfl⟩

/-- Every step keeps the channels, losses, repetitions and timeouts included. -/
theorem step (h : q.Carrying) (hstep : q.step again e = some q') : q'.Carrying := by
  cases e with
  | call =>
    obtain ⟨-, m, messages, hmessages, rfl⟩ := step_call hstep
    have hclean := h.clean.2
    rw [hmessages] at hclean
    exact ⟨⟨hclean m List.mem_cons_self, fun m' hm' => hclean m' (List.mem_cons_of_mem _ hm')⟩,
      rfl, nofun, h.packets, h.acks⟩
  | send =>
    obtain ⟨-, p, hp, rfl⟩ := step_send hstep
    exact h.send hp
  | resend =>
    obtain ⟨hwaiting, p, hp, rfl⟩ := step_resend hstep
    have hsend := h.send hp
    rwa [← hwaiting] at hsend
  | ack =>
    obtain ⟨b, acks, hacks, -, hcase⟩ := h.take hstep
    have hsubset : acks ⊆ q.acks := by
      rw [hacks]
      exact List.subset_cons_self _ _
    rcases hcase with ⟨-, rfl⟩ | ⟨-, rfl⟩
    · refine ⟨h.clean, ?_, nofun, h.packets, fun a ha => h.acks a (hsubset ha)⟩
      show (!q.sending.alternate_bit) = bit (q.sending.index + 1)
      rw [h.alternate_bit, bit_succ]
    · exact h.of_subset rfl rfl (List.Subset.refl _) hsubset
  | packet =>
    obtain ⟨data, k, packets, -, hpackets, hsending, hmessages, hpackets', hacks'⟩ :=
      h.receive hstep
    refine ⟨by rw [hsending, hmessages]; exact h.clean, by rw [hsending]; exact h.alternate_bit,
      by rw [hsending]; exact h.waiting,
      fun p hp => h.packets p ?_, fun a ha => ?_⟩
    · rw [hpackets'] at hp
      rw [hpackets]
      exact List.mem_cons_of_mem _ hp
    · rw [hacks'] at ha
      rcases List.mem_append.mp ha with ha | ha
      · exact h.acks a ha
      · exact ⟨bit k, List.mem_singleton.mp ha⟩
  | giveUp =>
    obtain ⟨-, rfl⟩ := step_giveUp hstep
    exact h.of_subset rfl rfl (List.Subset.refl _) (List.Subset.refl _)
  | losePacket j =>
    simp only [Link.step] at hstep
    split_ifs at hstep
    cases hstep
    exact h.of_subset rfl rfl (List.eraseIdx_sublist _ _).subset (List.Subset.refl _)
  | loseAck j =>
    simp only [Link.step] at hstep
    split_ifs at hstep
    cases hstep
    exact h.of_subset rfl rfl (List.Subset.refl _) (List.eraseIdx_sublist _ _).subset
  | repeatPacket j =>
    simp only [Link.step] at hstep
    split_ifs at hstep
    cases hstep
    exact h.of_subset rfl rfl (fun _ => mem_of_mem_repeatAt) (List.Subset.refl _)
  | repeatAck j =>
    simp only [Link.step] at hstep
    split_ifs at hstep
    cases hstep
    exact h.of_subset rfl rfl (List.Subset.refl _) (fun _ => mem_of_mem_repeatAt)

end Carrying

/-! ## Every step lowers the work -/

section Work

variable {q q' : Link} {e : Event} {b : Bool}

theorem hasBit_packet {data : Str} (hclean : Clean data) (k : ℕ) :
    hasBit b (Rdt.packet data k).toText = (bit k == b) := by
  unfold hasBit
  rw [parse_packet hclean k]
  rfl

theorem acksBit_ack (b' : Bool) : acksBit b (AckPacket.toText ⟨0, 0, b'⟩) = (b' == b) := by
  unfold acksBit
  rw [parse_ack]

theorem Carrying.awaited_send (h : q.Carrying) {p : Packet} (hp : q.sending.current = some p) :
    awaited { q with
      sending := { q.sending with waiting := true }
      packets := q.packets ++ [p.toText] } = true := by
  obtain ⟨-, rfl⟩ := Sending.of_current hp
  unfold awaited
  simp [hasBit_packet h.clean.1, h.alternate_bit]

/-- One packet more in transit, which is awaited where none was. -/
theorem Carrying.work_send (h : q.Carrying) {p : Packet} (hp : q.sending.current = some p)
    (hnone : q.awaited = false) :
    work { q with
      sending := { q.sending with waiting := true }
      packets := q.packets ++ [p.toText] } + 1 ≤ q.work := by
  unfold work
  rw [h.awaited_send hp, hnone]
  simp only [List.length_append, List.length_singleton, if_true, Bool.false_eq_true, if_false]
  omega

/-- **A prompt step lowers the work**, but for a timeout of `RecvFrom`, which leaves it alone. -/
theorem Carrying.work_step (h : q.Carrying) (hprompt : q.Prompt e)
    (hstep : q.step true e = some q') :
    q'.work + (if decide (e ≠ .giveUp) = true then 1 else 0) ≤ q.work := by
  cases e with
  | call =>
    obtain ⟨hnone, m, messages, hmessages, rfl⟩ := step_call hstep
    have hend := Sending.le_of_current hnone
    have hlater : ∀ q : Link, (if q.awaited then 0 else 3) ≤ 3 := fun q => by split_ifs <;> omega
    have hstart := hlater { q with messages := messages, sending := Sending.start m }
    unfold work
    rw [hmessages, List.map_cons, List.sum_cons]
    simp only [Sending.start] at hstart ⊢
    simp
    omega
  | send =>
    obtain ⟨hwaiting, p, hp, rfl⟩ := step_send hstep
    have hnone : q.awaited = false := by
      unfold awaited
      rw [hwaiting, Bool.false_and]
    exact h.work_send hp hnone
  | resend =>
    obtain ⟨hwaiting, p, hp, rfl⟩ := step_resend hstep
    have hnone : q.awaited = false := by
      unfold awaited
      rw [hprompt.1, hprompt.2]
      simp
    have hwork := h.work_send hp hnone
    rwa [← hwaiting] at hwork
  | ack =>
    obtain ⟨b, acks, hacks, hwaiting, hcase⟩ := h.take hstep
    have hlt := h.waiting hwaiting
    rcases hcase with ⟨hbit, rfl⟩ | ⟨hbit, rfl⟩
    · unfold work awaited
      simp [hacks]
      omega
    · have hsame : awaited { q with acks := acks } = q.awaited := by
        unfold awaited
        rw [hacks, List.any_cons, acksBit_ack, beq_eq_false_iff_ne.mpr hbit, Bool.false_or]
      unfold work
      rw [hsame, hacks, List.length_cons]
      simp only [ne_eq, reduceCtorEq, not_false_eq_true, decide_true, if_true]
      omega
  | packet =>
    obtain ⟨data, k, packets, hclean, hpackets, hsending, hmessages, hpackets', hacks'⟩ :=
      h.receive hstep
    have hsame : q'.awaited = q.awaited := by
      unfold awaited
      rw [hsending, hpackets, hpackets', hacks', List.any_cons, List.any_append,
        hasBit_packet hclean, List.any_cons, List.any_nil, Bool.or_false, acksBit_ack,
        Bool.or_comm (q.acks.any _), ← Bool.or_assoc, Bool.or_comm (packets.any _)]
    unfold work
    rw [hsame, hsending, hmessages, hpackets, hpackets', hacks']
    simp
    omega
  | giveUp =>
    obtain ⟨-, rfl⟩ := step_giveUp hstep
    exact le_rfl
  | losePacket j => exact hprompt.elim
  | loseAck j => exact hprompt.elim
  | repeatPacket j => exact hprompt.elim
  | repeatAck j => exact hprompt.elim

/-- Short of the end some step other than a timeout of `RecvFrom` is possible. -/
theorem Carrying.moves (h : q.Carrying) (hnot : ¬ q.Finished) :
    ∃ e, q.Prompt e ∧ e ≠ .giveUp ∧ (q.step true e).isSome := by
  cases hpackets : q.packets with
  | cons p packets =>
    obtain ⟨data, k, hclean, rfl⟩ := h.packets p (by simp [hpackets])
    refine ⟨.packet, trivial, by simp, ?_⟩
    simp [Link.step, hpackets, Receiving.take_eq _ _ (parse_packet hclean k)]
  | nil =>
    cases hcurrent : q.sending.current with
    | none =>
      cases hmessages : q.messages with
      | nil => exact absurd ⟨hmessages, hcurrent, hpackets⟩ hnot
      | cons m messages => exact ⟨.call, trivial, by simp, by simp [Link.step, hcurrent, hmessages]⟩
    | some p =>
      cases hwaiting : q.sending.waiting with
      | false => exact ⟨.send, trivial, by simp, by simp [Link.step, hcurrent, hwaiting]⟩
      | true =>
        cases hacks : q.acks with
        | nil =>
          exact ⟨.resend, ⟨hpackets, hacks⟩, by simp, by simp [Link.step, hcurrent, hwaiting]⟩
        | cons a acks =>
          obtain ⟨b, rfl⟩ := h.acks a (by simp [hacks])
          obtain ⟨sending, hread⟩ : ∃ sending, q.sending.readAck
              (recvBuffer kMaxAckSize (AckPacket.toText ⟨0, 0, b⟩)) = .ok sending := by
            unfold Sending.readAck
            rw [parse_ack, ok_bind]
            split_ifs <;> exact ⟨_, rfl⟩
          exact ⟨.ack, trivial, by simp, by simp [Link.step, hwaiting, hacks, hread]⟩

end Work

/-- **`SendTo` comes to its end.** Let one process pass strings to `SendTo` and another call
`RecvFrom` again and again, and let the channels lose and repeat what they like and the timeouts
fire at any time, up to a state `q`. From there on let the channels be left alone and the timeout of
`SendTo` fire only with nothing in transit. Then at most `work` more steps other than timeouts of
`RecvFrom` follow, and as long as not everything has been sent and received, such a step is
possible. -/
theorem sends_finish {data : Str} {messages : List Str} (hclean : ∀ m ∈ data :: messages, Clean m)
    {es es' : List Event} {q q' : Link}
    (hrun : run (Link.step true) (Link.start data messages) es = some q)
    (hprompt : Meets (Link.step true) Prompt q es') (hrun' : run (Link.step true) q es' = some q') :
    es'.countP (fun e => decide (e ≠ .giveUp)) + q'.work ≤ q.work ∧
      (q'.Finished ∨ ∃ e, q'.Prompt e ∧ e ≠ .giveUp ∧ (q'.step true e).isSome) := by
  have hstep : ∀ (s : Link) (e : Event) (s' : Link), s.Carrying → s.step true e = some s' →
      s'.Carrying := fun s e s' h hs => h.step hs
  have hq := (Along.of_preserved hstep (Carrying.start hclean) es).last hrun
  have hq' := (Along.of_preserved hstep hq es').last hrun'
  refine ⟨countP_add_le_of_step (A := fun _ => True)
    (fun s e s' _ _ hC hI hs => ⟨hI.step hs, hI.work_step hC hs⟩) hq (along_true _ _) hprompt
    hrun', ?_⟩
  exact or_iff_not_imp_left.mpr hq'.moves

instance : DecidablePred Finished := fun _ => inferInstanceAs (Decidable (_ ∧ _))

/-- The first packet of a string is lost, and the call of `RecvFrom` gives up. -/
def firstLost : List Event := [.send, .losePacket 0, .giveUp]

/-- It is sent again, then the rest, and another string. -/
def sentAgain : List Event :=
  [.resend, .packet, .ack, .send, .packet, .giveUp, .ack, .call, .send, .packet, .ack]

/-- Ten steps of the nineteen that the state allows. -/
theorem sends_finish_lost : ∃ q q',
    run (Link.step true) (Link.start (str "twenty-five bytes of data") [str "a"]) firstLost =
      some q ∧
    run (Link.step true) q sentAgain = some q' ∧ q.work = 19 ∧ q'.Finished ∧
    sentAgain.countP (fun e => decide (e ≠ .giveUp)) + q'.work ≤ q.work := by
  have hrun : ∃ q, run (Link.step true)
      (Link.start (str "twenty-five bytes of data") [str "a"]) firstLost = some q ∧ q.work = 19 ∧
      Meets (Link.step true) Prompt q sentAgain ∧
      (run (Link.step true) q sentAgain).any (fun q' => decide q'.Finished) = true :=
    exists_of_check (by decide +kernel)
  obtain ⟨q, hq, hwork, hprompt, hrest⟩ := hrun
  obtain ⟨q', hq', hfinished⟩ := exists_of_check hrest
  exact ⟨q, q', hq, hq', hwork, hfinished, (sends_finish (by decide +kernel) hq hprompt hq').1⟩

end Link

end DGDB.Rdt
