import Mathlib
import DGDB.Rdt.Transfer

/-!
# A transfer to successive calls of `RecvFrom`

`RecvFrom` is called again whenever it returns, each time with the bit 0. The string arrives exactly
once when no call gives up inside it and no packet with the bit 0 reaches a later call; otherwise
the strings returned differ from it for good.
-/

namespace DGDB.Rdt

open EventSystem StopAndWait

namespace Link

/-- The strings the calls of `RecvFrom` return, the one of the call that is running last: it returns
what it has at its next timeout. -/
def strings (q : Link) : List Str := q.returned.map Return.data ++ [q.receiving.data]

/-- The strings returned that are not empty. -/
def delivered (q : Link) : List Str := q.strings.filter (· ≠ [])

/-- The bit of the packet that is next to reach the receiver. -/
def nextBit (q : Link) : Option Bool :=
  match q.packets with
  | [] => none
  | p :: _ =>
    match Packet.parse (recvBuffer kMaxPacketSize p) with
    | .ok p => some p.sequence_number
    | .error _ => none

/-- `SendTo` has returned and nothing is in transit. -/
def Quiescent (q : Link) : Prop :=
  q.messages = [] ∧ q.sending.current = none ∧ q.packets = [] ∧ q.acks = []

instance : DecidablePred Quiescent := fun _ => inferInstanceAs (Decidable (_ ∧ _))

/-- `RecvFrom` gives up only before the first packet of `data` or after the last, and once a call
has returned `data`, no packet with the bit 0 reaches the receiver. -/
def Orderly (data : Str) (q : Link) : Event → Prop
  | .giveUp => q.receiving.data = [] ∨ q.receiving.data = data
  | .packet => (∃ r ∈ q.returned, r.data = data) → q.nextBit ≠ some false
  | _ => True

/-- Something that is not `data` has been returned, or two strings have arrived. -/
def Spoiled (data : Str) (q : Link) : Prop :=
  (∃ r ∈ q.returned, r.data ≠ [] ∧ r.data ≠ data) ∨ 2 ≤ q.delivered.length

/-- No call has returned anything yet, or one has returned `data` and the one that is running has
nothing. -/
def Intact (data : Str) (q : Link) : Prop :=
  ∃ got, Transfer data got q ∧
    ((q.returned.map Return.data).filter (· ≠ []) = [] ∧
        q.receiving.data = data.take (kMaxPacketLength * got) ∧
        q.receiving.alternate_bit = bit got ∨
      (q.returned.map Return.data).filter (· ≠ []) = [data] ∧ got = chunkCount data ∧
        q.receiving.data = [] ∧ q.receiving.alternate_bit = false)

section Delivered

variable {data : Str} {again : Bool} {q q' : Link} {e : Event}

theorem delivered_eq (q : Link) : q.delivered =
    (q.returned.map Return.data).filter (· ≠ []) ++ [q.receiving.data].filter (· ≠ []) := by
  rw [delivered, strings, List.filter_append]

theorem step_strings (h : q.step again e = some q') :
    ∃ x : Str, q'.receiving.data = q.receiving.data ++ x ∧ q'.returned = q.returned ∨
      q'.receiving.data = [] ∧
        ∃ b, q'.returned = q.returned ++ [⟨q.receiving.data ++ x, b⟩] := by
  have hsame : q'.receiving = q.receiving → q'.returned = q.returned →
      ∃ x : Str, q'.receiving.data = q.receiving.data ++ x ∧ q'.returned = q.returned ∨
        q'.receiving.data = [] ∧
          ∃ b, q'.returned = q.returned ++ [⟨q.receiving.data ++ x, b⟩] := by
    intro hreceiving hreturned
    exact ⟨[], Or.inl ⟨by rw [hreceiving, List.append_nil], hreturned⟩⟩
  cases e with
  | call =>
    obtain ⟨-, m, messages, -, rfl⟩ := step_call h
    exact hsame rfl rfl
  | send =>
    obtain ⟨-, p, -, rfl⟩ := step_send h
    exact hsame rfl rfl
  | resend =>
    obtain ⟨-, p, -, rfl⟩ := step_resend h
    exact hsame rfl rfl
  | ack =>
    obtain ⟨-, a, acks, sending, -, -, rfl⟩ := step_ack h
    exact hsame rfl rfl
  | packet =>
    obtain ⟨-, p, packets, receiving, ack, returns, -, htake, rfl⟩ := step_packet h
    obtain ⟨x, hx⟩ : ∃ x, receiving.data = q.receiving.data ++ x := by
      obtain ⟨packet, -, htake⟩ := bind_eq_ok.mp htake
      have haccept : q.receiving.accept ⟨[], 0⟩ packet = (receiving, ack, returns) :=
        Except.ok.inj htake
      unfold Receiving.accept at haccept
      split_ifs at haccept
      · cases haccept
        exact ⟨packet.data, rfl⟩
      · cases haccept
        exact ⟨[], (List.append_nil _).symm⟩
    refine ⟨x, ?_⟩
    cases returns with
    | true => exact Or.inr ⟨rfl, false, by rw [← hx]; rfl⟩
    | false => exact Or.inl ⟨hx, rfl⟩
  | giveUp =>
    obtain ⟨-, rfl⟩ := step_giveUp h
    exact ⟨[], Or.inr ⟨rfl, true, by rw [List.append_nil]; rfl⟩⟩
  | losePacket j => simp only [step] at h; split_ifs at h; cases h; exact hsame rfl rfl
  | loseAck j => simp only [step] at h; split_ifs at h; cases h; exact hsame rfl rfl
  | repeatPacket j => simp only [step] at h; split_ifs at h; cases h; exact hsame rfl rfl
  | repeatAck j => simp only [step] at h; split_ifs at h; cases h; exact hsame rfl rfl

theorem Spoiled.step (h : Spoiled data q) (hstep : q.step again e = some q') : Spoiled data q' := by
  obtain ⟨x, hcase⟩ := step_strings hstep
  rcases h with ⟨r, hr, hne⟩ | hlen
  · refine Or.inl ⟨r, ?_, hne⟩
    rcases hcase with ⟨-, hreturned⟩ | ⟨-, b, hreturned⟩
    · rwa [hreturned]
    · rw [hreturned]
      exact List.mem_append_left _ hr
  · refine Or.inr (hlen.trans ?_)
    have hgrow : ([q.receiving.data].filter (· ≠ [])).length ≤
        ([q.receiving.data ++ x].filter (· ≠ [])).length := by
      by_cases hnil : q.receiving.data = [] <;> simp [hnil]
    rw [delivered_eq, delivered_eq, List.length_append, List.length_append]
    rcases hcase with ⟨hdata, hreturned⟩ | ⟨hdata, b, hreturned⟩
    · rw [hdata, hreturned]
      omega
    · rw [hdata, hreturned, List.map_append, List.filter_append, List.length_append]
      show _ ≤ _ + ([q.receiving.data ++ x].filter (· ≠ [])).length + _
      omega

theorem Spoiled.delivered_ne (h : Spoiled data q) : q.delivered ≠ [data] := by
  intro heq
  rcases h with ⟨r, hr, hne, hdata⟩ | hlen
  · have hmem : r.data ∈ q.delivered := by
      rw [delivered_eq]
      refine List.mem_append_left _ (List.mem_filter.mpr ⟨List.mem_map_of_mem hr, ?_⟩)
      simpa using hne
    rw [heq] at hmem
    exact hdata (List.mem_singleton.mp hmem)
  · rw [heq] at hlen
    simp at hlen

end Delivered

section Intact

variable {data : Str} {q q' : Link} {e : Event}

theorem Intact.start (data : Str) : Intact data (Link.start data []) :=
  ⟨0, Transfer.start data, Or.inl ⟨rfl, rfl, rfl⟩⟩

theorem filter_returned (h : (q.returned.map Return.data).filter (· ≠ []) = [data]) :
    ∃ r ∈ q.returned, r.data = data := by
  have hmem : data ∈ (q.returned.map Return.data).filter (· ≠ []) := by
    rw [h]
    exact List.mem_singleton_self data
  obtain ⟨r, hr, hdata⟩ := List.mem_map.mp (List.mem_of_mem_filter hmem)
  exact ⟨r, hr, hdata⟩

theorem not_returned (h : (q.returned.map Return.data).filter (· ≠ []) = [])
    (hne : data ≠ []) : ¬ ∃ r ∈ q.returned, r.data = data := by
  rintro ⟨r, hr, rfl⟩
  have hmem : r.data ∈ (q.returned.map Return.data).filter (· ≠ []) :=
    List.mem_filter.mpr ⟨List.mem_map_of_mem hr, by simpa using hne⟩
  rw [h] at hmem
  cases hmem

theorem filter_done (x : Str) (b : Bool) :
    ((q.done x b).returned.map Return.data).filter (· ≠ []) =
      (q.returned.map Return.data).filter (· ≠ []) ++ [x].filter (· ≠ []) := by
  simp [done]

/-- The transfer does not see that `RecvFrom` returns. -/
theorem transfer_done {got : ℕ} (h : Transfer data got q) (x : Str) (b : Bool) :
    Transfer data got (q.done x b) :=
  ⟨h.messages, h.string, h.alternate_bit, h.index_le, h.waiting, h.got_le, h.window⟩

theorem packet_after {got : ℕ} (hclean : Clean data) (h : Transfer data got q)
    (hgot : got = chunkCount data) (hdata : q.receiving.data = [])
    (hbit : q.receiving.alternate_bit = false) (hstep : q.step true .packet = some q') :
    Transfer data got q' ∧
      (q.nextBit = some true ∧ q'.receiving.data = [] ∧ q'.receiving.alternate_bit = false ∧
          (q'.returned.map Return.data).filter (· ≠ []) =
            (q.returned.map Return.data).filter (· ≠ []) ∨
        q.nextBit = some false ∧
          q'.delivered.length = ((q.returned.map Return.data).filter (· ≠ [])).length + 1) := by
  obtain ⟨-, p, packets, receiving, ack, returns, hpackets, htake, rfl⟩ := step_packet hstep
  obtain ⟨i, rfl, hlt, hi, htransfer⟩ := h.packet hpackets
  have hlast : i + 1 = got := by omega
  have hparse := parse_packet hclean i
  have hbit' : q.nextBit = some (bit i) := by
    unfold nextBit
    rw [hpackets]
    simp only [hparse]
    rfl
  rw [hlast] at htransfer
  rw [Receiving.take_eq _ _ hparse] at htake
  have htake' := Except.ok.inj htake
  cases hcase : bit i with
  | true =>
    rw [Receiving.accept_other _ (by rw [hbit, hcase]; rfl)] at htake'
    cases htake'
    rw [hcase] at hbit'
    by_cases hshort : (chunk data i).length < 10
    · rw [decide_eq_true hshort, if_pos rfl]
      refine ⟨transfer_done (htransfer _ _) _ _, Or.inl ⟨hbit', rfl, rfl, ?_⟩⟩
      rw [filter_done, hdata]
      simp
    · rw [decide_eq_false hshort, if_neg Bool.false_ne_true]
      exact ⟨htransfer _ _, Or.inl ⟨hbit', hdata, hbit, rfl⟩⟩
  | false =>
    rw [Receiving.accept_new _ (by rw [hbit, hcase])] at htake'
    cases htake'
    rw [hcase] at hbit'
    have hsome : q.receiving.data ++ chunk data i ≠ [] := by
      rw [hdata, List.nil_append]
      exact List.ne_nil_of_length_pos (length_chunk_pos hlt)
    by_cases hshort : (chunk data i).length < 10
    · rw [decide_eq_true hshort, if_pos rfl]
      refine ⟨transfer_done (htransfer _ _) _ _, Or.inr ⟨hbit', ?_⟩⟩
      rw [delivered_eq, filter_done]
      simp [done, Receiving.start, hsome]
    · rw [decide_eq_false hshort, if_neg Bool.false_ne_true]
      refine ⟨htransfer _ _, Or.inr ⟨hbit', ?_⟩⟩
      rw [delivered_eq]
      simp [hsome]

/-- **An orderly step keeps the string intact**, any other one spoils it. -/
theorem Intact.step (hclean : Clean data) (hne : data ≠ []) (h : Intact data q)
    (hstep : q.step true e = some q') :
    (Orderly data q e → Intact data q') ∧ (¬ Orderly data q e → Spoiled data q') := by
  obtain ⟨got, htransfer, hcall⟩ := h
  by_cases hpacket : e = .packet
  · subst hpacket
    rcases hcall with ⟨hnone, hdata, hbit⟩ | ⟨hone, hgot, hdata, hbit⟩
    · refine ⟨fun _ => ?_, fun hnot => absurd (fun hr => absurd hr (not_returned hnone hne)) hnot⟩
      obtain ⟨i, hlt, htransfer', ⟨-, hsame, hout⟩ | ⟨hshort, hsame, hout⟩⟩ :=
        htransfer.receive hclean hdata hbit hstep
      · exact ⟨i + 1, htransfer', Or.inl ⟨by rw [hsame]; exact hnone, hout⟩⟩
      · have hlast : i + 1 = chunkCount data := by
          by_contra hnot
          rw [length_chunk_of_lt (by omega)] at hshort
          exact absurd hshort (by decide)
        refine ⟨i + 1, htransfer', Or.inr ⟨?_, hlast, by rw [hout]; rfl, by rw [hout]; rfl⟩⟩
        rw [hsame, List.map_append, List.filter_append, hnone]
        simp [hne]
    · obtain ⟨htransfer', ⟨hb, hdata', hbit', hfilter⟩ | ⟨hb, hlen⟩⟩ :=
        packet_after hclean htransfer hgot hdata hbit hstep
      · refine ⟨fun _ => ⟨got, htransfer', Or.inr ⟨hfilter.trans hone, hgot, hdata', hbit'⟩⟩,
          fun hnot => absurd (fun _ => ?_) hnot⟩
        rw [hb]
        simp
      · refine ⟨fun horderly => absurd hb (horderly (filter_returned hone)), fun _ => Or.inr ?_⟩
        rw [hlen, hone]
        rfl
  by_cases hgiveUp : e = .giveUp
  · subst hgiveUp
    obtain ⟨-, rfl⟩ := step_giveUp hstep
    rcases hcall with ⟨hnone, hdata, hbit⟩ | ⟨hone, hgot, hdata, hbit⟩
    · refine ⟨fun horderly => ?_, fun hnot => ?_⟩
      · rcases horderly with hnil | hall
        · -- the call had nothing: no packet has been taken yet
          have hzero : got = 0 := by
            rw [hnil] at hdata
            have hlen := congrArg List.length hdata
            rw [List.length_nil, List.length_take, kMaxPacketLength] at hlen
            have := List.length_pos_iff.mpr hne
            omega
          refine ⟨got, transfer_done htransfer _ _, Or.inl ⟨?_, ?_, ?_⟩⟩
          · rw [filter_done, hnone, hnil]
            rfl
          · rw [hzero]
            rfl
          · rw [hzero]
            rfl
        · have hgot : got = chunkCount data := by
            refine le_antisymm htransfer.got_le ?_
            by_contra hlt
            obtain ⟨hlen, hlt'⟩ := length_take_chunks (not_le.mp hlt)
            rw [← hdata, hall] at hlen
            omega
          refine ⟨got, transfer_done htransfer _ _, Or.inr ⟨?_, hgot, rfl, rfl⟩⟩
          rw [filter_done, hnone, hall]
          simp [hne]
      · obtain ⟨hnil, hall⟩ := not_or.mp hnot
        exact Or.inl ⟨_, List.mem_append_right _ (List.mem_singleton_self _), hnil, hall⟩
    · refine ⟨fun _ => ?_, fun hnot => absurd (Or.inl hdata) hnot⟩
      refine ⟨got, transfer_done htransfer _ _, Or.inr ⟨?_, hgot, rfl, rfl⟩⟩
      rw [filter_done, hone, hdata]
      rfl
  · obtain ⟨htransfer', hreceiving, hreturned⟩ := htransfer.step hpacket hgiveUp hstep
    have horderly : Orderly data q e := by
      cases e with
      | packet => exact absurd rfl hpacket
      | giveUp => exact absurd rfl hgiveUp
      | _ => trivial
    refine ⟨fun _ => ⟨got, htransfer', ?_⟩, fun hnot => absurd horderly hnot⟩
    rw [hreceiving, hreturned]
    exact hcall

/-- An intact string has been delivered when nothing is in transit any more. -/
theorem Intact.delivered_eq (hne : data ≠ []) (h : Intact data q) (hquiet : q.Quiescent) :
    q.delivered = [data] := by
  obtain ⟨got, htransfer, hcall⟩ := h
  rw [Link.delivered_eq]
  rcases hcall with ⟨hnone, hdata, -⟩ | ⟨hone, -, hdata, -⟩
  · have hgot : chunkCount data ≤ got := by
      have hindex := htransfer.current_eq_none hquiet.2.1
      rcases htransfer.got_cases with h | h <;> omega
    rw [hnone, hdata, take_chunkCount hgot]
    simp [hne]
  · rw [hone, hdata]
    simp

end Intact

end Link

/-- **Exactly-once delivery, made exact.** When `SendTo` has returned and the channels are empty,
`RecvFrom` has delivered exactly the string, if and only if every step was orderly. -/
theorem delivered_once_iff {data : Str} (hclean : Clean data) (hne : data ≠ [])
    {es : List Link.Event} {q : Link}
    (hrun : run (Link.step true) (Link.start data []) es = some q) (hquiet : q.Quiescent) :
    q.delivered = [data] ↔ Meets (Link.step true) (Link.Orderly data) (Link.start data []) es := by
  have hend : (Meets (Link.step true) (Link.Orderly data) (Link.start data []) es ∧
        Link.Intact data q) ∨
      (¬ Meets (Link.step true) (Link.Orderly data) (Link.start data []) es ∧
        Link.Spoiled data q) := meets_or_stuck
    (fun s e s' hI hC hs => (Link.Intact.step hclean hne hI hs).1 hC)
    (fun s e s' hI hC hs => (Link.Intact.step hclean hne hI hs).2 hC)
    (fun s e s' hB hs => Link.Spoiled.step hB hs) (Link.Intact.start data) hrun
  rcases hend with ⟨hmeets, hintact⟩ | ⟨hnot, hspoiled⟩
  · exact ⟨fun _ => hmeets, fun _ => hintact.delivered_eq hne hquiet⟩
  · exact ⟨fun heq => absurd heq hspoiled.delivered_ne, fun hmeets => absurd hmeets hnot⟩

/-- The string "a", whose acknowledgement is lost: it is sent again and returned twice. -/
def ackLost : List Link.Event := [.send, .packet, .loseAck 0, .resend, .packet, .ack]

/-- **The string is not delivered exactly once.** -/
theorem delivered_twice : ∃ q, run (Link.step true) (Link.start (str "a") []) ackLost = some q ∧
    q.Quiescent ∧ q.receiving = Receiving.start ∧ q.delivered = [str "a", str "a"] :=
  exists_of_check (by decide +kernel)

/-- A string of two packets whose first acknowledgement is lost inside the call. -/
theorem delivered_once_resent : ∃ q,
    run (Link.step true) (Link.start (str "twenty-five bytes of data") [])
      [.send, .packet, .loseAck 0, .resend, .packet, .ack, .send, .packet, .ack] = some q ∧
    (q.delivered = [str "twenty-five bytes of data"] ↔
      Meets (Link.step true) (Link.Orderly (str "twenty-five bytes of data"))
        (Link.start (str "twenty-five bytes of data") [])
        [.send, .packet, .loseAck 0, .resend, .packet, .ack, .send, .packet, .ack]) := by
  have hrun : ∃ q, run (Link.step true) (Link.start (str "twenty-five bytes of data") [])
      [.send, .packet, .loseAck 0, .resend, .packet, .ack, .send, .packet, .ack] = some q ∧
      q.Quiescent := exists_of_check (by decide +kernel)
  obtain ⟨q, hq, hquiet⟩ := hrun
  exact ⟨q, hq, delivered_once_iff (by decide +kernel) (by decide +kernel) hq hquiet⟩

end DGDB.Rdt
