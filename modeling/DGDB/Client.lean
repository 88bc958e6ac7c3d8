import Mathlib
import DGDB.WaitResponse
import DGDB.Rdt.Progress

/-!
# A client and its answer

`WaitResponse` calls `RecvFrom` with one string, which it never clears, until that string begins
with an `M`; it prints it, and the client ends. A client whose `RecvFrom` gives up inside the answer
prints the beginning of it, and with no client left to acknowledge the rest `SendTo` never returns.
-/

namespace DGDB

open Decimal Rdt EventSystem StopAndWait

/-! ## What is printed of the beginning of an answer -/

theorem length_le_two_mul_newlines (u : Str) : u.length ≤ 2 * (newlines u).length := by
  induction u using newlines.induct with
  | case1 => exact le_refl _
  | case2 c => exact Nat.le_of_ble_eq_true rfl
  | case3 c d t hcd ih =>
    rw [newlines, if_pos hcd, List.length_cons, List.length_cons, List.length_cons]
    omega
  | case4 c d t hcd ih =>
    rw [newlines, if_neg hcd, List.length_cons, List.length_cons (a := c)]
    omega

/-- A pair that is cut apart does not make up for what is behind it. -/
theorem length_newlines_lt_append {u v : Str} (hne : v ≠ []) (hlast : v.getLast? ≠ some (ch 'n')) :
    (newlines u).length < (newlines (u ++ v)).length := by
  have hpos : ∀ {w : Str}, w ≠ [] → 0 < (newlines w).length := by
    intro w hw
    have := length_le_two_mul_newlines w
    have := List.length_pos_iff.mpr hw
    omega
  induction u using newlines.induct with
  | case1 => exact hpos hne
  | case2 c =>
    obtain ⟨d, t, rfl⟩ := List.exists_cons_of_ne_nil hne
    show 1 < (newlines (c :: d :: t)).length
    by_cases hcd : c = ch '\\' ∧ d = ch 'n'
    · have ht : t ≠ [] := by
        rintro rfl
        exact hlast (by rw [hcd.2]; rfl)
      rw [newlines, if_pos hcd, List.length_cons]
      have := hpos ht
      omega
    · rw [newlines, if_neg hcd, List.length_cons]
      have := hpos (List.cons_ne_nil d t)
      omega
  | case3 c d t hcd ih =>
    rw [List.cons_append, List.cons_append, newlines, newlines, if_pos hcd, if_pos hcd,
      List.length_cons, List.length_cons]
    exact Nat.succ_lt_succ ih
  | case4 c d t hcd ih =>
    rw [List.cons_append] at ih
    rw [List.cons_append, List.cons_append, newlines, newlines, if_neg hcd, if_neg hcd,
      List.length_cons, List.length_cons]
    exact Nat.succ_lt_succ ih

/-- What is printed of something that begins with an `M`. -/
def printedText (u : Str) : Str := ((newlines u).drop 4).take ((newlines u).length - 7)

theorem length_printedText {u : Str} (hlen : 7 ≤ (newlines u).length) :
    (printedText u).length + 7 = (newlines u).length := by
  unfold printedText
  rw [List.length_take, List.length_drop]
  omega

theorem waitResponse_eq {u : Str} (hhead : u.headD 0 = ch 'M') (hlen : 7 ≤ (newlines u).length)
    (hmax : u.length < 2 ^ 64) : waitResponse u = .ok (some (printedText u)) := by
  have hle := length_newlines_le u
  unfold waitResponse
  rw [if_pos hhead, replacePairs_eq]
  simp only [subSizeT_of_le hlen (by omega)]
  unfold substr
  rw [if_neg (show ¬ (newlines u).length < toSizeT 4 by
    show ¬ (newlines u).length < 4
    omega), toSizeT_natCast (n := (newlines u).length - 7) (by omega)]
  rfl

theorem newlines_append_of_not_mem {u v : Str} (h : ch '\\' ∉ u) :
    newlines (u ++ v) = u ++ newlines v := by
  induction u with
  | nil => rfl
  | cons c t ih =>
    obtain ⟨hc, ht⟩ := not_or.mp (mt List.mem_cons.mpr h)
    rw [List.cons_append, List.cons_append, ← ih ht]
    cases t ++ v with
    | nil => rfl
    | cons d w => rw [newlines, if_neg fun hcd => hc hcd.1.symm]

/-- The digits around the text take no part in a pair. -/
theorem newlines_answer (m : ResponseMsg) :
    newlines (parseNewMessageResponse m) =
      (ch 'M' :: padded 3 m.message.length) ++ (newlines m.message ++ idText m.request_id) := by
  have hfront : ch '\\' ∉ ch 'M' :: padded 3 m.message.length := by
    rw [List.mem_cons, not_or]
    exact ⟨by decide, not_mem_padded rfl _ _⟩
  have hsplit : parseNewMessageResponse m =
      (ch 'M' :: padded 3 m.message.length) ++ (m.message ++ idText m.request_id) := by
    simp [parseNewMessageResponse, sized]
  have hid : (idText m.request_id).headD 0 ≠ ch 'n' := headD_padded_ne rfl _ _
  rw [hsplit, newlines_append_of_not_mem hfront, newlines_append hid, idText, newlines_padded]

section Answer

variable {m : ResponseMsg}

theorem length_answer (hm : m.Fits) :
    (newlines (parseNewMessageResponse m)).length = (newlines m.message).length + 7 := by
  obtain ⟨hid, -⟩ := toSizeT_shortId hm.id
  have hlen : (padded 3 m.message.length).length = 3 :=
    length_padded (by norm_num) (Nat.lt_succ_of_le hm.message)
  rw [newlines_answer, List.length_append, List.length_append, List.length_cons, hlen, idText,
    length_padded (by norm_num) hid]
  omega

theorem length_buffer (hm : m.Fits) : (parseNewMessageResponse m).length ≤ 1006 := by
  obtain ⟨hid, -⟩ := toSizeT_shortId hm.id
  have hlen : m.message.length ≤ 999 := hm.message
  simp only [parseNewMessageResponse, sized, idText, List.length_cons, List.length_append,
    length_padded (show 0 < 3 by norm_num) hid,
    length_padded (show 0 < 3 by norm_num) (Nat.lt_succ_of_le hlen)]
  omega

theorem printedText_answer (hm : m.Fits) :
    printedText (parseNewMessageResponse m) = newlines m.message := by
  have hlen : (ch 'M' :: padded 3 m.message.length).length = 4 := by
    rw [List.length_cons, length_padded (by norm_num) (Nat.lt_succ_of_le hm.message)]
  unfold printedText
  rw [length_answer hm, Nat.add_sub_cancel, newlines_answer, ← hlen, List.drop_left, List.take_left]

theorem getLast?_answer {u v : Str} (h : u ++ v = parseNewMessageResponse m)
    (hv : v ≠ []) : v.getLast? ≠ some (ch 'n') := by
  have hid : idText m.request_id ≠ [] := by simp [idText, padded, decimal_ne_nil]
  have hlast : v.getLast? = (idText m.request_id).getLast? := by
    have hwhole := congrArg List.getLast? h
    rw [List.getLast?_append_of_ne_nil _ hv] at hwhole
    rw [hwhole, parseNewMessageResponse, ← List.cons_append, List.getLast?_append_of_ne_nil _ hid]
  rw [hlast]
  intro hn
  exact not_mem_padded rfl 3 (toSizeT m.request_id) (List.mem_of_getLast? hn)

/-- **The beginning of an answer is not taken for all of it**: less is printed. -/
theorem printedText_begin (hm : m.Fits) {u v : Str} (h : u ++ v = parseNewMessageResponse m)
    (hlen : 7 ≤ (newlines u).length) : printedText u = newlines m.message ↔ v = [] := by
  constructor
  · intro heq
    by_contra hv
    have hlt := length_newlines_lt_append (u := u) hv (getLast?_answer h hv)
    have htext := length_printedText hlen
    rw [h, length_answer hm] at hlt
    rw [heq] at htext
    omega
  · rintro rfl
    rw [List.append_nil] at h
    rw [h, printedText_answer hm]

end Answer

/-! ## `WaitResponse` over a link -/

namespace Client

/-- What `RecvFrom` has appended to `message`. -/
def message (q : Link) : Str := q.returned.flatMap Return.data

/-- `WaitResponse` has printed `message`, and the client has ended. -/
def Ended (q : Link) : Prop := (message q).headD 0 = ch 'M'

instance : DecidablePred Ended := fun _ => inferInstanceAs (Decidable (_ = _))

/-- `RecvFrom` is called until `message` begins with an `M`. -/
def step (q : Link) (e : Link.Event) : Option Link :=
  if Ended q ∧ (e = .packet ∨ e = .giveUp) then none else q.step true e

/-- `RecvFrom` does not give up inside `data`. -/
def Patient (data : Str) (q : Link) : Link.Event → Prop
  | .giveUp => q.receiving.data = [] ∨ q.receiving.data = data
  | _ => True

instance (data : Str) (q : Link) : DecidablePred (Patient data q)
  | .giveUp => inferInstanceAs (Decidable (_ ∨ _))
  | .call | .send | .resend | .ack | .packet => inferInstanceAs (Decidable True)
  | .losePacket _ | .loseAck _ | .repeatPacket _ | .repeatAck _ => inferInstanceAs (Decidable True)

/-- `message` is empty, or it is the beginning of `data` that was received before the client ended.
-/
structure Waiting (data : Str) (got : ℕ) (q : Link) : Prop where
  transfer : Transfer data got q
  message_eq : message q = [] ∧ q.receiving.data = data.take (kMaxPacketLength * got) ∧
      q.receiving.alternate_bit = bit got ∨
    0 < got ∧ message q = data.take (kMaxPacketLength * got)

section Waiting

variable {data : Str} {got : ℕ} {q q' : Link} {e : Link.Event}

theorem step_some (h : step q e = some q') :
    (Ended q → e ≠ .packet ∧ e ≠ .giveUp) ∧ q.step true e = some q' := by
  unfold step at h
  split_ifs at h with hend
  exact ⟨fun hended => not_or.mp fun he => hend ⟨hended, he⟩, h⟩

theorem Waiting.start (data : Str) : Waiting data 0 (Link.start data []) :=
  ⟨Transfer.start data, Or.inl ⟨rfl, rfl, rfl⟩⟩

theorem message_done (x : Str) (b : Bool) : message (q.done x b) = message q ++ x := by
  simp [message, Link.done]

theorem headD_take {n : ℕ} (hhead : data.headD 0 = ch 'M') (hn : 0 < n) :
    (data.take n).headD 0 = ch 'M' := by
  obtain ⟨c, t, rfl⟩ := List.exists_cons_of_ne_nil (l := data) (by rintro rfl; cases hhead)
  obtain ⟨k, rfl⟩ := Nat.exists_eq_succ_of_ne_zero hn.ne'
  exact hhead

theorem Waiting.ended_iff (h : Waiting data got q) (hhead : data.headD 0 = ch 'M') :
    Ended q ↔ message q ≠ [] := by
  constructor
  · intro hended hnil
    rw [Ended, hnil] at hended
    cases hended
  · intro hne
    rcases h.message_eq with ⟨hnil, -⟩ | ⟨hgot, hmessage⟩
    · exact absurd hnil hne
    · rw [Ended, hmessage]
      exact headD_take hhead (Nat.mul_pos (by decide) hgot)

theorem Waiting.receiving (h : Waiting data got q) (hhead : data.headD 0 = ch 'M')
    (hnil : message q = []) : q.receiving.data = data.take (kMaxPacketLength * got) ∧
      q.receiving.alternate_bit = bit got := by
  rcases h.message_eq with ⟨-, hdata, hbit⟩ | ⟨hgot, hmessage⟩
  · exact ⟨hdata, hbit⟩
  · have hM := headD_take hhead (show 0 < kMaxPacketLength * got from Nat.mul_pos (by decide) hgot)
    rw [← hmessage, hnil] at hM
    cases hM

theorem Waiting.open_iff (h : Waiting data got q) (hhead : data.headD 0 = ch 'M') :
    ¬ Ended q ↔ message q = [] := by
  rw [h.ended_iff hhead, not_not]

/-- **One step of a client that waits**: what it has begins the answer, and is the answer as long as
it is patient. -/
theorem Waiting.step (h : Waiting data got q) (hclean : Clean data) (hhead : data.headD 0 = ch 'M')
    (hstep : step q e = some q') :
    ∃ got', Waiting data got' q' ∧ (Ended q → got' = got ∧ message q' = message q) ∧
      (¬ Ended q → Patient data q e → message q' = [] ∨ message q' = data) ∧
      (¬ Patient data q e → message q' ≠ [] ∧ message q' ≠ data) := by
  obtain ⟨hend, hlink⟩ := step_some hstep
  have hopen : ¬ Ended q → message q = [] := (h.open_iff hhead).mp
  by_cases hpacket : e = .packet
  · subst hpacket
    have hnot : ¬ Ended q := fun hended => (hend hended).1 rfl
    obtain ⟨hdata, hbit⟩ := h.receiving hhead (hopen hnot)
    obtain ⟨i, hlt, htransfer, ⟨-, hsame, hdata', hbit'⟩ | ⟨hshort, hsame, -⟩⟩ :=
      h.transfer.receive hclean hdata hbit hlink
    · have hmessage : message q' = [] := by
        rw [message, hsame]
        exact hopen hnot
      exact ⟨i + 1, ⟨htransfer, Or.inl ⟨hmessage, hdata', hbit'⟩⟩, fun hended => absurd hended hnot,
        fun _ _ => Or.inl hmessage, fun hp => absurd trivial hp⟩
    · have hlast : chunkCount data ≤ i + 1 := by
        by_contra hnot
        rw [length_chunk_of_lt (not_le.mp hnot)] at hshort
        exact absurd hshort (by decide)
      have hmessage : message q' = data := by
        rw [message, hsame, List.flatMap_append]
        show message q ++ _ = _
        rw [hopen hnot]
        simp
      exact ⟨i + 1, ⟨htransfer, Or.inr ⟨Nat.succ_pos i, by rw [hmessage, take_chunkCount hlast]⟩⟩,
        fun hended => absurd hended hnot, fun _ _ => Or.inr hmessage, fun hp => absurd trivial hp⟩
  by_cases hgiveUp : e = .giveUp
  · subst hgiveUp
    have hnot : ¬ Ended q := fun hended => (hend hended).2 rfl
    obtain ⟨hdata, hbit⟩ := h.receiving hhead (hopen hnot)
    obtain ⟨-, rfl⟩ := Link.step_giveUp hlink
    have hmessage : message (q.done q.receiving.data true) = q.receiving.data := by
      rw [message_done, hopen hnot, List.nil_append]
    refine ⟨got, ⟨Link.transfer_done h.transfer _ _, ?_⟩, fun hended => absurd hended hnot, ?_, ?_⟩
    · rcases Nat.eq_zero_or_pos got with rfl | hgot
      · exact Or.inl ⟨by rw [hmessage, hdata]; rfl, rfl, rfl⟩
      · exact Or.inr ⟨hgot, by rw [hmessage, hdata]⟩
    · rw [hmessage]
      exact fun _ hp => hp
    · rw [hmessage]
      exact fun hp => not_or.mp hp
  · obtain ⟨htransfer, hreceiving, hreturned⟩ := h.transfer.step hpacket hgiveUp hlink
    have hsame : message q' = message q := by
      rw [message, hreturned]
      rfl
    have hpatient : Patient data q e := by
      cases e with
      | giveUp => exact absurd rfl hgiveUp
      | _ => trivial
    refine ⟨got, ⟨htransfer, ?_⟩, fun _ => ⟨rfl, hsame⟩,
      fun hnot _ => Or.inl (hsame.trans (hopen hnot)), fun hp => absurd hpatient hp⟩
    rw [hsame, hreceiving]
    exact h.message_eq

/-- A client that has been patient has nothing or all of the answer; another one has a part of it.
-/
theorem Waiting.run (hclean : Clean data) (hhead : data.headD 0 = ch 'M') {es : List Link.Event}
    (hrun : run Client.step (Link.start data []) es = some q) :
    (Meets Client.step (Patient data) (Link.start data []) es ∧
        (∃ got, Waiting data got q) ∧ (message q = [] ∨ message q = data)) ∨
      (¬ Meets Client.step (Patient data) (Link.start data []) es ∧
        (∃ got, Waiting data got q) ∧ message q ≠ [] ∧ message q ≠ data) := by
  refine meets_or_stuck
    (I := fun q => (∃ got, Waiting data got q) ∧ (message q = [] ∨ message q = data))
    (B := fun q => (∃ got, Waiting data got q) ∧ message q ≠ [] ∧ message q ≠ data)
    ?_ ?_ ?_ ⟨⟨0, Waiting.start data⟩, Or.inl rfl⟩ hrun
  · rintro s e s' ⟨⟨got, h⟩, hmessage⟩ hpatient hs
    obtain ⟨got', h', hended, hopen, -⟩ := h.step hclean hhead hs
    refine ⟨⟨got', h'⟩, ?_⟩
    by_cases hend : Ended s
    · rwa [(hended hend).2]
    · exact hopen hend hpatient
  · rintro s e s' ⟨⟨got, h⟩, -⟩ hnot hs
    obtain ⟨got', h', -, -, hpart⟩ := h.step hclean hhead hs
    exact ⟨⟨got', h'⟩, hpart hnot⟩
  · rintro s e s' ⟨⟨got, h⟩, hne, hpart⟩ hs
    obtain ⟨got', h', hended, -, -⟩ := h.step hclean hhead hs
    rw [(hended ((h.ended_iff hhead).mpr hne)).2]
    exact ⟨⟨got', h'⟩, hne, hpart⟩

theorem Waiting.printed {m : ResponseMsg} (hm : m.Fits)
    (h : Waiting (parseNewMessageResponse m) got q) (hended : Ended q) :
    waitResponse (message q) = .ok (some (printedText (message q))) ∧
      (printedText (message q) = newlines m.message ↔ message q = parseNewMessageResponse m) := by
  have hmessage :
      message q = (parseNewMessageResponse m).take (kMaxPacketLength * got) ∧ 0 < got := by
    rcases h.message_eq with ⟨hnil, -⟩ | ⟨hgot, hmessage⟩
    · exact absurd hnil ((h.ended_iff rfl).mp hended)
    · exact ⟨hmessage, hgot⟩
  obtain ⟨hmessage, hgot⟩ := hmessage
  have hparts : message q ++ (parseNewMessageResponse m).drop (kMaxPacketLength * got) =
      parseNewMessageResponse m := by
    rw [hmessage, List.take_append_drop]
  have hlen : 7 ≤ (newlines (message q)).length := by
    by_cases hall : (parseNewMessageResponse m).length ≤ kMaxPacketLength * got
    · rw [hmessage, List.take_of_length_le hall, length_answer hm]
      omega
    · -- the packets before the last are full
      have hdouble := length_le_two_mul_newlines (message q)
      have hfull : (message q).length = kMaxPacketLength * got := by
        rw [hmessage, List.length_take]
        omega
      unfold kMaxPacketLength at hfull
      omega
  have hmax : (message q).length < 2 ^ 64 := by
    have hwhole := length_buffer hm
    rw [hmessage, List.length_take]
    omega
  refine ⟨waitResponse_eq hended hlen hmax, ?_⟩
  rw [printedText_begin hm hparts hlen, List.drop_eq_nil_iff, hmessage, List.take_eq_self_iff]

theorem Waiting.arrived (h : Waiting data got q) (hhead : data.headD 0 = ch 'M')
    (hnil : message q = []) (hcurrent : q.sending.current = none) : q.receiving.data = data := by
  have hindex := h.transfer.current_eq_none hcurrent
  have hle : chunkCount data ≤ got := by
    rcases h.transfer.got_cases with h | h <;> omega
  rw [(h.receiving hhead hnil).1, take_chunkCount hle]

end Waiting

end Client

open Client in
/-- **What a client prints, made exact.** It prints the text of the answer if and only if `RecvFrom`
has not given up inside the answer; otherwise it prints less. If it has not ended when `SendTo`
returns, it prints the text at its next timeout. -/
theorem answer_printed_iff {m : ResponseMsg} (hm : m.Fits)
    (hclean : Clean (parseNewMessageResponse m)) {es : List Link.Event} {q : Link}
    (hrun : run Client.step (Link.start (parseNewMessageResponse m) []) es = some q) :
    (Ended q → ∃ text, waitResponse (message q) = .ok (some text) ∧
      (text = newlines m.message ↔ Meets Client.step (Patient (parseNewMessageResponse m))
        (Link.start (parseNewMessageResponse m) []) es)) ∧
    (¬ Ended q → q.sending.current = none → ∃ q', Client.step q .giveUp = some q' ∧
      waitResponse (message q') = .ok (some (newlines m.message))) := by
  have hhead : (parseNewMessageResponse m).headD 0 = ch 'M' := rfl
  rcases Waiting.run hclean hhead hrun with
    ⟨hmeets, ⟨got, h⟩, hmessage⟩ | ⟨hnot, ⟨got, h⟩, hne, hpart⟩
  · refine ⟨fun hended => ?_, fun hopen hcurrent => ?_⟩
    · obtain ⟨hprinted, htext⟩ := h.printed hm hended
      have hall := hmessage.resolve_left ((h.ended_iff hhead).mp hended)
      exact ⟨_, hprinted, fun _ => hmeets, fun _ => htext.mpr hall⟩
    · have hnil := (h.open_iff hhead).mp hopen
      refine ⟨q.done q.receiving.data true, ?_, ?_⟩
      · unfold Client.step
        rw [if_neg fun h => hopen h.1]
        rfl
      · have hmax := length_buffer hm
        rw [message_done, hnil, h.arrived hhead hnil hcurrent, List.nil_append,
          waitResponse_eq hhead (by rw [length_answer hm]; omega) (by omega), printedText_answer hm]
  · have hended := (h.ended_iff hhead).mpr hne
    refine ⟨fun _ => ?_, fun hopen => absurd hended hopen⟩
    obtain ⟨hprinted, htext⟩ := h.printed hm hended
    exact ⟨_, hprinted, fun heq => absurd (htext.mp heq) hpart, fun hmeets => absurd hmeets hnot⟩

/-- The answer of an accepted create: two packets, the second of 15 bytes. -/
def storedAnswer : ResponseMsg := ⟨storedText, 1⟩

/-- `RecvFrom` gives up after the first packet. -/
def impatient : List Link.Event := [.send, .packet, .ack, .giveUp]

theorem answer_printed_part : ∃ q,
    run Client.step (Link.start (parseNewMessageResponse storedAnswer) []) impatient = some q ∧
    ∃ text, waitResponse (Client.message q) = .ok (some text) ∧
      text ≠ newlines storedAnswer.message := by
  have hrun : ∃ q,
      run Client.step (Link.start (parseNewMessageResponse storedAnswer) []) impatient = some q ∧
      Client.Ended q := exists_of_check (by decide +kernel)
  obtain ⟨q, hq, hended⟩ := hrun
  obtain ⟨text, hprinted, htext⟩ := (answer_printed_iff (by decide) (by decide +kernel) hq).1 hended
  refine ⟨q, hq, text, hprinted, fun h => absurd (htext.mp h) ?_⟩
  decide +kernel

/-! ## What becomes of `SendTo` -/

namespace Client

variable {data : Str} {got : ℕ} {q q' : Link} {e : Link.Event}

/-- The client has ended, and no acknowledgement of the last packet is in transit. -/
structure Abandoned (data : Str) (got : ℕ) (q : Link) : Prop where
  waiting : Waiting data got q
  ended : Ended q
  index_lt : q.sending.index < chunkCount data
  lost : got < chunkCount data ∨ q.acks.any (Link.acksBit q.sending.alternate_bit) = false

theorem Abandoned.current (h : Abandoned data got q) : q.sending.current ≠ none := by
  intro hcurrent
  have := h.waiting.transfer.current_eq_none hcurrent
  have := h.index_lt
  omega

/-- Nobody acknowledges what is sent to a client that has ended. -/
theorem Abandoned.step (h : Abandoned data got q) (hclean : Clean data)
    (hhead : data.headD 0 = ch 'M') (hstep : Client.step q e = some q') :
    Abandoned data got q' := by
  obtain ⟨got', hwaiting, hsame, -, -⟩ := h.waiting.step hclean hhead hstep
  obtain ⟨rfl, hmessage⟩ := hsame h.ended
  obtain ⟨hend, hlink⟩ := step_some hstep
  have hended : Ended q' := by
    rw [Ended, hmessage]
    exact h.ended
  have hgot := hwaiting.transfer.got_cases
  have hfew : ∀ {acks : List Str} {b : Bool}, (∀ a ∈ acks, a ∈ q.acks) →
      q.acks.any (Link.acksBit b) = false → acks.any (Link.acksBit b) = false := by
    intro acks b hsub hnone
    rw [List.any_eq_false] at hnone ⊢
    exact fun a ha => hnone a (hsub a ha)
  have hkeep : q'.sending.index = q.sending.index →
      q'.sending.alternate_bit = q.sending.alternate_bit → (∀ a ∈ q'.acks, a ∈ q.acks) →
      Abandoned data got' q' := by
    intro hindex hbit hsub
    refine ⟨hwaiting, hended, by rw [hindex]; exact h.index_lt, ?_⟩
    rw [hbit]
    exact h.lost.imp_right (hfew hsub)
  cases e with
  | call =>
    obtain ⟨hcurrent, -⟩ := Link.step_call hlink
    exact absurd hcurrent h.current
  | send =>
    obtain ⟨-, p, -, rfl⟩ := Link.step_send hlink
    exact hkeep rfl rfl fun a ha => ha
  | resend =>
    obtain ⟨-, p, -, rfl⟩ := Link.step_resend hlink
    exact hkeep rfl rfl fun a ha => ha
  | ack =>
    obtain ⟨-, a, acks, sending, hacks, hread, rfl⟩ := Link.step_ack hlink
    rcases h.lost with hlt | hnone
    · exact ⟨hwaiting, hended, by omega, Or.inl hlt⟩
    · -- an acknowledgement of another packet
      have ha := List.any_eq_false.mp hnone a (by rw [hacks]; exact List.mem_cons_self)
      obtain ⟨ack, hparse, hread⟩ := bind_eq_ok.mp hread
      unfold Link.acksBit at ha
      rw [hparse] at ha
      rw [if_neg (by simpa using ha)] at hread
      cases hread
      refine hkeep rfl rfl fun b hb => ?_
      rw [hacks]
      exact List.mem_cons_of_mem a hb
  | packet => exact absurd rfl (hend h.ended).1
  | giveUp => exact absurd rfl (hend h.ended).2
  | losePacket j =>
    simp only [Link.step] at hlink
    split_ifs at hlink
    cases hlink
    exact hkeep rfl rfl fun a ha => ha
  | loseAck j =>
    simp only [Link.step] at hlink
    split_ifs at hlink
    cases hlink
    exact hkeep rfl rfl fun a ha => List.mem_of_mem_eraseIdx ha
  | repeatPacket j =>
    simp only [Link.step] at hlink
    split_ifs at hlink
    cases hlink
    exact hkeep rfl rfl fun a ha => ha
  | repeatAck j =>
    simp only [Link.step] at hlink
    split_ifs at hlink
    cases hlink
    exact hkeep rfl rfl fun a ha => mem_of_mem_repeatAt ha

/-- An acknowledgement of the last packet that is in transit makes `SendTo` return: it takes the
acknowledgements one by one. -/
theorem returns_of_ack (hlast : q.sending.index + 1 = chunkCount data)
    (htransfer : Transfer data got q) (hwaiting : q.sending.waiting = true)
    (hack : q.acks.any (Link.acksBit q.sending.alternate_bit) = true) :
    ∃ fs q', run Client.step q fs = some q' ∧ q'.sending.current = none := by
  induction hacks : q.acks generalizing q with
  | nil =>
    rw [hacks] at hack
    cases hack
  | cons a acks ih =>
    obtain ⟨labels, sent, hlabels, -, -, -⟩ := htransfer.window
    rw [hacks] at hlabels
    cases labels with
    | nil => cases hlabels
    | cons i labels =>
      obtain ⟨rfl, -⟩ := List.cons.inj hlabels
      have hread : q.sending.readAck (recvBuffer kMaxAckSize (AckPacket.toText ⟨0, 0, bit i⟩)) =
          .ok (if bit i = q.sending.alternate_bit then
            ⟨q.sending.data, q.sending.index + 1, !q.sending.alternate_bit, false⟩
          else q.sending) := by
        unfold Sending.readAck
        rw [parse_ack, ok_bind]
        split_ifs <;> rfl
      have hstep : Client.step q .ack = some { q with
          sending := if bit i = q.sending.alternate_bit then
              ⟨q.sending.data, q.sending.index + 1, !q.sending.alternate_bit, false⟩
            else q.sending
          acks := acks } := by
        unfold Client.step
        rw [if_neg (by simp)]
        simp only [Link.step, hwaiting, hacks, hread]
      by_cases hbit : bit i = q.sending.alternate_bit
      · rw [if_pos hbit] at hstep
        refine ⟨[.ack], _, run_cons.mpr ⟨_, hstep, rfl⟩, ?_⟩
        show (makePackets q.sending.data)[q.sending.index + 1]? = none
        rw [htransfer.string]
        exact getElem?_makePackets_none hlast.ge
      · rw [if_neg hbit] at hstep
        have htransfer' := htransfer.ack hwaiting hacks (hread.trans (by rw [if_neg hbit]))
        rw [hacks, List.any_cons, Link.acksBit_ack, beq_false_of_ne hbit, Bool.false_or] at hack
        obtain ⟨fs, q', hrun, hcurrent⟩ :=
          ih (q := { q with acks := acks }) hlast htransfer' hwaiting hack rfl
        exact ⟨.ack :: fs, q', run_cons.mpr ⟨_, hstep, hrun⟩, hcurrent⟩

end Client

open Client in
/-- **What becomes of `SendTo`, made exact.** Once the client has ended, `SendTo` can still return
if and only if an acknowledgement of the last packet of the answer is in transit; otherwise it sends
its packet for ever, in every continuation. -/
theorem send_returns_iff {data : Str} (hclean : Clean data) (hhead : data.headD 0 = ch 'M')
    {es : List Link.Event} {q : Link} (hrun : run Client.step (Link.start data []) es = some q)
    (hended : Ended q) :
    (∃ fs q', run Client.step q fs = some q' ∧ q'.sending.current = none) ↔
      q.sending.current = none ∨ q.sending.index + 1 = chunkCount data ∧
        q.acks.any (Link.acksBit q.sending.alternate_bit) = true := by
  obtain ⟨got, h⟩ : ∃ got, Waiting data got q := by
    rcases Waiting.run hclean hhead hrun with ⟨-, h, -⟩ | ⟨-, h, -⟩
    · exact h
    · exact h
  constructor
  · rintro ⟨fs, q', hrun', hcurrent⟩
    by_contra hnot
    obtain ⟨hopen, hlost⟩ := not_or.mp hnot
    have hindex : q.sending.index < chunkCount data := by
      obtain ⟨p, hp⟩ := Option.ne_none_iff_exists'.mp hopen
      exact (h.transfer.current hp).1
    have hgot := h.transfer.got_cases
    have hstart : Abandoned data got q := by
      refine ⟨h, hended, hindex, ?_⟩
      by_cases hlast : q.sending.index + 1 = chunkCount data
      · exact Or.inr (Bool.eq_false_iff.mpr fun hack => hlost ⟨hlast, hack⟩)
      · exact Or.inl (by omega)
    have hend := (Along.of_preserved (fun s e s' hs hstep => Abandoned.step hs hclean hhead hstep)
      hstart fs).last hrun'
    exact hend.current hcurrent
  · rintro (hcurrent | ⟨hlast, hack⟩)
    · exact ⟨[], q, rfl, hcurrent⟩
    · cases hwaiting : q.sending.waiting with
      | true => exact returns_of_ack hlast h.transfer hwaiting hack
      | false =>
        have hlt : q.sending.index < chunkCount data := by omega
        have hcurrent : q.sending.current = some (packet data q.sending.index) := by
          rw [← h.transfer.string] at hlt ⊢
          exact Sending.current_of_lt hlt
        have hstep : Client.step q .send = some { q with
            sending := { q.sending with waiting := true }
            packets := q.packets ++ [(packet data q.sending.index).toText] } := by
          unfold Client.step
          rw [if_neg (by simp)]
          simp [Link.step, hcurrent, hwaiting]
        obtain ⟨fs, q', hrun', hnone⟩ := returns_of_ack (q := { q with
            sending := { q.sending with waiting := true }
            packets := q.packets ++ [(packet data q.sending.index).toText] }) hlast
          (h.transfer.copy hlt) rfl hack
        exact ⟨.send :: fs, q', run_cons.mpr ⟨_, hstep, hrun'⟩, hnone⟩

/-- The client that gave up inside the answer holds the server up for ever. -/
theorem send_returns_never : ∃ q,
    run Client.step (Link.start (parseNewMessageResponse storedAnswer) []) impatient = some q ∧
    ¬ ∃ fs q', run Client.step q fs = some q' ∧ q'.sending.current = none := by
  have hrun : ∃ q,
      run Client.step (Link.start (parseNewMessageResponse storedAnswer) []) impatient = some q ∧
      Client.Ended q ∧ ¬ (q.sending.current = none ∨
        q.sending.index + 1 = chunkCount (parseNewMessageResponse storedAnswer) ∧
          q.acks.any (Link.acksBit q.sending.alternate_bit) = true) :=
    exists_of_check (by decide +kernel)
  obtain ⟨q, hq, hended, hnot⟩ := hrun
  refine ⟨q, hq, fun hreturns => hnot ?_⟩
  exact (send_returns_iff (by decide +kernel) rfl hq hended).mp hreturns

end DGDB
