import Mathlib
import DGDB.Rdt.Fields
import DGDB.Rdt.Datagram

/-!
# A changed byte

What `RecvFrom` makes of the text of a packet in which one byte has been replaced. The checksum
covers the data alone, so a change is seen in the data but not always in the fields and separators
before it; and the length that ends a call is looked at whether the packet is corrupt or not.
-/

namespace DGDB.Rdt

open Decimal ErrorDetection

/-! ## The places of a packet -/

/-- A byte in the text of a packet. -/
inductive Place
  | checksum (i : ℕ)
  | firstTab
  | len (i : ℕ)
  | secondTab
  | bit
  | thirdTab
  | data (i : ℕ)
  deriving DecidableEq, Repr

namespace Packet

variable (p : Packet)

/-- The byte at a place, if the packet has that place. -/
def byteAt : Place → Option UInt8
  | .checksum i => (decimal p.checksum)[i]?
  | .firstTab => some tab
  | .len i => (decimal p.len)[i]?
  | .secondTab => some tab
  | .bit => some (flagChar p.sequence_number)
  | .thirdTab => some tab
  | .data i => p.data[i]?

/-- The text before a place. -/
def before : Place → Str
  | .checksum i => (decimal p.checksum).take i
  | .firstTab => decimal p.checksum
  | .len i => decimal p.checksum ++ tab :: (decimal p.len).take i
  | .secondTab => decimal p.checksum ++ tab :: decimal p.len
  | .bit => decimal p.checksum ++ tab :: (decimal p.len ++ [tab])
  | .thirdTab => decimal p.checksum ++ tab :: (decimal p.len ++ [tab, flagChar p.sequence_number])
  | .data i => decimal p.checksum ++
      tab :: (decimal p.len ++ tab :: flagChar p.sequence_number :: tab :: p.data.take i)

/-- The text behind a place. -/
def after : Place → Str
  | .checksum i => (decimal p.checksum).drop (i + 1) ++
      tab :: (decimal p.len ++ tab :: flagChar p.sequence_number :: tab :: p.data)
  | .firstTab => decimal p.len ++ tab :: flagChar p.sequence_number :: tab :: p.data
  | .len i => (decimal p.len).drop (i + 1) ++ tab :: flagChar p.sequence_number :: tab :: p.data
  | .secondTab => flagChar p.sequence_number :: tab :: p.data
  | .bit => tab :: p.data
  | .thirdTab => p.data
  | .data i => p.data.drop (i + 1)

/-- The text of the packet with another byte at a place. -/
def changed (c : UInt8) (place : Place) : Str := p.before place ++ c :: p.after place

variable {p} {place : Place} {b : UInt8}

theorem take_append_cons_drop {t : Str} {i : ℕ} (h : t[i]? = some b) :
    t.take i ++ b :: t.drop (i + 1) = t := by
  obtain ⟨hi, rfl⟩ := List.getElem?_eq_some_iff.mp h
  rw [List.getElem_cons_drop, List.take_append_drop]

theorem changed_byteAt (h : p.byteAt place = some b) : p.changed b place = p.toText := by
  unfold changed toText
  cases place with
  | checksum i =>
    conv_rhs => rw [← take_append_cons_drop (show (decimal p.checksum)[i]? = some b from h)]
    simp [before, after]
  | len i =>
    conv_rhs => rw [← take_append_cons_drop (show (decimal p.len)[i]? = some b from h)]
    simp [before, after]
  | data i =>
    conv_rhs => rw [← take_append_cons_drop (show p.data[i]? = some b from h)]
    simp [before, after]
  | firstTab | secondTab | bit | thirdTab =>
    cases h
    simp [before, after]

theorem exists_place {pre post : Str} (h : p.toText = pre ++ b :: post) :
    ∃ place, p.byteAt place = some b ∧ p.before place = pre ∧ p.after place = post := by
  unfold toText at h
  rcases append_eq_substitute h with ⟨i, hi, rfl, rfl⟩ | ⟨u, rfl, h₁⟩
  · exact ⟨.checksum i, hi, rfl, rfl⟩
  rcases List.cons_eq_append_iff.mp h₁ with ⟨rfl, hcons⟩ | ⟨v, rfl, h₂⟩
  · cases hcons
    exact ⟨.firstTab, rfl, by simp [before], rfl⟩
  rcases append_eq_substitute h₂ with ⟨i, hi, rfl, rfl⟩ | ⟨u, rfl, h₃⟩
  · exact ⟨.len i, hi, rfl, rfl⟩
  rcases List.cons_eq_append_iff.mp h₃ with ⟨rfl, hcons⟩ | ⟨v, rfl, h₄⟩
  · cases hcons
    exact ⟨.secondTab, rfl, by simp [before], rfl⟩
  rcases List.cons_eq_append_iff.mp h₄ with ⟨rfl, hcons⟩ | ⟨u, rfl, h₅⟩
  · cases hcons
    exact ⟨.bit, rfl, rfl, rfl⟩
  rcases List.cons_eq_append_iff.mp h₅ with ⟨rfl, hcons⟩ | ⟨v, rfl, h₆⟩
  · cases hcons
    exact ⟨.thirdTab, rfl, rfl, rfl⟩
  have hi : p.data[v.length]? = some b := by simp [h₆]
  refine ⟨.data v.length, hi, ?_, ?_⟩
  · simp [before, h₆]
  · simp [after, h₆]

end Packet

/-! ## What is missed -/

/-- `RecvFrom` does not take the datagram for a packet: the header does not parse or the checksum
disagrees, and the call neither appends anything nor returns. -/
def Rejected (datagram : Str) : Prop :=
  ((∃ e, Packet.parse (recvBuffer kMaxPacketSize datagram) = .error e) ∨
    ∃ p, Packet.parse (recvBuffer kMaxPacketSize datagram) = .ok p ∧ isCorrupt p = true) ∧
  ∀ (r : Receiving) (from_addr : Host) (out : Option (Receiving × AckPacket × Bool)),
    r.takeDatagram from_addr datagram = .ok out →
      ∃ r' ack, out = some (r', ack, false) ∧ r'.data = r.data

/-- The byte `c` at a place of the packet makes another packet of it that agrees with its checksum
or has a length below 10. -/
def Missed (p : Packet) (c : UInt8) : Place → Prop
  | .checksum i =>
    let digits := decimal p.checksum
    if c = 0 then i = 1 ∨ 150 ≤ value (digits.take i) ∧ value (digits.take i) ≤ 159
    else if c = tab then 0 < i ∧ i + 1 < digits.length ∧
      (value (digits.drop (i + 1)) < 10 ∨ i = 1 ∧ p.checksum + p.sequence_number.toNat = 65485)
    else IsNumber (digits.set i c) ∧ p.len < 10
  | .firstTab =>
    if c = 0 then p.checksum < 10 ∨ 150 ≤ p.checksum ∧ p.checksum ≤ 159
    else IsNumber (p.data.takeWhile (· != tab))
  | .len i => if c = 0 then i = 1 else c ≠ tab ∧ IsNumber ((decimal p.len).set i c)
  | .secondTab =>
    if c = 0 then p.len < 10 ∨ calculateChecksum (decimal p.len) = p.checksum
    else IsNumber (p.data.takeWhile (· != tab)) ∧
      (isDigit c = false ∧ p.len < 10 ∨ calculateChecksum (skipped [] p.data) = 0)
  | .bit => isDigit c = true
  | .thirdTab =>
    let bit := flagChar p.sequence_number
    if c = 0 then p.len < 10 ∨ calculateChecksum [bit] = p.checksum
    else IsNumber (bit :: c :: p.data.takeWhile (· != tab)) ∧
      (p.len < 10 ∨ calculateChecksum (skipped [bit, c] p.data) = 0)
  | .data i => p.len < 10 ∨ (c = 0 ∨ c = newline) ∧ calculateChecksum (p.data.drop i) = 0

/-- What `MakePackets` guarantees of a packet of a string without newlines and NULs. -/
structure Made (p : Packet) : Prop where
  checksum : calculateChecksum p.data = p.checksum
  len : p.data.length = p.len
  pos : 0 < p.len
  le : p.len ≤ 20
  clean : Clean p.data

theorem made_of_mem {data : Str} {p : Packet} (hclean : Clean data) (hp : p ∈ makePackets data) :
    Made p := by
  obtain ⟨k, hk⟩ := List.mem_iff_getElem?.mp hp
  by_cases hlt : k < chunkCount data
  · rw [getElem?_makePackets hlt] at hk
    cases hk
    exact ⟨rfl, rfl, length_chunk_pos hlt, List.length_take_le _ _,
      fun h => hclean.1 (mem_of_mem_chunk h), fun h => hclean.2 (mem_of_mem_chunk h)⟩
  · rw [getElem?_makePackets_none (not_lt.mp hlt)] at hk
    cases hk

section Reading

variable {p : Packet} {place : Place} {b c : UInt8} {t u x y z data : Str}

theorem Made.checksum_lt (hp : Made p) : p.checksum < 2 ^ 16 :=
  hp.checksum ▸ calculateChecksum_lt p.data

theorem Made.length_toText (hp : Made p) : p.toText.length < kMaxPacketSize := by
  have hle := hp.le
  have htext := length_toText_le hp.checksum_lt (show p.len < 100 by omega)
  rw [hp.len] at htext
  unfold kMaxPacketSize
  omega

/-- A NUL cuts the text at its place. -/
theorem Made.recvBuffer_changed (hp : Made p) (hb : p.byteAt place = some b) :
    recvBuffer kMaxPacketSize (p.changed c place) =
      if c = 0 then p.before place else p.changed c place := by
  have htext : p.before place ++ b :: p.after place = p.toText := Packet.changed_byteAt hb
  have hlen : (p.changed c place).length ≤ kMaxPacketSize := by
    have h := hp.length_toText
    rw [← htext] at h
    simp only [Packet.changed, List.length_append, List.length_cons] at h ⊢
    omega
  have hflag : flagChar p.sequence_number ≠ 0 := by
    cases p.sequence_number <;> decide
  have hnul : (0 : UInt8) ∉ p.toText := by
    simp only [Packet.toText, List.mem_append, List.mem_cons, not_or]
    exact ⟨not_mem_decimal rfl _, by decide, not_mem_decimal rfl _, by decide, hflag.symm,
      by decide, hp.clean.2⟩
  rw [← htext, List.mem_append, List.mem_cons, not_or, not_or] at hnul
  unfold recvBuffer
  rw [List.take_of_length_le hlen, Packet.changed, takeWhile_line hnul.1]
  split_ifs with hc
  · rw [hc, List.takeWhile_cons_of_neg (by simp), List.append_nil]
  · rw [List.takeWhile_cons_of_pos (by simpa using hc), takeWhile_ne hnul.2.2]

/-- A datagram is rejected if, whenever it is read, it is corrupt and has a length of 10 or more. -/
theorem rejected_iff (hne : t ≠ []) (hlen : t.length < kMaxPacketSize) :
    Rejected t ↔ ∀ q, Packet.parse (recvBuffer kMaxPacketSize t) = .ok q →
      isCorrupt q = true ∧ 10 ≤ q.len := by
  have htake : ∀ (r : Receiving) (from_addr : Host), r.takeDatagram from_addr t =
      (do return some (← r.take from_addr (recvBuffer kMaxPacketSize t))) := by
    intro r from_addr
    rw [Receiving.takeDatagram, if_neg (not_le.mpr hlen), if_neg hne]
  constructor
  · rintro ⟨hparse, hturn⟩ q hq
    have hcorrupt : isCorrupt q = true := by
      rcases hparse with ⟨e, he⟩ | ⟨q', hq', hcorrupt⟩
      · rw [hq] at he
        cases he
      · rw [hq] at hq'
        cases hq'
        exact hcorrupt
    refine ⟨hcorrupt, ?_⟩
    obtain ⟨r', ack, hout, -⟩ := hturn Receiving.start ⟨[], 0⟩ _ (by
      rw [htake, Receiving.take_eq _ _ hq, ok_bind]
      rfl)
    unfold Receiving.accept at hout
    rw [if_neg (by simp [hcorrupt])] at hout
    have hreturns := congrArg (fun o => o.map fun x => x.2.2) hout
    simpa using hreturns
  · intro h
    cases hparse : Packet.parse (recvBuffer kMaxPacketSize t) with
    | error e =>
      refine ⟨Or.inl ⟨e, hparse⟩, fun r from_addr out hout => ?_⟩
      rw [htake, Receiving.take, hparse] at hout
      cases hout
    | ok q =>
      obtain ⟨hcorrupt, hlong⟩ := h q hparse
      refine ⟨Or.inr ⟨q, hparse, hcorrupt⟩, fun r from_addr out hout => ?_⟩
      rw [htake, Receiving.take_eq _ _ hparse, ok_bind] at hout
      cases hout
      unfold Receiving.accept
      rw [if_neg (by simp [hcorrupt]), decide_eq_false (not_lt.mpr hlong)]
      exact ⟨_, _, rfl, rfl⟩

theorem not_rejected_iff (hne : t ≠ []) (hlen : t.length < kMaxPacketSize)
    (hparse : Packet.parse (recvBuffer kMaxPacketSize t) = readFields x y z data) :
    ¬ Rejected t ↔ ∃ m n, Reads x m ∧ Reads y n ∧ IsNumber z ∧
      (m = calculateChecksum data ∨ n < 10) := by
  rw [rejected_iff hne hlen, hparse, isNumber_iff]
  constructor
  · intro h
    simp only [not_forall, not_and, not_le] at h
    obtain ⟨q, hq, hmissed⟩ := h
    obtain ⟨m, hm, hq⟩ := bind_eq_ok.mp hq
    obtain ⟨n, hn, hq⟩ := bind_eq_ok.mp hq
    obtain ⟨bit, hbit, hq⟩ := bind_eq_ok.mp hq
    cases hq
    refine ⟨_, _, ⟨m, hm, rfl⟩, ⟨n, hn, rfl⟩, ⟨bit, hbit⟩, ?_⟩
    simp only [isCorrupt, bne_iff_ne, ne_eq] at hmissed
    tauto
  · rintro ⟨_, _, ⟨m, hm, rfl⟩, ⟨n, hn, rfl⟩, ⟨bit, hbit⟩, hmissed⟩ h
    obtain ⟨hcorrupt, hlong⟩ := h _ (by
      rw [readFields, hm, ok_bind, hn, ok_bind, hbit, ok_bind]
      rfl)
    simp only [isCorrupt, bne_iff_ne, ne_eq] at hcorrupt
    rcases hmissed with hsum | hshort
    · exact hcorrupt hsum
    · exact absurd hlong (not_le.mpr hshort)

theorem Made.not_rejected_changed (hp : Made p) (hb : p.byteAt place = some b)
    (hparse : Packet.parse (if c = 0 then p.before place else p.changed c place) =
      readFields x y z data) :
    ¬ Rejected (p.changed c place) ↔ ∃ m n, Reads x m ∧ Reads y n ∧ IsNumber z ∧
      (m = calculateChecksum data ∨ n < 10) := by
  apply not_rejected_iff
  · simp [Packet.changed]
  · have htext : p.before place ++ b :: p.after place = p.toText := Packet.changed_byteAt hb
    have h := hp.length_toText
    rw [← htext] at h
    simp only [Packet.changed, List.length_append, List.length_cons] at h ⊢
    omega
  · rw [hp.recvBuffer_changed hb, hparse]

theorem Made.missed_of_reads {m n : ℕ} (hp : Made p) (hb : p.byteAt place = some b)
    (hparse : Packet.parse (if c = 0 then p.before place else p.changed c place) =
      readFields x y z data) (hx : Reads x m) (hy : Reads y n) :
    ¬ Rejected (p.changed c place) ↔ IsNumber z ∧ (n < 10 ∨ calculateChecksum data = m) := by
  rw [hp.not_rejected_changed hb hparse]
  constructor
  · rintro ⟨m', n', hm, hn, hz, h⟩
    rw [hm.unique hx, hn.unique hy] at h
    exact ⟨hz, h.symm.imp_right Eq.symm⟩
  · rintro ⟨hz, h⟩
    exact ⟨m, n, hx, hy, hz, h.symm.imp_left Eq.symm⟩

theorem tab_not_mem_decimal (n : ℕ) : tab ∉ decimal n := not_mem_decimal rfl n

theorem tab_not_mem_flagChar (bit : Bool) : tab ∉ [flagChar bit] := by
  cases bit <;> decide

theorem isNumber_flagChar (bit : Bool) : IsNumber [flagChar bit] :=
  isNumber_iff.mpr ⟨_, stoi_flagChar bit⟩

theorem Made.reads_checksum (hp : Made p) : Reads (decimal p.checksum) p.checksum :=
  reads_decimal hp.checksum_lt

theorem Made.reads_len (hp : Made p) : Reads (decimal p.len) p.len :=
  reads_decimal (by have := hp.le; omega)

theorem Made.length_checksum (hp : Made p) : (decimal p.checksum).length ≤ 5 :=
  length_decimal_le (by norm_num) (by have := hp.checksum_lt; omega)

theorem Made.length_len (hp : Made p) : (decimal p.len).length ≤ 2 :=
  length_decimal_le (by norm_num) (by have := hp.le; omega)

theorem Made.missed_data {i : ℕ} (hp : Made p) (hb : p.byteAt (.data i) = some b)
    (hc : c ≠ b) : ¬ Rejected (p.changed c (.data i)) ↔ Missed p c (.data i) := by
  have hwhole : p.data.take i ++ b :: p.data.drop (i + 1) = p.data :=
    Packet.take_append_cons_drop hb
  have htake : newline ∉ p.data.take i := fun h => hp.clean.1 (List.mem_of_mem_take h)
  have hdrop : newline ∉ p.data.drop (i + 1) := fun h => hp.clean.1 (List.mem_of_mem_drop h)
  have hparse : Packet.parse (if c = 0 then p.before (.data i) else p.changed c (.data i)) =
      readFields (decimal p.checksum) (decimal p.len) [flagChar p.sequence_number]
        (if c = 0 ∨ c = newline then p.data.take i
          else p.data.take i ++ c :: p.data.drop (i + 1)) := by
    have hfour := parse_four (tab_not_mem_decimal p.checksum) (tab_not_mem_decimal p.len)
      (tab_not_mem_flagChar p.sequence_number)
    by_cases hnul : c = 0
    · have hcut := hfour (p.data.take i)
      rw [takeWhile_ne htake] at hcut
      rw [if_pos hnul, if_pos (Or.inl hnul), ← hcut]
      simp [Packet.before]
    rw [if_neg hnul]
    have htext : p.changed c (.data i) = decimal p.checksum ++ tab :: (decimal p.len ++
        tab :: ([flagChar p.sequence_number] ++
          tab :: (p.data.take i ++ c :: p.data.drop (i + 1)))) := by
      simp [Packet.changed, Packet.before, Packet.after]
    rw [htext, hfour, takeWhile_line htake]
    by_cases hline : c = newline
    · rw [if_pos (Or.inr hline), List.takeWhile_cons_of_neg (by simp [hline]), List.append_nil]
    · rw [if_neg (by simp [hnul, hline]), List.takeWhile_cons_of_pos (by simpa using hline),
        takeWhile_ne hdrop]
  rw [hp.missed_of_reads hb hparse hp.reads_checksum hp.reads_len, Missed]
  have hnum := isNumber_flagChar p.sequence_number
  by_cases hcut : c = 0 ∨ c = newline
  · have hsum : calculateChecksum (p.data.take i) = p.checksum ↔
        calculateChecksum (p.data.drop i) = 0 := by
      rw [← hp.checksum, ← calculateChecksum_lose_right (u := p.data.take i),
        List.take_append_drop]
      exact eq_comm
    rw [if_pos hcut, hsum]
    simp [hnum, hcut]
  · have hsum : calculateChecksum (p.data.take i ++ c :: p.data.drop (i + 1)) ≠ p.checksum := by
      rw [← hp.checksum]
      conv_rhs => rw [← hwhole]
      exact calculateChecksum_substitute_ne hc
    rw [if_neg hcut]
    simp [hnum, hcut, hsum]

theorem Made.missed_thirdTab (hp : Made p) (hc : c ≠ tab) :
    ¬ Rejected (p.changed c .thirdTab) ↔ Missed p c .thirdTab := by
  have hb : p.byteAt .thirdTab = some tab := rfl
  have hC := tab_not_mem_decimal p.checksum
  have hL := tab_not_mem_decimal p.len
  have hf := tab_not_mem_flagChar p.sequence_number
  by_cases hnul : c = 0
  · have hparse : Packet.parse (if c = 0 then p.before .thirdTab else p.changed c .thirdTab) =
        readFields (decimal p.checksum) (decimal p.len) [flagChar p.sequence_number]
          [flagChar p.sequence_number] := by
      rw [if_pos hnul, ← parse_three hC hL hf]
      rfl
    rw [hp.missed_of_reads hb hparse hp.reads_checksum hp.reads_len, Missed, if_pos hnul]
    simp [isNumber_flagChar]
  · have hbit : tab ∉ [flagChar p.sequence_number, c] := by
      rw [List.mem_cons, not_or]
      exact ⟨fun h => hf (by simp [h]), by simpa using hc.symm⟩
    obtain ⟨data, hdata, hsum⟩ := parse_data hC hL hbit hp.clean.1
    have hparse : Packet.parse (if c = 0 then p.before .thirdTab else p.changed c .thirdTab) =
        readFields (decimal p.checksum) (decimal p.len)
          ([flagChar p.sequence_number, c] ++ p.data.takeWhile (· != tab)) data := by
      rw [if_neg hnul, ← hdata]
      simp [Packet.changed, Packet.before, Packet.after]
    rw [hp.missed_of_reads hb hparse hp.reads_checksum hp.reads_len, Missed, if_neg hnul, ← hsum,
      hp.checksum, eq_comm (a := p.checksum)]
    rfl

theorem Made.missed_bit (hp : Made p) : ¬ Rejected (p.changed c .bit) ↔ Missed p c .bit := by
  have hb : p.byteAt .bit = some (flagChar p.sequence_number) := rfl
  have hC := tab_not_mem_decimal p.checksum
  have hL := tab_not_mem_decimal p.len
  have hdigit : IsNumber [c] ↔ isDigit c = true := by
    rw [isNumber_iff]
    constructor
    · rintro ⟨n, hn⟩
      by_contra hnot
      obtain ⟨hne, -⟩ := stoi_cons_digits (by simpa using hnot) (by simp) hn
      exact hne rfl
    · intro h
      exact ⟨_, stoi_of_headD h (by simp)⟩
  rw [Missed]
  by_cases hnul : c = 0
  · have hparse : Packet.parse (if c = 0 then p.before .bit else p.changed c .bit) =
        readFields (decimal p.checksum) (decimal p.len) [] [] := by
      rw [if_pos hnul, ← parse_three hC hL (List.not_mem_nil)]
      rfl
    rw [hp.missed_of_reads hb hparse hp.reads_checksum hp.reads_len, hnul]
    simp [not_isNumber_nil, isDigit]
  by_cases htab : c = tab
  · have hparse : Packet.parse (if c = 0 then p.before .bit else p.changed c .bit) =
        readFields (decimal p.checksum) (decimal p.len) []
          ((tab :: p.data).takeWhile (· != newline)) := by
      rw [if_neg hnul, ← parse_four hC hL (List.not_mem_nil), htab]
      simp [Packet.changed, Packet.before, Packet.after]
    rw [hp.missed_of_reads hb hparse hp.reads_checksum hp.reads_len, htab]
    simp [not_isNumber_nil, isDigit, tab]
  · have hparse : Packet.parse (if c = 0 then p.before .bit else p.changed c .bit) =
        readFields (decimal p.checksum) (decimal p.len) [c] p.data := by
      have hfour := parse_four hC hL (show tab ∉ [c] by simpa using Ne.symm htab) p.data
      rw [takeWhile_ne hp.clean.1] at hfour
      rw [if_neg hnul, ← hfour]
      simp [Packet.changed, Packet.before, Packet.after]
    rw [hp.missed_of_reads hb hparse hp.reads_checksum hp.reads_len, hdigit]
    simp [hp.checksum]

theorem isDigit_headD_decimal (n : ℕ) (t : Str) : isDigit ((decimal n ++ t).headD 0) = true := by
  obtain ⟨d, u, hdu⟩ := List.exists_cons_of_ne_nil (decimal_ne_nil n)
  rw [hdu]
  exact isDigit_of_mem_decimal (hdu ▸ List.mem_cons_self)

/-- The length, the byte in place of the tab behind it and the bit are read as one number. -/
theorem Made.len_joined (hp : Made p) :
    ∃ n, Reads (decimal p.len ++ [c, flagChar p.sequence_number]) n ∧
      (n < 10 ↔ isDigit c = false ∧ p.len < 10) := by
  have hlen := hp.length_len
  have hle := hp.le
  have hpos := hp.pos
  have htake : (decimal p.len ++ [c, flagChar p.sequence_number]).takeWhile isDigit =
      decimal p.len ++ [c, flagChar p.sequence_number].takeWhile isDigit :=
    List.takeWhile_append_of_pos fun _ hd => isDigit_of_mem_decimal hd
  have hsize : (decimal p.len ++ [c, flagChar p.sequence_number]).length ≤ 9 := by
    rw [List.length_append, List.length_cons, List.length_singleton]
    omega
  by_cases hdigit : isDigit c = true
  · have hall : ∀ d ∈ [c, flagChar p.sequence_number], isDigit d = true := by
      cases p.sequence_number <;> simpa [flagChar] using ⟨hdigit, by decide⟩
    have hrest : value [c, flagChar p.sequence_number] < 10 ^ 2 := value_lt hall
    have hvalue : value ((decimal p.len ++ [c, flagChar p.sequence_number]).takeWhile isDigit) =
        p.len * 10 ^ 2 + value [c, flagChar p.sequence_number] := by
      rw [htake, List.takeWhile_eq_self_iff.mpr hall, value_append, value_decimal]
      rfl
    refine ⟨_, reads_headD (isDigit_headD_decimal _ _) hsize (by omega), ?_⟩
    rw [hvalue, hdigit]
    exact ⟨fun h => by omega, fun h => by cases h.1⟩
  · have hvalue : value ((decimal p.len ++ [c, flagChar p.sequence_number]).takeWhile isDigit) =
        p.len := by
      rw [htake, List.takeWhile_cons_of_neg hdigit, List.append_nil, value_decimal]
    refine ⟨_, reads_headD (isDigit_headD_decimal _ _) hsize (by omega), ?_⟩
    rw [hvalue]
    simpa using fun _ => hdigit

theorem Made.missed_secondTab (hp : Made p) (hc : c ≠ tab) :
    ¬ Rejected (p.changed c .secondTab) ↔ Missed p c .secondTab := by
  have hb : p.byteAt .secondTab = some tab := rfl
  have hC := tab_not_mem_decimal p.checksum
  have hL := tab_not_mem_decimal p.len
  by_cases hnul : c = 0
  · have hparse : Packet.parse (if c = 0 then p.before .secondTab else p.changed c .secondTab) =
        readFields (decimal p.checksum) (decimal p.len) (decimal p.len) (decimal p.len) := by
      rw [if_pos hnul, ← parse_two hC hL]
      rfl
    rw [hp.missed_of_reads hb hparse hp.reads_checksum hp.reads_len, Missed, if_pos hnul]
    exact and_iff_right (isNumber_iff_reads.mpr ⟨_, hp.reads_len⟩)
  · have hjoined : tab ∉ decimal p.len ++ [c, flagChar p.sequence_number] := by
      rw [List.mem_append, List.mem_cons, not_or, not_or]
      exact ⟨hL, hc.symm, tab_not_mem_flagChar _⟩
    obtain ⟨data, hdata, hsum⟩ := parse_data hC hjoined List.not_mem_nil hp.clean.1
    have hparse : Packet.parse (if c = 0 then p.before .secondTab else p.changed c .secondTab) =
        readFields (decimal p.checksum) (decimal p.len ++ [c, flagChar p.sequence_number])
          ([] ++ p.data.takeWhile (· != tab)) data := by
      rw [if_neg hnul, ← hdata]
      simp [Packet.changed, Packet.before, Packet.after]
    obtain ⟨n, hn, hshort⟩ := hp.len_joined (c := c)
    rw [hp.missed_of_reads hb hparse hp.reads_checksum hn, Missed, if_neg hnul, ← hsum, hp.checksum,
      ← hshort, List.nil_append, eq_comm (a := p.checksum)]

theorem Made.missed_firstTab (hp : Made p) (hc : c ≠ tab) :
    ¬ Rejected (p.changed c .firstTab) ↔ Missed p c .firstTab := by
  have hb : p.byteAt .firstTab = some tab := rfl
  have hC := tab_not_mem_decimal p.checksum
  by_cases hnul : c = 0
  · have hparse : Packet.parse (if c = 0 then p.before .firstTab else p.changed c .firstTab) =
        readFields (decimal p.checksum) (decimal p.checksum) (decimal p.checksum)
          (decimal p.checksum) := by
      rw [if_pos hnul, ← parse_one hC]
      rfl
    rw [hp.missed_of_reads hb hparse hp.reads_checksum hp.reads_checksum, Missed, if_pos hnul,
      ← calculateChecksum_decimal hp.checksum_lt]
    exact and_iff_right (isNumber_iff_reads.mpr ⟨_, hp.reads_checksum⟩)
  · have hjoined : tab ∉ decimal p.checksum ++ c :: decimal p.len := by
      rw [List.mem_append, List.mem_cons, not_or, not_or]
      exact ⟨hC, hc.symm, tab_not_mem_decimal _⟩
    obtain ⟨data, hdata, -⟩ :=
      parse_data hjoined (tab_not_mem_flagChar p.sequence_number) List.not_mem_nil hp.clean.1
    have hparse : Packet.parse (if c = 0 then p.before .firstTab else p.changed c .firstTab) =
        readFields (decimal p.checksum ++ c :: decimal p.len) [flagChar p.sequence_number]
          ([] ++ p.data.takeWhile (· != tab)) data := by
      rw [if_neg hnul, ← hdata]
      simp [Packet.changed, Packet.before, Packet.after]
    have hsize : (decimal p.checksum ++ c :: decimal p.len).length ≤ 9 := by
      have h5 := hp.length_checksum
      have h2 := hp.length_len
      rw [List.length_append, List.length_cons]
      omega
    obtain ⟨m, hm⟩ := isNumber_iff_reads.mp
      (isNumber_iff.mpr ⟨_, stoi_of_headD (isDigit_headD_decimal p.checksum _) hsize⟩)
    -- the bit is read as the length
    have hbit : Reads [flagChar p.sequence_number] p.sequence_number.toNat :=
      ⟨_, stoi_flagChar _, by cases p.sequence_number <;> rfl⟩
    have hshort : p.sequence_number.toNat < 10 := by
      cases p.sequence_number <;> decide
    rw [hp.missed_of_reads hb hparse hm hbit, Missed, if_neg hnul, List.nil_append]
    exact and_iff_left (Or.inl hshort)

/-! ### The digits -/

theorem set_eq_take_drop {i : ℕ} (h : t[i]? = some b) (c : UInt8) :
    t.set i c = t.take i ++ c :: t.drop (i + 1) := by
  rw [List.set_eq_take_append_cons_drop, if_pos (List.getElem?_eq_some_iff.mp h).1]

theorem tab_not_mem_take (n i : ℕ) : tab ∉ (decimal n).take i :=
  fun h => tab_not_mem_decimal n (List.mem_of_mem_take h)

theorem tab_not_mem_drop (n i : ℕ) : tab ∉ (decimal n).drop i :=
  fun h => tab_not_mem_decimal n (List.mem_of_mem_drop h)

theorem tab_not_mem_set {n i : ℕ} (h : (decimal n)[i]? = some b) (hc : c ≠ tab) :
    tab ∉ (decimal n).set i c := by
  rw [set_eq_take_drop h, List.mem_append, List.mem_cons, not_or, not_or]
  exact ⟨tab_not_mem_take n i, hc.symm, tab_not_mem_drop n (i + 1)⟩

theorem reads_take {n i : ℕ} (hne : (decimal n).take i ≠ [])
    (hvalue : value ((decimal n).take i) < 2 ^ 16) :
    Reads ((decimal n).take i) (value ((decimal n).take i)) :=
  reads_digits hne (fun _ hd => isDigit_of_mem_decimal (List.mem_of_mem_take hd)) hvalue

/-- A NUL in the length: of two digits one is left, which is read as the bit as well. -/
theorem Made.missed_len_nul {i : ℕ} (hp : Made p) (hb : p.byteAt (.len i) = some b) :
    ¬ Rejected (p.changed 0 (.len i)) ↔ i = 1 := by
  have hi : i < (decimal p.len).length := (List.getElem?_eq_some_iff.mp hb).1
  have h2 := hp.length_len
  have hparse : Packet.parse (if (0 : UInt8) = 0 then p.before (.len i) else p.changed 0 (.len i)) =
      readFields (decimal p.checksum) ((decimal p.len).take i) ((decimal p.len).take i)
        ((decimal p.len).take i) := by
    rw [if_pos rfl, ← parse_two (tab_not_mem_decimal _) (tab_not_mem_take _ i)]
    rfl
  by_cases h0 : i = 0
  · rw [hp.not_rejected_changed hb hparse, h0, List.take_zero]
    refine iff_of_false ?_ (by decide)
    rintro ⟨m, n, -, hn, -⟩
    exact not_reads_nil hn
  · have hone : i = 1 := by omega
    have hlen : ((decimal p.len).take i).length = 1 := by
      rw [List.length_take]
      omega
    have hvalue := value_lt (l := (decimal p.len).take i)
      fun d hd => isDigit_of_mem_decimal (List.mem_of_mem_take hd)
    rw [hlen] at hvalue
    have hne : (decimal p.len).take i ≠ [] := List.ne_nil_of_length_pos (by omega)
    have hreads := reads_take hne (by omega)
    rw [hp.missed_of_reads hb hparse hp.reads_checksum hreads]
    exact iff_of_true ⟨isNumber_iff_reads.mpr ⟨_, hreads⟩, Or.inl hvalue⟩ hone

/-- A tab in the length: one of the two parts is empty. -/
theorem Made.rejected_len_tab {i : ℕ} (hp : Made p) (hb : p.byteAt (.len i) = some b) :
    Rejected (p.changed tab (.len i)) := by
  have hi : i < (decimal p.len).length := (List.getElem?_eq_some_iff.mp hb).1
  have h2 := hp.length_len
  have hparse : Packet.parse (if tab = 0 then p.before (.len i) else p.changed tab (.len i)) =
      readFields (decimal p.checksum) ((decimal p.len).take i) ((decimal p.len).drop (i + 1))
        ((flagChar p.sequence_number :: tab :: p.data).takeWhile (· != newline)) := by
    rw [if_neg (by decide), ← parse_four (tab_not_mem_decimal _) (tab_not_mem_take _ i)
      (tab_not_mem_drop _ (i + 1))]
    simp [Packet.changed, Packet.before, Packet.after]
  by_contra hmissed
  obtain ⟨m, n, -, hn, hnum, -⟩ := (hp.not_rejected_changed hb hparse).mp hmissed
  by_cases h0 : i = 0
  · rw [h0, List.take_zero] at hn
    exact not_reads_nil hn
  · rw [List.drop_eq_nil_of_le (by omega)] at hnum
    exact not_isNumber_nil hnum

theorem Made.missed_len {i : ℕ} (hp : Made p) (hb : p.byteAt (.len i) = some b) :
    ¬ Rejected (p.changed c (.len i)) ↔ Missed p c (.len i) := by
  rw [Missed]
  by_cases hnul : c = 0
  · rw [if_pos hnul, hnul]
    exact hp.missed_len_nul hb
  rw [if_neg hnul]
  by_cases htab : c = tab
  · rw [htab]
    exact iff_of_false (not_not.mpr (hp.rejected_len_tab hb)) fun h => h.1 rfl
  have hparse : Packet.parse (if c = 0 then p.before (.len i) else p.changed c (.len i)) =
      readFields (decimal p.checksum) ((decimal p.len).set i c) [flagChar p.sequence_number]
        p.data := by
    have hfour := parse_four (tab_not_mem_decimal p.checksum) (tab_not_mem_set hb htab)
      (tab_not_mem_flagChar p.sequence_number) p.data
    rw [takeWhile_ne hp.clean.1] at hfour
    rw [if_neg hnul, ← hfour, set_eq_take_drop hb]
    simp [Packet.changed, Packet.before, Packet.after]
  rw [hp.not_rejected_changed hb hparse]
  constructor
  · rintro ⟨m, n, -, hn, -⟩
    exact ⟨htab, isNumber_iff_reads.mpr ⟨n, hn⟩⟩
  · rintro ⟨-, hnum⟩
    obtain ⟨n, hn⟩ := isNumber_iff_reads.mp hnum
    exact ⟨_, n, hp.reads_checksum, hn, isNumber_flagChar _, Or.inl hp.checksum.symm⟩

theorem Made.take_checksum {i : ℕ} (hp : Made p) (hi : i < (decimal p.checksum).length)
    (h0 : 0 < i) :
    0 < value ((decimal p.checksum).take i) ∧
      (decimal p.checksum).take i = decimal (value ((decimal p.checksum).take i)) ∧
      value ((decimal p.checksum).take i) < 2 ^ 16 ∧
      (value ((decimal p.checksum).take i) < 10 ↔ i = 1) := by
  have hlen : ((decimal p.checksum).take i).length = i := by
    rw [List.length_take]
    omega
  have hpos : 0 < p.checksum := by
    by_contra hzero
    rw [show p.checksum = 0 by omega] at hi
    have hone : (decimal 0).length = 1 := rfl
    omega
  obtain ⟨hvalue, htext⟩ := decimal_beginning hpos (List.take_prefix i _)
    (List.ne_nil_of_length_pos (by omega))
  have hlt : value ((decimal p.checksum).take i) ≤ p.checksum := by
    have hwhole := value_append ((decimal p.checksum).take i) ((decimal p.checksum).drop i)
    rw [List.take_append_drop, value_decimal] at hwhole
    have : 0 < 10 ^ ((decimal p.checksum).drop i).length := by positivity
    nlinarith
  refine ⟨hvalue, htext, hlt.trans_lt hp.checksum_lt, ?_, ?_⟩
  · intro hsmall
    rw [decimal_of_lt hsmall] at htext
    rw [htext] at hlen
    exact hlen.symm
  · rintro rfl
    have h := value_lt (l := (decimal p.checksum).take 1)
      fun d hd => isDigit_of_mem_decimal (List.mem_of_mem_take hd)
    rwa [hlen] at h

theorem Made.reads_take_checksum {i : ℕ} (hp : Made p) (hi : i < (decimal p.checksum).length)
    (h0 : 0 < i) :
    Reads ((decimal p.checksum).take i) (value ((decimal p.checksum).take i)) := by
  obtain ⟨-, -, hlt, -⟩ := hp.take_checksum hi h0
  refine reads_take (List.ne_nil_of_length_pos ?_) hlt
  rw [List.length_take]
  omega

/-- Half of the checksum, the length as the bit, and the bit as part of the data. -/
theorem Made.half_checksum {i : ℕ} (hp : Made p) (h0 : 0 < i)
    (hi : i + 1 < (decimal p.checksum).length) :
    value ((decimal p.checksum).take i) =
        calculateChecksum (flagChar p.sequence_number :: tab :: p.data) ↔
      i = 1 ∧ p.checksum + p.sequence_number.toNat = 65485 := by
  have hsum : calculateChecksum (flagChar p.sequence_number :: tab :: p.data) =
      (p.checksum + 57 + p.sequence_number.toNat) % 2 ^ 16 := by
    have hbit : signedChar (flagChar p.sequence_number) = 48 + p.sequence_number.toNat := by
      cases p.sequence_number <;> exact signedChar_of_lt (by decide)
    have htab : signedChar tab = 9 := signedChar_of_lt (by decide)
    have hdata := hp.checksum
    rw [calculateChecksum_eq] at hdata ⊢
    rw [checksum_cons, checksum_cons, hbit, htab]
    unfold toUInt16 at hdata ⊢
    omega
  obtain ⟨hpos, -, -, hone⟩ := hp.take_checksum (by omega) h0
  have hwhole := value_append ((decimal p.checksum).take i) ((decimal p.checksum).drop i)
  have hrest := value_lt (l := (decimal p.checksum).drop i)
    fun d hd => isDigit_of_mem_decimal (List.mem_of_mem_drop hd)
  rw [List.take_append_drop, value_decimal] at hwhole
  rw [List.length_drop] at hwhole hrest
  have h5 := hp.length_checksum
  have hlt := hp.checksum_lt
  have hbit : p.sequence_number.toNat ≤ 1 := by
    cases p.sequence_number <;> decide
  -- the sum is larger than the first digits unless it wraps, and then it is less than 58
  have hmod : ∀ x < 2 * 2 ^ 16, x % 2 ^ 16 = x ∧ x < 2 ^ 16 ∨ x % 2 ^ 16 + 2 ^ 16 = x := by
    omega
  have hwrap := hmod (p.checksum + 57 + p.sequence_number.toNat) (by omega)
  rw [hsum, ← hone]
  generalize (p.checksum + 57 + p.sequence_number.toNat) % 2 ^ 16 = sum at *
  generalize value ((decimal p.checksum).take i) = w at *
  obtain ⟨k, hk⟩ : ∃ k, (decimal p.checksum).length - i = k := ⟨_, rfl⟩
  rw [hk] at hwhole hrest
  have hk4 : 2 ≤ k ∧ k ≤ 4 := by omega
  obtain ⟨hk2, hk4⟩ := hk4
  interval_cases k <;> omega

/-- A NUL in the checksum: what is left of it is read into every field. -/
theorem Made.missed_checksum_nul {i : ℕ} (hp : Made p) (hb : p.byteAt (.checksum i) = some b) :
    ¬ Rejected (p.changed 0 (.checksum i)) ↔
      i = 1 ∨ 150 ≤ value ((decimal p.checksum).take i) ∧
        value ((decimal p.checksum).take i) ≤ 159 := by
  have hi : i < (decimal p.checksum).length := (List.getElem?_eq_some_iff.mp hb).1
  have hparse : Packet.parse (if (0 : UInt8) = 0 then p.before (.checksum i)
      else p.changed 0 (.checksum i)) =
        readFields ((decimal p.checksum).take i) ((decimal p.checksum).take i)
          ((decimal p.checksum).take i) ((decimal p.checksum).take i) := by
    rw [if_pos rfl, ← parse_one (tab_not_mem_take _ i)]
    rfl
  by_cases h0 : i = 0
  · rw [hp.not_rejected_changed hb hparse, h0, List.take_zero]
    refine iff_of_false ?_ (by simp)
    rintro ⟨m, n, hm, -⟩
    exact not_reads_nil hm
  · obtain ⟨-, htext, hlt, hone⟩ := hp.take_checksum hi (by omega)
    have hreads := hp.reads_take_checksum hi (by omega)
    rw [hp.missed_of_reads hb hparse hreads hreads, ← hone, ← calculateChecksum_decimal hlt,
      ← htext]
    exact and_iff_right (isNumber_iff_reads.mpr ⟨_, hreads⟩)

/-- A tab in the checksum: its second part is read as the length. -/
theorem Made.missed_checksum_tab {i : ℕ} (hp : Made p) (hb : p.byteAt (.checksum i) = some b) :
    ¬ Rejected (p.changed tab (.checksum i)) ↔ 0 < i ∧ i + 1 < (decimal p.checksum).length ∧
      (value ((decimal p.checksum).drop (i + 1)) < 10 ∨
        i = 1 ∧ p.checksum + p.sequence_number.toNat = 65485) := by
  have hi : i < (decimal p.checksum).length := (List.getElem?_eq_some_iff.mp hb).1
  have hdata : newline ∉ flagChar p.sequence_number :: tab :: p.data := by
    rw [List.mem_cons, List.mem_cons, not_or, not_or]
    exact ⟨by cases p.sequence_number <;> decide, by decide, hp.clean.1⟩
  have hparse : Packet.parse (if tab = 0 then p.before (.checksum i)
      else p.changed tab (.checksum i)) =
        readFields ((decimal p.checksum).take i) ((decimal p.checksum).drop (i + 1)) (decimal p.len)
          (flagChar p.sequence_number :: tab :: p.data) := by
    have hfour := parse_four (tab_not_mem_take p.checksum i) (tab_not_mem_drop p.checksum (i + 1))
      (tab_not_mem_decimal p.len) (flagChar p.sequence_number :: tab :: p.data)
    rw [takeWhile_ne hdata] at hfour
    rw [if_neg (by decide), ← hfour]
    rfl
  by_cases h0 : i = 0
  · rw [hp.not_rejected_changed hb hparse, h0, List.take_zero]
    refine iff_of_false ?_ (by simp)
    rintro ⟨m, n, hm, -⟩
    exact not_reads_nil hm
  by_cases hend : (decimal p.checksum).length ≤ i + 1
  · rw [hp.not_rejected_changed hb hparse, List.drop_eq_nil_of_le hend]
    refine iff_of_false ?_ fun h => absurd h.2.1 (not_lt.mpr hend)
    rintro ⟨m, n, -, hn, -⟩
    exact not_reads_nil hn
  have hlen : ((decimal p.checksum).drop (i + 1)).length ≤ 4 := by
    have h5 := hp.length_checksum
    rw [List.length_drop]
    omega
  have hdigits : ∀ d ∈ (decimal p.checksum).drop (i + 1), isDigit d = true :=
    fun d hd => isDigit_of_mem_decimal (List.mem_of_mem_drop hd)
  have hvalue : value ((decimal p.checksum).drop (i + 1)) < 10 ^ 4 :=
    (value_lt hdigits).trans_le (Nat.pow_le_pow_right (by norm_num) hlen)
  have hreads := reads_digits (List.ne_nil_of_length_pos (by rw [List.length_drop]; omega)) hdigits
    (by omega)
  rw [hp.missed_of_reads hb hparse (hp.reads_take_checksum hi (by omega)) hreads,
    ← hp.half_checksum (by omega) (by omega)]
  constructor
  · rintro ⟨-, h⟩
    exact ⟨by omega, by omega, h.imp_right Eq.symm⟩
  · rintro ⟨-, -, h⟩
    exact ⟨isNumber_iff_reads.mpr ⟨_, hp.reads_len⟩, h.imp_right Eq.symm⟩

theorem Made.missed_checksum {i : ℕ} (hp : Made p) (hb : p.byteAt (.checksum i) = some b)
    (hc : c ≠ b) : ¬ Rejected (p.changed c (.checksum i)) ↔ Missed p c (.checksum i) := by
  rw [Missed]
  by_cases hnul : c = 0
  · simp only [if_pos hnul]
    rw [hnul]
    exact hp.missed_checksum_nul hb
  by_cases htab : c = tab
  · simp only [if_neg hnul, if_pos htab]
    rw [htab]
    exact hp.missed_checksum_tab hb
  simp only [if_neg hnul, if_neg htab]
  have hparse : Packet.parse (if c = 0 then p.before (.checksum i) else p.changed c (.checksum i)) =
      readFields ((decimal p.checksum).set i c) (decimal p.len) [flagChar p.sequence_number]
        p.data := by
    have hfour := parse_four (tab_not_mem_set hb htab) (tab_not_mem_decimal p.len)
      (tab_not_mem_flagChar p.sequence_number) p.data
    rw [takeWhile_ne hp.clean.1] at hfour
    rw [if_neg hnul, ← hfour, set_eq_take_drop hb]
    simp [Packet.changed, Packet.before, Packet.after]
  have hrange : p.checksum ≤ 2540 ∨ 62976 ≤ p.checksum ∧ p.checksum < 2 ^ 16 := by
    have h := calculateChecksum_range (s := p.data) (by rw [hp.len]; exact hp.le)
    rw [hp.checksum] at h
    exact h.imp_right fun hle => ⟨hle, hp.checksum_lt⟩
  rw [hp.not_rejected_changed hb hparse]
  constructor
  · rintro ⟨m, n, ⟨j, hj, rfl⟩, hn, -, h⟩
    have hne : toUInt16 j ≠ p.checksum := by
      rw [set_eq_take_drop hb] at hj
      exact stoi_substitute_ne hrange (Packet.take_append_cons_drop hb).symm hc hj
    rw [hp.checksum, hn.unique hp.reads_len] at h
    exact ⟨isNumber_iff.mpr ⟨j, hj⟩, h.resolve_left hne⟩
  · rintro ⟨hnum, hshort⟩
    obtain ⟨m, hm⟩ := isNumber_iff_reads.mp hnum
    exact ⟨m, _, hm, hp.reads_len, isNumber_flagChar _, Or.inr hshort⟩

end Reading

/-- **A changed byte is rejected exactly if it is not missed.** The texts that differ from a packet
in one byte are those in which the byte at one of its places has been replaced. -/
theorem corruption_rejected_iff {data : Str} {p : Packet} (hclean : Clean data)
    (hp : p ∈ makePackets data) :
    (∀ t, DiffersOnce p.toText t ↔
      ∃ place b c, p.byteAt place = some b ∧ c ≠ b ∧ t = p.changed c place) ∧
    ∀ place b c, p.byteAt place = some b → c ≠ b →
      (Rejected (p.changed c place) ↔ ¬ Missed p c place) := by
  have hmade := made_of_mem hclean hp
  refine ⟨fun t => ?_, fun place b c hb hc => ?_⟩
  · rw [differsOnce_iff]
    constructor
    · rintro ⟨pre, b, c, post, htext, rfl, hc⟩
      obtain ⟨place, hb, rfl, rfl⟩ := Packet.exists_place htext
      exact ⟨place, b, c, hb, hc, rfl⟩
    · rintro ⟨place, b, c, hb, hc, rfl⟩
      exact ⟨p.before place, b, c, p.after place, (Packet.changed_byteAt hb).symm, rfl, hc⟩
  · rw [← not_iff_not, not_not]
    cases place with
    | checksum i => exact hmade.missed_checksum hb hc
    | firstTab =>
      cases hb
      exact hmade.missed_firstTab hc
    | len i => exact hmade.missed_len hb
    | secondTab =>
      cases hb
      exact hmade.missed_secondTab hc
    | bit => exact hmade.missed_bit
    | thirdTab =>
      cases hb
      exact hmade.missed_thirdTab hc
    | data i => exact hmade.missed_data hb hc

/-- A first packet with a letter of its data replaced. -/
theorem corruption_rejected_letter :
    Rejected ((packet (str "twenty-five bytes of data") 0).changed (ch 'T') (.data 0)) := by
  have hp : packet (str "twenty-five bytes of data") 0 ∈
      makePackets (str "twenty-five bytes of data") :=
    List.mem_of_getElem? (getElem?_makePackets (by decide))
  refine ((corruption_rejected_iff (by decide) hp).2 (.data 0) (ch 't') (ch 'T') (by decide)
    (by decide)).mpr ?_
  rintro (hshort | ⟨hcut, -⟩)
  · exact absurd hshort (by decide)
  · exact absurd hcut (by decide)

/-- The same packet with the length 00: it is appended, and the call returns the beginning of the
string. -/
theorem length_not_checked :
    (packet (str "twenty-five bytes of data") 0).toText = str "1982\t20\t0\ttwenty-five bytes of" ∧
    Receiving.start.takeDatagram ⟨[], 0⟩ (str "1982\t00\t0\ttwenty-five bytes of") =
      .ok (some (⟨str "twenty-five bytes of", true, some ⟨[], 0⟩⟩, ⟨0, 0, false⟩, true)) ∧
    ¬ ∀ (data t : Str) (p : Packet), Clean data → p ∈ makePackets data →
      DiffersOnce p.toText t → Rejected t := by
  have htext : (packet (str "twenty-five bytes of data") 0).toText =
      str "1982\t20\t0\ttwenty-five bytes of" := by
    decide +kernel
  have hturn : Receiving.start.takeDatagram ⟨[], 0⟩ (str "1982\t00\t0\ttwenty-five bytes of") =
      .ok (some (⟨str "twenty-five bytes of", true, some ⟨[], 0⟩⟩, ⟨0, 0, false⟩, true)) := by
    rfl
  refine ⟨htext, hturn, fun h => ?_⟩
  have hrejected := h (str "twenty-five bytes of data") (str "1982\t00\t0\ttwenty-five bytes of")
    (packet (str "twenty-five bytes of data") 0) (by decide)
    (List.mem_of_getElem? (getElem?_makePackets (by decide))) (by
      rw [htext, differsOnce_iff]
      exact ⟨str "1982\t", ch '2', ch '0', str "0\t0\ttwenty-five bytes of", by decide, by decide,
        by decide⟩)
  obtain ⟨r', ack, hout, -⟩ := hrejected.2 _ _ _ hturn
  cases hout

end DGDB.Rdt
