import Mathlib
import DGDB.Rdt.Link

/-!
# Any datagram

What a turn of `RecvFrom` does with bytes that no `SendTo` has written: which datagrams it takes or
refuses as the protocol says, and on which it throws or writes past its buffer.
-/

namespace DGDB.Rdt

/-- What `RecvFrom` does with a datagram of any size. `UDPSocket::RecvFrom` writes a NUL behind the
bytes it has received, past the buffer when they fill it; an empty datagram is taken for a timeout
and ends the call. -/
def Receiving.takeDatagram (r : Receiving) (from_addr : Host) (datagram : Str) :
    Result (Option (Receiving × AckPacket × Bool)) :=
  if kMaxPacketSize ≤ datagram.length then throw .undefined
  else if datagram = [] then pure none
  else do return some (← r.take from_addr (recvBuffer kMaxPacketSize datagram))

/-- `UDPSocket::RecvFrom`: the number of bytes received, and the buffer up to the NUL that is
written behind them. -/
def recvFrom (len : ℕ) (datagram : Str) : Result (ℕ × Str) :=
  let received := datagram.take len
  if received.length < len then pure (received.length, received ++ [0]) else throw .undefined

theorem recvFrom_of_lt {len : ℕ} {datagram : Str} (h : datagram.length < len) :
    recvFrom len datagram = .ok (datagram.length, datagram ++ [0]) := by
  simp only [recvFrom, List.take_of_length_le h.le]
  exact if_pos h

/-- A turn of `RecvFrom` is `UDPSocket::RecvFrom` and what the loop does with its buffer. -/
theorem Receiving.takeDatagram_eq (r : Receiving) (from_addr : Host) (datagram : Str) :
    r.takeDatagram from_addr datagram = (do
      let (n, buffer) ← recvFrom kMaxPacketSize datagram
      if n = 0 then pure none
      else do return some (← r.take from_addr (buffer.takeWhile (· != 0)))) := by
  unfold takeDatagram
  by_cases hlen : kMaxPacketSize ≤ datagram.length
  · have hfull : ¬ (datagram.take kMaxPacketSize).length < kMaxPacketSize := by
      rw [List.length_take]
      omega
    rw [if_pos hlen, recvFrom]
    simp only [if_neg hfull]
    rfl
  · have hlt := not_le.mp hlen
    have hbuffer : (datagram ++ [0]).takeWhile (· != 0) = recvBuffer kMaxPacketSize datagram := by
      rw [recvBuffer, List.take_of_length_le hlt.le, List.takeWhile_append]
      split_ifs with hfull
      · rw [(List.takeWhile_prefix _).eq_of_length hfull]
        simp
      · rfl
    rw [if_neg hlen, recvFrom_of_lt hlt, ok_bind]
    simp only [List.length_eq_zero_iff, hbuffer]

/-- The turn appends the payload of a packet with the bit that is waited for and a checksum that
agrees, or leaves the data alone and acknowledges the previous bit; and `sendto` takes the address
that the acknowledgement goes to. -/
def HarmlessDatagram (sendable : Host → Prop) (r : Receiving) (from_addr : Host)
    (datagram : Str) : Prop :=
  sendable from_addr ∧
    ∃ r' ack returns, r.takeDatagram from_addr datagram = .ok (some (r', ack, returns)) ∧
      ((∃ p, Packet.parse (recvBuffer kMaxPacketSize datagram) = .ok p ∧
          p.sequence_number = r.alternate_bit ∧ isCorrupt p = false ∧
          r'.data = r.data ++ p.data) ∨
        r'.data = r.data ∧ ack = ⟨0, 0, !r.alternate_bit⟩)

/-- The `k`-th field between tabs, the last one of a text that has fewer. -/
def tabField : ℕ → Str → Str
  | 0, t => t.takeWhile (· != tab)
  | k + 1, t => if tab ∈ t then tabField k (t.drop ((t.takeWhile (· != tab)).length + 1)) else t

/-- `getline` again and again on one stream and one string gives the fields in turn. -/
theorem iterate_getline (k : ℕ) (t data : Str) :
    ((fun x => getline tab x.1 x.2)^[k + 1] (some t, data)).2 = tabField k t := by
  induction k generalizing t data with
  | zero => rfl
  | succ k ih =>
    rw [Function.iterate_succ_apply, tabField]
    by_cases htab : tab ∈ t
    · simp only [getline, if_pos htab]
      exact ih _ _
    · have hline : t.takeWhile (· != tab) = t := takeWhile_ne htab
      simp only [getline, if_neg htab, hline]
      -- a stream at its end leaves the string as it is
      exact congrArg Prod.snd (Function.iterate_fixed rfl (k + 1))

theorem Packet.parse_eq_ok {t : Str} {p : Packet} (h : Packet.parse t = .ok p) :
    ∀ k < 3, ∃ n, Number (tabField k t) n := by
  unfold Packet.parse at h
  obtain ⟨checksum, hchecksum, h⟩ := bind_eq_ok.mp h
  obtain ⟨len, hlen, h⟩ := bind_eq_ok.mp h
  obtain ⟨sequence_number, hsequence, -⟩ := bind_eq_ok.mp h
  intro k hk
  interval_cases k
  · exact ⟨checksum, stoi_eq_ok_iff.mp hchecksum⟩
  · rw [← iterate_getline 1 t []]
    exact ⟨len, stoi_eq_ok_iff.mp hlen⟩
  · rw [← iterate_getline 2 t []]
    exact ⟨sequence_number, stoi_eq_ok_iff.mp hsequence⟩

theorem Packet.parse_of_number {t : Str} (h : ∀ k < 3, ∃ n, Number (tabField k t) n) :
    ∃ p, Packet.parse t = .ok p := by
  obtain ⟨checksum, hchecksum⟩ := h 0 (by norm_num)
  obtain ⟨len, hlen⟩ := h 1 (by norm_num)
  obtain ⟨sequence_number, hsequence⟩ := h 2 (by norm_num)
  rw [← iterate_getline _ t [], ← stoi_eq_ok_iff] at hchecksum hlen hsequence
  simp only [Function.iterate_succ_apply, Function.iterate_zero_apply] at hchecksum hlen hsequence
  unfold Packet.parse
  simp only
  rw [hchecksum, ok_bind, hlen, ok_bind, hsequence, ok_bind]
  exact ⟨_, rfl⟩

theorem Receiving.accept_harmless (r : Receiving) (from_addr : Host) (p : Packet) :
    p.sequence_number = r.alternate_bit ∧ isCorrupt p = false ∧
        (r.accept from_addr p).1.data = r.data ++ p.data ∨
      (r.accept from_addr p).1.data = r.data ∧
        (r.accept from_addr p).2.1 = ⟨0, 0, !r.alternate_bit⟩ := by
  unfold Receiving.accept
  simp only
  split_ifs with hnew
  · exact Or.inl ⟨hnew.1, hnew.2, rfl⟩
  · exact Or.inr ⟨rfl, rfl⟩

/-- **A datagram is harmless exactly if** it is neither empty nor as long as the buffer, and its
first three fields are numbers, and it comes from an address that can be sent to. -/
theorem harmlessDatagram_iff {sendable : Host → Prop} {r : Receiving} {from_addr : Host}
    {datagram : Str} :
    HarmlessDatagram sendable r from_addr datagram ↔
      sendable from_addr ∧ datagram ≠ [] ∧ datagram.length < kMaxPacketSize ∧
        ∀ k < 3, ∃ n, Number (tabField k (datagram.takeWhile (· != 0))) n := by
  have hbuffer : datagram.length < kMaxPacketSize →
      recvBuffer kMaxPacketSize datagram = datagram.takeWhile (· != 0) := by
    intro hlen
    unfold recvBuffer
    rw [List.take_of_length_le hlen.le]
  unfold HarmlessDatagram Receiving.takeDatagram
  refine and_congr_right fun _ => ?_
  constructor
  · rintro ⟨r', ack, returns, h, -⟩
    split_ifs at h with hlen hnil
    · cases h
    · obtain ⟨x, hx, -⟩ := bind_eq_ok.mp h
      unfold Receiving.take at hx
      obtain ⟨p, hp, -⟩ := bind_eq_ok.mp hx
      rw [hbuffer (not_le.mp hlen)] at hp
      exact ⟨hnil, not_le.mp hlen, Packet.parse_eq_ok hp⟩
  · rintro ⟨hnil, hlen, hfields⟩
    obtain ⟨p, hp⟩ := Packet.parse_of_number hfields
    rw [hbuffer hlen, if_neg (not_le.mpr hlen), if_neg hnil, Receiving.take_eq r from_addr hp,
      ok_bind]
    refine ⟨_, _, _, rfl, ?_⟩
    exact (r.accept_harmless from_addr p).imp_left fun ⟨hbit, hsum, hdata⟩ =>
      ⟨p, hp, hbit, hsum, hdata⟩

end DGDB.Rdt
