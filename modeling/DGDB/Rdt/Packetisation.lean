import Mathlib
import DGDB.Lib.Chunks
import DGDB.Rdt.Datagram

/-!
# Packetisation

The loops of `SplitData` and `MakePackets` for any `kMaxPacketLength`: when they end, and what the
packets are.
-/

namespace DGDB.Rdt

open StopAndWait

/-! ## The loop of `SplitData` -/

/-- `for (size_t i = 0; i < data.size(); i += split_size)`, from `i` on: `strings` when the
condition fails, unless it has to be tested more than `fuel` times. A `std::string` has fewer than
`2 ^ 63` bytes, so `i` does not wrap. -/
def splitLoop (data : Str) (split_size : ℕ) : ℕ → ℕ → List Str → Option (List Str)
  | 0, _, _ => none
  | fuel + 1, i, strings =>
    if i < data.length then
      splitLoop data split_size fuel (i + split_size) (strings ++ [(data.drop i).take split_size])
    else some strings

/-- `MakePackets` with any `kMaxPacketLength`, if the loop of `SplitData` ends within `fuel`
tests. -/
def makePacketsWithin (fuel max_packet_length : ℕ) (data : Str) : Option (List Packet) :=
  (splitLoop data max_packet_length fuel 0 []).map (packetsOf false)

section Loop

variable {data : Str} {split_size fuel : ℕ}

/-- After `k` rounds the loop has pushed the first `k` pieces, by induction on the tests left. -/
theorem splitLoop_eq (hpos : 0 < split_size) {k : ℕ} (hk : k ≤ Chunks.count split_size data)
    (hfuel : Chunks.count split_size data - k < fuel) :
    splitLoop data split_size fuel (split_size * k)
        ((List.range k).map (Chunks.piece split_size data)) =
      some (splitData data split_size) := by
  induction fuel generalizing k with
  | zero => omega
  | succ fuel ih =>
    rw [splitLoop]
    by_cases hlt : k < Chunks.count split_size data
    · have hround := ih (k := k + 1) hlt (by omega)
      rw [List.range_succ, List.map_append, Nat.mul_succ] at hround
      rw [if_pos ((Chunks.lt_count_iff hpos).mp hlt)]
      exact hround
    · rw [if_neg ((Chunks.lt_count_iff hpos).not.mp hlt),
        show k = Chunks.count split_size data by omega]
      rfl

/-- With a length of 0 the loop does not end, unless there is nothing to split. -/
theorem splitLoop_zero (hne : data ≠ []) (fuel : ℕ) (strings : List Str) :
    splitLoop data 0 fuel 0 strings = none := by
  induction fuel generalizing strings with
  | zero => rfl
  | succ fuel ih =>
    rw [splitLoop, if_pos (List.length_pos_iff.mpr hne)]
    exact ih _

end Loop

/-! ## The packets -/

/-- The packets of a string, none of them longer than `max_packet_length`. -/
structure Packetised (max_packet_length : ℕ) (data : Str) (packets : List Packet) : Prop where
  joined : packets.flatMap Packet.data = data
  nonempty : ∀ p ∈ packets, p.data ≠ []
  full : ∀ p ∈ packets.dropLast, p.data.length = max_packet_length
  fits : ∀ p ∈ packets, p.data.length ≤ max_packet_length
  len : ∀ p ∈ packets, p.len = p.data.length
  /-- The bits alternate, beginning with 0. -/
  bits : ∀ k p, packets[k]? = some p → p.sequence_number = bit k
  intact : ∀ p ∈ packets, isCorrupt p = false
  count : packets.length = data.length ⌈/⌉ max_packet_length

section Packets

variable {data : Str} {max_packet_length : ℕ} {p : Packet}

theorem map_data_packetsOf (b : Bool) (strings : List Str) :
    (packetsOf b strings).map Packet.data = strings := by
  induction strings generalizing b with
  | nil => rfl
  | cons s strings ih => rw [packetsOf, List.map_cons, ih]

theorem of_mem_packetsOf {b : Bool} {strings : List Str} (h : p ∈ packetsOf b strings) :
    p.data ∈ strings ∧ p.len = toUInt16 p.data.length ∧ isCorrupt p = false := by
  induction strings generalizing b with
  | nil => cases h
  | cons s strings ih =>
    rcases List.mem_cons.mp h with rfl | h
    · exact ⟨List.mem_cons_self, rfl, by simp [isCorrupt]⟩
    · obtain ⟨hmem, hrest⟩ := ih h
      exact ⟨List.mem_cons_of_mem _ hmem, hrest⟩

theorem packetised_packetsOf (hpos : 1 ≤ max_packet_length) (hle : max_packet_length ≤ 65535)
    (data : Str) :
    Packetised max_packet_length data (packetsOf false (splitData data max_packet_length)) := by
  have hmap := map_data_packetsOf false (splitData data max_packet_length)
  have hfits : ∀ s ∈ splitData data max_packet_length, s ≠ [] ∧ s.length ≤ max_packet_length := by
    intro s hs
    obtain ⟨k, hk, rfl⟩ := Chunks.mem_pieces.mp hs
    exact ⟨List.ne_nil_of_length_pos (Chunks.length_piece_pos hpos hk), List.length_take_le _ _⟩
  refine ⟨?_, ?_, ?_, ?_, ?_, ?_, ?_, ?_⟩
  · rw [List.flatMap_def, hmap]
    exact Chunks.flatten_pieces hpos data
  · exact fun p hp => (hfits _ (of_mem_packetsOf hp).1).1
  · intro p hp
    have hmem : p.data ∈ (splitData data max_packet_length).dropLast := by
      rw [← hmap, ← List.map_dropLast]
      exact List.mem_map_of_mem hp
    obtain ⟨k, hk, hdata⟩ := Chunks.mem_dropLast_pieces hmem
    rw [hdata, Chunks.length_piece_of_lt hpos hk]
  · exact fun p hp => (hfits _ (of_mem_packetsOf hp).1).2
  · intro p hp
    obtain ⟨hmem, hlen, -⟩ := of_mem_packetsOf hp
    have hlong := (hfits _ hmem).2
    rw [hlen, toUInt16_natCast (by omega)]
  · intro k p hp
    rw [← bit_zero, getElem?_packetsOf, Nat.zero_add] at hp
    obtain ⟨s, -, rfl⟩ := Option.map_eq_some_iff.mp hp
    rfl
  · exact fun p hp => (of_mem_packetsOf hp).2.2
  · rw [length_packetsOf]
    exact Chunks.length_pieces max_packet_length data

/-- **Packetisation.** `MakePackets` ends after as many rounds as it makes packets, and the packets
are the string. Those of the program take at most 31 bytes, so they are received uncut and with the
NUL behind them inside the buffer. -/
theorem packets_made (data : Str) (hpos : 1 ≤ max_packet_length)
    (hle : max_packet_length ≤ 65535) :
    ∃ packets,
      (∀ fuel, data.length ⌈/⌉ max_packet_length < fuel →
        makePacketsWithin fuel max_packet_length data = some packets) ∧
      Packetised max_packet_length data packets ∧
      (max_packet_length = kMaxPacketLength → packets = makePackets data ∧
        ∀ p ∈ packets, p.toText.length ≤ 31 ∧ p.toText.length < kMaxPacketSize ∧
          recvFrom kMaxPacketSize p.toText = .ok (p.toText.length, p.toText ++ [0])) := by
  have hpackets := packetised_packetsOf hpos hle data
  refine ⟨_, fun fuel hfuel => ?_, hpackets, ?_⟩
  · have hloop : splitLoop data max_packet_length fuel 0 [] =
        some (splitData data max_packet_length) :=
      splitLoop_eq hpos (Nat.zero_le _) hfuel
    rw [makePacketsWithin, hloop]
    rfl
  · rintro rfl
    refine ⟨rfl, fun p hp => ?_⟩
    have hdata : p.data.length ≤ 20 := hpackets.fits p hp
    have hlen := hpackets.len p hp
    have hchecksum : p.checksum < 2 ^ 16 := by
      have hintact := hpackets.intact p hp
      simp only [isCorrupt, bne_eq_false_iff_eq] at hintact
      exact hintact ▸ calculateChecksum_lt _
    have htext := length_toText_le hchecksum (show p.len < 100 by omega)
    have hsize : p.toText.length < kMaxPacketSize := by
      unfold kMaxPacketSize
      omega
    exact ⟨by omega, hsize, recvFrom_of_lt hsize⟩

/-- Two packets of the program. -/
theorem packets_made_two : ∃ packets,
    makePacketsWithin 3 kMaxPacketLength (str "twenty-five bytes of data") = some packets ∧
      packets.map Packet.data = [str "twenty-five bytes of", str " data"] := by
  obtain ⟨packets, hmade, -, hprogram⟩ := packets_made (str "twenty-five bytes of data")
    kMaxPacketLength_pos (by decide)
  refine ⟨packets, hmade 3 (by decide), ?_⟩
  rw [(hprogram rfl).1]
  decide

end Packets

end DGDB.Rdt
