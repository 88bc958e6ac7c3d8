import Mathlib
import DGDB.Message
import DGDB.Lib.Chunks
import DGDB.Lib.StopAndWait

/-!
# Packets and acknowledgements

The classes of `RDT_UDP_Helper`: how a string is split into packets, the text of a packet and of an
acknowledgement, and the parsers that read them with `getline` and `stoi`.
-/

namespace DGDB.Rdt

open Decimal StopAndWait

def kMaxPacketLength : ℕ := 20
def kMaxPacketSize : ℕ := 34
def kMaxAckSize : ℕ := 50

def tab : UInt8 := 9
def newline : UInt8 := 10

/-- The conversion to `uint16_t`. -/
def toUInt16 (i : ℤ) : ℕ := (i % 2 ^ 16).toNat

theorem toUInt16_natCast {n : ℕ} (h : n < 2 ^ 16) : toUInt16 n = n := by
  unfold toUInt16
  omega

theorem toUInt16_lt (i : ℤ) : toUInt16 i < 2 ^ 16 := by
  unfold toUInt16
  omega

theorem toUInt16_neg {n : ℕ} (h : n < 2 ^ 16) :
    toUInt16 (-n) = if n = 0 then 0 else 2 ^ 16 - n := by
  unfold toUInt16
  split_ifs with h0
  · rw [h0]
    rfl
  · rw [show (-n : ℤ) = ((2 ^ 16 - n : ℕ) : ℤ) + 2 ^ 16 * (-1) by omega, Int.add_mul_emod_self_left]
    omega

/-! ## Packets -/

/-- `RDT_UDP_Helper::Packet`. -/
structure Packet where
  checksum : ℕ
  len : ℕ
  sequence_number : Bool
  data : Str
  deriving DecidableEq, Repr

/-- `RDT_UDP_Helper::AckPacket`. -/
structure AckPacket where
  checksum : ℕ
  len : ℕ
  ack_number : Bool
  deriving DecidableEq, Repr

def calculateChecksum (data : Str) : ℕ :=
  data.foldl (fun (sum : ℕ) c => toUInt16 (sum + signedChar c)) 0

def isCorrupt (packet : Packet) : Bool := packet.checksum != calculateChecksum packet.data

def Packet.toText (p : Packet) : Str :=
  decimal p.checksum ++ tab :: (decimal p.len ++ tab :: flagChar p.sequence_number :: tab :: p.data)

def AckPacket.toText (p : AckPacket) : Str :=
  decimal p.checksum ++ tab :: (decimal p.len ++ tab :: [flagChar p.ack_number])

/-- `std::getline(is, data, delim)`: what is left of `is`, if it has not reached its end, and
`data`, which a stream at its end leaves as it was. -/
def getline (delim : UInt8) : Option Str → Str → Option Str × Str
  | none, data => (none, data)
  | some rest, _ =>
    let line := rest.takeWhile (· != delim)
    (if delim ∈ rest then some (rest.drop (line.length + 1)) else none, line)

def Packet.parse (packet_str : Str) : Result Packet := do
  let (is, checksum) := getline tab (some packet_str) []
  let (is, len) := getline tab is checksum
  let (is, sequence_number) := getline tab is len
  let (_, data) := getline newline is sequence_number
  return ⟨toUInt16 (← stoi checksum), toUInt16 (← stoi len),
    decide ((← stoi sequence_number) ≠ 0), data⟩

def AckPacket.parse (packet_str : Str) : Result AckPacket := do
  let (is, checksum) := getline tab (some packet_str) []
  let (is, len) := getline tab is checksum
  let (_, ack_number) := getline newline is len
  return ⟨toUInt16 (← stoi checksum), toUInt16 (← stoi len), decide ((← stoi ack_number) ≠ 0)⟩

/-- The string a socket hands over for a datagram: `std::string(buffer)` ends at the first NUL. -/
def recvBuffer (max_size : ℕ) (datagram : Str) : Str := (datagram.take max_size).takeWhile (· != 0)

/-! ## Reading back what has been written -/

section Getline

variable {delim : UInt8} {line rest data : Str}

theorem takeWhile_ne (h : delim ∉ line) : line.takeWhile (· != delim) = line := by
  apply List.takeWhile_eq_self_iff.mpr
  intro c hc
  simp only [bne_iff_ne, ne_eq]
  rintro rfl
  exact h hc

theorem getline_delim (h : delim ∉ line) :
    getline delim (some (line ++ delim :: rest)) data = (some rest, line) := by
  have htake : (line ++ delim :: rest).takeWhile (· != delim) = line := by
    rw [List.takeWhile_append_of_pos]
    · simp
    · simpa using fun c hc => ne_of_mem_of_not_mem hc h
  simp only [getline, htake]
  simp

theorem takeWhile_line {c : UInt8} (h : c ∉ line) :
    (line ++ rest).takeWhile (· != c) = line ++ rest.takeWhile (· != c) := by
  rw [List.takeWhile_append_of_pos]
  intro a ha
  simpa using ne_of_mem_of_not_mem ha h

end Getline

theorem not_mem_decimal {c : UInt8} (hc : isDigit c = false) (n : ℕ) : c ∉ decimal n := by
  intro hmem
  rw [isDigit_of_mem_decimal hmem] at hc
  cases hc

theorem stoi_flagChar (b : Bool) : stoi [flagChar b] = .ok (if b then 1 else 0) := by
  cases b <;> rfl

theorem stoi_flagChar_tab (b : Bool) (t : Str) :
    stoi (flagChar b :: tab :: t) = .ok (if b then 1 else 0) := by
  cases b <;> rfl

/-- What `Packet::Packet` makes of the text of a packet: the data ends at the first newline. -/
theorem Packet.parse_toText {p : Packet} (hchecksum : p.checksum < 2 ^ 16) (hlen : p.len < 2 ^ 16) :
    Packet.parse p.toText = .ok { p with data := p.data.takeWhile (· != newline) } := by
  have hflag : tab ∉ [flagChar p.sequence_number] := by
    cases p.sequence_number <;> decide
  have hthird : ∀ data, getline tab (some (flagChar p.sequence_number :: tab :: p.data)) data =
      (some p.data, [flagChar p.sequence_number]) := fun data => getline_delim hflag
  unfold Packet.parse Packet.toText
  simp only [getline_delim (not_mem_decimal (show isDigit tab = false from rfl) _), hthird]
  simp only [getline]
  rw [stoi_decimal (by omega), ok_bind, stoi_decimal (by omega), ok_bind, stoi_flagChar, ok_bind,
    toUInt16_natCast hchecksum, toUInt16_natCast hlen]
  cases p with
  | mk checksum len sequence_number data => cases sequence_number <;> rfl

/-- What `AckPacket::AckPacket` makes of the text of a packet: an acknowledgement with its bit. -/
theorem AckPacket.parse_packet {p : Packet} (hchecksum : p.checksum < 2 ^ 16)
    (hlen : p.len < 2 ^ 16) :
    AckPacket.parse p.toText = .ok ⟨p.checksum, p.len, p.sequence_number⟩ := by
  have hflag : newline ≠ flagChar p.sequence_number := by
    cases p.sequence_number <;> decide
  have hline : (flagChar p.sequence_number :: tab :: p.data).takeWhile (· != newline) =
      flagChar p.sequence_number :: tab :: p.data.takeWhile (· != newline) := by
    rw [List.takeWhile_cons_of_pos (by simpa using hflag.symm),
      List.takeWhile_cons_of_pos (by decide)]
  unfold AckPacket.parse Packet.toText
  simp only [getline_delim (not_mem_decimal (show isDigit tab = false from rfl) _)]
  simp only [getline, hline]
  rw [stoi_decimal (by omega), ok_bind, stoi_decimal (by omega), ok_bind, stoi_flagChar_tab,
    ok_bind, toUInt16_natCast hchecksum, toUInt16_natCast hlen]
  cases p.sequence_number <;> rfl

theorem AckPacket.parse_toText (b : Bool) :
    AckPacket.parse (AckPacket.toText ⟨0, 0, b⟩) = .ok ⟨0, 0, b⟩ := by
  cases b <;> rfl

/-- Of the text of a packet, what comes after the first NUL of the data is not parsed. -/
theorem recvBuffer_toText {max_size : ℕ} {p : Packet} (h : p.toText.length ≤ max_size) :
    recvBuffer max_size p.toText = { p with data := p.data.takeWhile (· != 0) }.toText := by
  have hdigit : isDigit (0 : UInt8) = false := rfl
  have hflag : flagChar p.sequence_number ≠ 0 := by
    cases p.sequence_number <;> decide
  unfold recvBuffer
  rw [List.take_of_length_le h]
  unfold Packet.toText
  rw [takeWhile_line (not_mem_decimal hdigit _), List.takeWhile_cons_of_pos (by decide),
    takeWhile_line (not_mem_decimal hdigit _), List.takeWhile_cons_of_pos (by decide),
    List.takeWhile_cons_of_pos (by simpa using hflag), List.takeWhile_cons_of_pos (by decide)]

/-- **Packets come back up to a newline.** The text of a packet without NULs is parsed to its
checksum, its length, its bit and the data before the first newline, also when a socket has copied
it as a C string; so it is parsed to the packet itself exactly when there is no newline. -/
theorem packet_round_trip {p : Packet} (hchecksum : p.checksum < 2 ^ 16) (hlen : p.len < 2 ^ 16)
    (hdata : 0 ∉ p.data) :
    Packet.parse p.toText = .ok ⟨p.checksum, p.len, p.sequence_number,
        p.data.takeWhile (· != newline)⟩ ∧
      (∀ max_size, p.toText.length ≤ max_size →
        Packet.parse (recvBuffer max_size p.toText) = Packet.parse p.toText) ∧
      (Packet.parse p.toText = .ok p ↔ newline ∉ p.data) := by
  have hparse := Packet.parse_toText hchecksum hlen
  refine ⟨hparse, ?_, ?_⟩
  · intro max_size hsize
    rw [recvBuffer_toText hsize, takeWhile_ne hdata]
  · rw [hparse]
    constructor
    · intro h
      have hline : p.data.takeWhile (· != newline) = p.data :=
        congrArg Packet.data (Except.ok.inj h)
      intro hmem
      have := List.takeWhile_eq_self_iff.mp hline newline hmem
      simp at this
    · intro h
      rw [takeWhile_ne h]

/-- Tabs, digits and high bytes come back, what follows a newline does not. -/
theorem packet_round_trip_newline :
    Packet.parse (Packet.toText ⟨65535, 4, true, [tab, 49, newline, 200]⟩) =
        .ok ⟨65535, 4, true, [tab, 49]⟩ ∧
      Packet.parse (Packet.toText ⟨0, 0, false, []⟩) = .ok ⟨0, 0, false, []⟩ := by
  have hcut := packet_round_trip (p := ⟨65535, 4, true, [tab, 49, newline, 200]⟩) (by decide)
    (by decide) (by decide)
  have hempty := packet_round_trip (p := ⟨0, 0, false, []⟩) (by decide) (by decide) (by decide)
  exact ⟨hcut.1, hempty.2.2.mpr (by decide)⟩

/-! ## Splitting a string -/

def splitData (data : Str) (split_size : ℕ) : List Str :=
  (List.range ((data.length + split_size - 1) / split_size)).map fun k =>
    (data.drop (split_size * k)).take split_size

/-- The loop of `MakePackets` over the split data, from a given bit on. -/
def packetsOf : Bool → List Str → List Packet
  | _, [] => []
  | alternate_bit, s :: strings =>
    ⟨calculateChecksum s, toUInt16 s.length, alternate_bit, s⟩ :: packetsOf (!alternate_bit) strings

def makePackets (data : Str) : List Packet := packetsOf false (splitData data kMaxPacketLength)

/-- The `k`-th piece of a string. -/
def chunk (data : Str) (k : ℕ) : Str := (data.drop (kMaxPacketLength * k)).take kMaxPacketLength

/-- The number of packets of a string. -/
def chunkCount (data : Str) : ℕ := (data.length + kMaxPacketLength - 1) / kMaxPacketLength

/-- The `k`-th packet of a string. -/
def packet (data : Str) (k : ℕ) : Packet :=
  ⟨calculateChecksum (chunk data k), (chunk data k).length, bit k, chunk data k⟩

/-- A string without newline and NUL bytes. -/
def Clean (data : Str) : Prop := newline ∉ data ∧ 0 ∉ data

instance : DecidablePred Clean := fun _ => inferInstanceAs (Decidable (_ ∧ _))

section Chunks

variable {data : Str} {k : ℕ}

theorem getElem?_packetsOf (i : ℕ) (strings : List Str) (k : ℕ) :
    (packetsOf (bit i) strings)[k]? = strings[k]?.map fun s =>
      ⟨calculateChecksum s, toUInt16 s.length, bit (i + k), s⟩ := by
  induction strings generalizing i k with
  | nil => rfl
  | cons s strings ih =>
    cases k with
    | zero => rfl
    | succ k =>
      have h := ih (i + 1) k
      rw [bit_succ] at h
      rw [packetsOf, List.getElem?_cons_succ, h, List.getElem?_cons_succ, Nat.add_assoc,
        Nat.add_comm 1 k]

theorem getElem?_makePackets (h : k < chunkCount data) :
    (makePackets data)[k]? = some (packet data k) := by
  have hstrings : (splitData data kMaxPacketLength)[k]? = some (chunk data k) :=
    Chunks.getElem?_pieces h
  have hpackets := getElem?_packetsOf 0 (splitData data kMaxPacketLength) k
  have hlen : (chunk data k).length ≤ 20 := List.length_take_le _ _
  rw [hstrings, Nat.zero_add, Option.map_some, toUInt16_natCast (by omega)] at hpackets
  exact hpackets

theorem length_packetsOf (b : Bool) (strings : List Str) :
    (packetsOf b strings).length = strings.length := by
  induction strings generalizing b with
  | nil => rfl
  | cons s strings ih => rw [packetsOf, List.length_cons, List.length_cons, ih]

@[simp] theorem length_makePackets (data : Str) : (makePackets data).length = chunkCount data := by
  rw [makePackets, length_packetsOf, splitData, List.length_map, List.length_range]
  rfl

theorem getElem?_makePackets_none (h : chunkCount data ≤ k) : (makePackets data)[k]? = none :=
  List.getElem?_eq_none (by rw [length_makePackets]; exact h)

theorem take_chunk (data : Str) (k : ℕ) :
    data.take (kMaxPacketLength * k) ++ chunk data k = data.take (kMaxPacketLength * (k + 1)) :=
  Chunks.take_piece kMaxPacketLength data k

theorem length_chunk (data : Str) (k : ℕ) :
    (chunk data k).length = min kMaxPacketLength (data.length - kMaxPacketLength * k) :=
  Chunks.length_piece kMaxPacketLength data k

theorem kMaxPacketLength_pos : 0 < kMaxPacketLength := by decide

theorem take_chunkCount (h : chunkCount data ≤ k) : data.take (kMaxPacketLength * k) = data :=
  Chunks.take_count kMaxPacketLength_pos h

theorem length_chunk_of_lt (h : k + 1 < chunkCount data) :
    (chunk data k).length = kMaxPacketLength :=
  Chunks.length_piece_of_lt kMaxPacketLength_pos h

theorem length_chunk_pos (h : k < chunkCount data) : 0 < (chunk data k).length :=
  Chunks.length_piece_pos kMaxPacketLength_pos h

theorem length_take_chunks (h : k < chunkCount data) :
    (data.take (kMaxPacketLength * k)).length = kMaxPacketLength * k ∧
      kMaxPacketLength * k < data.length := by
  rw [List.length_take]
  unfold chunkCount kMaxPacketLength at *
  omega

theorem chunkCount_pos (h : data ≠ []) : 0 < chunkCount data := by
  have := List.length_pos_iff.mpr h
  unfold chunkCount kMaxPacketLength
  omega

theorem calculateChecksum_lt (s : Str) : calculateChecksum s < 2 ^ 16 := by
  unfold calculateChecksum
  induction s using List.reverseRecOn with
  | nil => simp
  | append_singleton s c _ =>
    rw [List.foldl_append, List.foldl_cons, List.foldl_nil]
    exact toUInt16_lt _

theorem mem_of_mem_chunk {c : UInt8} (h : c ∈ chunk data k) : c ∈ data :=
  List.mem_of_mem_drop (List.mem_of_mem_take h)

theorem length_toText_le {p : Packet} (hchecksum : p.checksum < 2 ^ 16) (hlen : p.len < 100) :
    p.toText.length ≤ p.data.length + 11 := by
  have h5 : (decimal p.checksum).length ≤ 5 := length_decimal_le (by norm_num) (by omega)
  have h2 : (decimal p.len).length ≤ 2 := length_decimal_le (by norm_num) (by omega)
  simp only [Packet.toText, List.length_append, List.length_cons]
  omega

theorem length_toText_packet (data : Str) (k : ℕ) :
    (packet data k).toText.length ≤ kMaxPacketSize := by
  have hlen : (chunk data k).length ≤ 20 := List.length_take_le _ _
  have htext : (packet data k).toText.length ≤ (chunk data k).length + 11 :=
    length_toText_le (calculateChecksum_lt _) (show (chunk data k).length < 100 by omega)
  unfold kMaxPacketSize
  omega

theorem len_packet_lt (data : Str) (k : ℕ) : (packet data k).len < 2 ^ 16 := by
  have hlen : (chunk data k).length ≤ 20 := List.length_take_le _ _
  show (chunk data k).length < 2 ^ 16
  omega

/-- What a process that receives the text of a packet makes of it: the data is cut at the first
newline or NUL. -/
theorem parse_received (data : Str) (k : ℕ) :
    Packet.parse (recvBuffer kMaxPacketSize (packet data k).toText) = .ok { packet data k with
      data := ((chunk data k).takeWhile (· != 0)).takeWhile (· != newline) } := by
  rw [recvBuffer_toText (length_toText_packet data k)]
  exact Packet.parse_toText (calculateChecksum_lt _) (len_packet_lt data k)

theorem parse_packet (hclean : Clean data) (k : ℕ) :
    Packet.parse (recvBuffer kMaxPacketSize (packet data k).toText) = .ok (packet data k) := by
  rw [parse_received, takeWhile_ne fun h => hclean.2 (mem_of_mem_chunk h),
    takeWhile_ne fun h => hclean.1 (mem_of_mem_chunk h)]
  rfl

/-- A process that waits for an acknowledgement takes the text of a packet for one. -/
theorem parse_as_ack (data : Str) (k : ℕ) :
    AckPacket.parse (recvBuffer kMaxAckSize (packet data k).toText) =
      .ok ⟨calculateChecksum (chunk data k), (chunk data k).length, bit k⟩ := by
  rw [recvBuffer_toText ((length_toText_packet data k).trans (by decide))]
  exact AckPacket.parse_packet (calculateChecksum_lt _) (len_packet_lt data k)

theorem isCorrupt_packet (data : Str) (k : ℕ) : isCorrupt (packet data k) = false := by
  simp [isCorrupt, packet]

theorem parse_ack (b : Bool) :
    AckPacket.parse (recvBuffer kMaxAckSize (AckPacket.toText ⟨0, 0, b⟩)) = .ok ⟨0, 0, b⟩ := by
  cases b <;> rfl

end Chunks

end DGDB.Rdt
