import Mathlib
import DGDB.Rdt.Checksum

/-!
# The fields of a packet

Which texts `Packet::Packet` reads as numbers, and which strings it gets from a text: what has too
few tabs is read into more than one field, and the data runs into the field before a missing tab.
-/

namespace DGDB.Rdt

open Decimal

/-- A text from which `stoi` reads a number. -/
def IsNumber (t : Str) : Prop := ∃ n, Number t n

theorem isNumber_iff {t : Str} : IsNumber t ↔ ∃ n, stoi t = .ok n :=
  exists_congr fun _ => stoi_eq_ok_iff.symm

theorem not_isNumber_nil : ¬ IsNumber [] := by
  rw [isNumber_iff]
  rintro ⟨n, h⟩
  cases h

/-- A text is read into a `uint16_t` as `n`. -/
def Reads (t : Str) (n : ℕ) : Prop := ∃ i, stoi t = .ok i ∧ toUInt16 i = n

theorem isNumber_iff_reads {t : Str} : IsNumber t ↔ ∃ n, Reads t n := by
  rw [isNumber_iff]
  exact ⟨fun ⟨i, hi⟩ => ⟨_, i, hi, rfl⟩, fun ⟨_, i, hi, _⟩ => ⟨i, hi⟩⟩

theorem Reads.unique {t : Str} {m n : ℕ} (hm : Reads t m) (hn : Reads t n) : m = n := by
  obtain ⟨i, hi, rfl⟩ := hm
  obtain ⟨j, hj, rfl⟩ := hn
  rw [hi] at hj
  cases hj
  rfl

theorem not_reads_nil {n : ℕ} : ¬ Reads [] n := by
  rintro ⟨i, hi, -⟩
  cases hi

theorem reads_headD {t : Str} (hd : isDigit (t.headD 0) = true) (hlen : t.length ≤ 9)
    (hvalue : value (t.takeWhile isDigit) < 2 ^ 16) : Reads t (value (t.takeWhile isDigit)) :=
  ⟨_, stoi_of_headD hd hlen, toUInt16_natCast hvalue⟩

theorem reads_digits {t : Str} (hne : t ≠ []) (hd : ∀ c ∈ t, isDigit c = true)
    (hvalue : value t < 2 ^ 16) : Reads t (value t) :=
  ⟨_, stoi_digits hne hd (by omega), toUInt16_natCast hvalue⟩

theorem reads_decimal {n : ℕ} (h : n < 2 ^ 16) : Reads (decimal n) n :=
  ⟨_, stoi_decimal (by omega), toUInt16_natCast h⟩

/-- What `Packet::Packet` makes of the four strings it has got from the stream. -/
def readFields (checksum len sequence_number data : Str) : Result Packet := do
  return ⟨toUInt16 (← stoi checksum), toUInt16 (← stoi len),
    decide ((← stoi sequence_number) ≠ 0), data⟩

section Fields

variable {a b d : Str}

theorem getline_end {delim : UInt8} {line data : Str} (h : delim ∉ line) :
    getline delim (some line) data = (none, line) := by
  simp only [getline, takeWhile_ne h, if_neg h]

/-- A text without tabs is read into every field. -/
theorem parse_one (ha : tab ∉ a) : Packet.parse a = readFields a a a a := by
  unfold Packet.parse
  simp only [getline_end ha]
  rfl

theorem parse_two (ha : tab ∉ a) (hb : tab ∉ b) :
    Packet.parse (a ++ tab :: b) = readFields a b b b := by
  unfold Packet.parse
  simp only [getline_delim ha, getline_end hb]
  rfl

theorem parse_three (ha : tab ∉ a) (hb : tab ∉ b) (hd : tab ∉ d) :
    Packet.parse (a ++ tab :: (b ++ tab :: d)) = readFields a b d d := by
  unfold Packet.parse
  simp only [getline_delim ha, getline_delim hb, getline_end hd]
  rfl

theorem parse_four (ha : tab ∉ a) (hb : tab ∉ b) (hd : tab ∉ d) (e : Str) :
    Packet.parse (a ++ tab :: (b ++ tab :: (d ++ tab :: e))) =
      readFields a b d (e.takeWhile (· != newline)) := by
  unfold Packet.parse
  simp only [getline_delim ha, getline_delim hb, getline_delim hd]
  rfl

/-- What is missing in front of the data when it is read behind `front` on: up to its first tab, it
belongs to the field before. -/
def skipped (front data : Str) : Str :=
  if tab ∈ data then data.takeWhile (· != tab) ++ [tab] else front

/-- The data has run into the field before it. -/
theorem parse_data (ha : tab ∉ a) (hb : tab ∉ b) (hd : tab ∉ d) {e : Str} (he : newline ∉ e) :
    ∃ data, Packet.parse (a ++ tab :: (b ++ tab :: (d ++ e))) =
        readFields a b (d ++ e.takeWhile (· != tab)) data ∧
      (calculateChecksum e = calculateChecksum data ↔ calculateChecksum (skipped d e) = 0) := by
  set line := e.takeWhile (· != tab) with hline
  have htab : tab ∉ d ++ line := by
    rw [List.mem_append, not_or]
    refine ⟨hd, fun h => ?_⟩
    have := List.mem_takeWhile_imp h
    simp at this
  unfold skipped
  by_cases hmem : tab ∈ e
  · obtain ⟨rest, hrest⟩ : ∃ rest, e = line ++ tab :: rest := by
      obtain ⟨x, rest, hsplit, hx⟩ := List.eq_append_cons_of_mem hmem
      have hx' : line = x := by
        rw [hline, hsplit, takeWhile_line hx, List.takeWhile_cons_of_neg (by simp), List.append_nil]
      exact ⟨rest, by rw [hx', ← hsplit]⟩
    refine ⟨rest.takeWhile (· != newline), ?_, ?_⟩
    · rw [← parse_four ha hb htab, List.append_assoc, ← hrest]
    · have hclean : newline ∉ rest := fun h => he (by rw [hrest]; simp [h])
      rw [takeWhile_ne hclean, if_pos hmem, ← calculateChecksum_lose_left (v := rest),
        List.append_assoc]
      show _ ↔ calculateChecksum (line ++ tab :: rest) = _
      rw [← hrest]
  · have hwhole : line = e := takeWhile_ne hmem
    refine ⟨d ++ e, ?_, ?_⟩
    · rw [hwhole] at htab ⊢
      exact parse_three ha hb htab
    · rw [if_neg hmem, ← calculateChecksum_lose_left (v := e)]
      exact eq_comm

end Fields

end DGDB.Rdt
