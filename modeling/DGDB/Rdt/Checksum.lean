import Mathlib
import DGDB.Lib.ErrorDetection
import DGDB.Rdt.Packet

/-!
# The checksum

`CalculateChecksum` is an additive checksum over the signed bytes: it sees every replaced byte, and
a loss exactly if what is lost does not add up to 0. A text of digits is read as another number when
a byte of it is replaced, and seldom adds up to the number it denotes.
-/

namespace DGDB.Rdt

open Decimal ErrorDetection

/-! ## The checksum as a sum -/

/-- The weight of a byte in the checksum. -/
def weight (c : UInt8) : ZMod (2 ^ 16) := (signedChar c : ℤ)

theorem toUInt16_eq_iff {i j : ℤ} :
    toUInt16 i = toUInt16 j ↔ (i : ZMod (2 ^ 16)) = (j : ZMod (2 ^ 16)) := by
  rw [ZMod.intCast_eq_intCast_iff]
  unfold toUInt16 Int.ModEq
  omega

theorem signedChar_eq (c : UInt8) :
    signedChar c = if c.toNat < 128 then (c.toNat : ℤ) else c.toNat - 256 := by
  have hlt : c.toNat < 256 := c.toNat_lt
  split_ifs with h
  · exact signedChar_of_lt h
  · unfold signedChar
    rw [Int.bmod_def, if_neg (by omega)]
    omega

theorem calculateChecksum_append_singleton (s : Str) (c : UInt8) :
    calculateChecksum (s ++ [c]) = toUInt16 (calculateChecksum s + signedChar c) := by
  unfold calculateChecksum
  rw [List.foldl_append, List.foldl_cons, List.foldl_nil]

theorem calculateChecksum_eq (s : Str) :
    calculateChecksum s = toUInt16 (checksum signedChar s) := by
  induction s using List.reverseRecOn with
  | nil => rfl
  | append_singleton s c ih =>
    rw [calculateChecksum_append_singleton, ih, checksum_append, checksum_cons, checksum_nil,
      add_zero]
    unfold toUInt16
    omega

theorem calculateChecksum_eq_iff {s t : Str} :
    calculateChecksum s = calculateChecksum t ↔ checksum weight s = checksum weight t := by
  have hcast : ∀ u : Str, ((checksum signedChar u : ℤ) : ZMod (2 ^ 16)) = checksum weight u := by
    intro u
    have h := map_checksum signedChar (Int.castAddHom (ZMod (2 ^ 16))) u
    simp only [Int.coe_castAddHom] at h
    exact h
  rw [calculateChecksum_eq, calculateChecksum_eq, toUInt16_eq_iff, hcast, hcast]

theorem calculateChecksum_eq_zero_iff {s : Str} :
    calculateChecksum s = 0 ↔ checksum weight s = 0 :=
  calculateChecksum_eq_iff (t := [])

theorem weight_injective : Function.Injective weight := by
  intro b c h
  have hmod := toUInt16_eq_iff.mpr h
  have hb := b.toNat_lt
  have hc := c.toNat_lt
  rw [signedChar_eq, signedChar_eq] at hmod
  unfold toUInt16 at hmod
  apply UInt8.toNat_inj.mp
  split_ifs at hmod <;> omega

theorem calculateChecksum_lose_right {u v : Str} :
    calculateChecksum (u ++ v) = calculateChecksum u ↔ calculateChecksum v = 0 := by
  rw [calculateChecksum_eq_iff, checksum_append_eq_left, calculateChecksum_eq_zero_iff]

theorem calculateChecksum_lose_left {u v : Str} :
    calculateChecksum (u ++ v) = calculateChecksum v ↔ calculateChecksum u = 0 := by
  rw [calculateChecksum_eq_iff, checksum_append_eq_right, calculateChecksum_eq_zero_iff]

/-- One replaced byte changes the checksum. -/
theorem calculateChecksum_substitute_ne {u v : Str} {b c : UInt8} (h : c ≠ b) :
    calculateChecksum (u ++ c :: v) ≠ calculateChecksum (u ++ b :: v) := by
  rw [ne_eq, calculateChecksum_eq_iff]
  exact checksum_ne_of_differsOnce weight_injective (differsOnce_substitute h)

theorem calculateChecksum_range {s : Str} (h : s.length ≤ 20) :
    calculateChecksum s ≤ 2540 ∨ 62976 ≤ calculateChecksum s := by
  have hsum : -(128 * s.length : ℤ) ≤ checksum signedChar s ∧
      checksum signedChar s ≤ 127 * s.length := by
    clear h
    induction s with
    | nil => exact ⟨le_rfl, le_rfl⟩
    | cons c s ih =>
      have hlt := c.toNat_lt
      rw [checksum_cons, signedChar_eq, List.length_cons]
      split_ifs <;> (push_cast; omega)
  rw [calculateChecksum_eq]
  unfold toUInt16
  omega

/-! ## Digits -/

/-- The digits of a number from 150 to 159 add up to the number, and no others do. -/
theorem calculateChecksum_decimal {n : ℕ} (hn : n < 2 ^ 16) :
    calculateChecksum (decimal n) = n ↔ 150 ≤ n ∧ n ≤ 159 := by
  have hsmall : ∀ m < 286, (calculateChecksum (decimal m) = m ↔ 150 ≤ m ∧ m ≤ 159) := by
    decide +kernel
  by_cases hlt : n < 286
  · exact hsmall n hlt
  have hdigits : ∀ t : Str, (∀ c ∈ t, isDigit c = true) →
      0 ≤ checksum signedChar t ∧ checksum signedChar t ≤ 57 * t.length := by
    intro t
    induction t with
    | nil => exact fun _ => ⟨le_rfl, le_rfl⟩
    | cons c t ih =>
      intro ht
      have hc := ht c List.mem_cons_self
      have hrest := ih fun d hd => ht d (List.mem_cons_of_mem _ hd)
      rw [isDigit_iff] at hc
      rw [checksum_cons, signedChar_of_lt (by omega), List.length_cons]
      push_cast
      omega
  have hsum := hdigits (decimal n) fun c hc => isDigit_of_mem_decimal hc
  have hlen : (decimal n).length ≤ 5 := length_decimal_le (by norm_num) (by omega)
  rw [calculateChecksum_eq]
  unfold toUInt16
  omega

/-- Five digits with another one in their place are another number, also as a `uint16_t`. -/
theorem value_substitute_mod_ne {u v : Str} {b c : UInt8} (hb : isDigit b = true)
    (hc : isDigit c = true) (hne : c ≠ b) (hv : v.length ≤ 4) :
    value (u ++ c :: v) % 2 ^ 16 ≠ value (u ++ b :: v) % 2 ^ 16 := by
  have hb' := isDigit_iff.mp hb
  have hc' := isDigit_iff.mp hc
  have hne' : c.toNat ≠ b.toNat := fun h => hne (UInt8.toNat_inj.mp h)
  intro h
  obtain ⟨z, hz⟩ := (Nat.modEq_iff_dvd (n := 2 ^ 16)).mp h
  -- the difference of the digits times a power of ten would be a multiple of `2 ^ 16`
  have hdiff : ((value (u ++ b :: v) : ℤ) - value (u ++ c :: v)) =
      ((b.toNat : ℤ) - c.toNat) * 10 ^ v.length := by
    rw [value_substitute, value_substitute]
    push_cast [Nat.cast_sub hb'.1, Nat.cast_sub hc'.1]
    ring
  rw [hdiff] at hz
  generalize v.length = k at hv hz
  interval_cases k <;> omega

/-- **A decimal text with another byte in it is read as another number**, as far as packets have it
for a checksum: a minus in front of 2768 would be read as 62768. -/
theorem stoi_substitute_ne {n : ℕ} (hn : n ≤ 2540 ∨ 62976 ≤ n ∧ n < 2 ^ 16) {u v : Str}
    {b c : UInt8} (h : decimal n = u ++ b :: v) (hc : c ≠ b) {m : ℤ}
    (hm : stoi (u ++ c :: v) = .ok m) :
    toUInt16 m ≠ n := by
  have hlen : (decimal n).length ≤ 5 := length_decimal_le (by norm_num) (by omega)
  have hdigits : ∀ d ∈ decimal n, isDigit d = true := fun d hd => isDigit_of_mem_decimal hd
  have hvalue := value_decimal n
  rw [h] at hlen hdigits hvalue
  rw [List.length_append, List.length_cons] at hlen
  have hb : isDigit b = true := hdigits b (by simp)
  have hv : ∀ d ∈ v, isDigit d = true := fun d hd => hdigits d (by simp [hd])
  have hvlt := value_lt hv
  have hbegin : ∀ t, t <+: u ++ b :: v → t ≠ [] → u ++ v ≠ [] → 0 < value t := by
    intro t ht hne hlong
    have hpos : 10 ≤ n := by
      by_contra hlt
      have hone := congrArg List.length (h.symm.trans (decimal_of_lt (not_le.mp hlt)))
      have hlong' := List.length_pos_iff.mpr hlong
      simp only [List.length_append, List.length_cons, List.length_nil] at hone hlong'
      omega
    rw [← h] at ht
    exact (decimal_beginning (by omega) ht hne).1
  rw [value_substitute] at hvalue
  by_cases hdigit : isDigit c = true
  · have hall : ∀ d ∈ u ++ c :: v, isDigit d = true := by
      intro d hd
      rcases List.mem_append.mp hd with hd | hd
      · exact hdigits d (by simp [hd])
      · rcases List.mem_cons.mp hd with rfl | hd
        · exact hdigit
        · exact hv d hd
    have hm' := stoi_digits (by simp) hall ((value_lt hall).trans_le
      ((Nat.pow_le_pow_right (by norm_num) (by simpa using hlen)).trans
        (by norm_num : 10 ^ 5 ≤ 2 ^ 31)))
    rw [hm] at hm'
    cases hm'
    have hmod := value_substitute_mod_ne (u := u) (v := v) hb hdigit hc (by omega)
    rw [value_substitute u v b, hvalue] at hmod
    unfold toUInt16
    omega
  have hb' := isDigit_iff.mp hb
  by_cases hu : u = []
  · subst hu
    -- a space or a sign for the first digit
    obtain ⟨hne, hm'⟩ := stoi_cons_digits (by simpa using hdigit) hv hm
    have hfirst := hbegin [b] ⟨v, rfl⟩ (by simp) (by simpa using hne)
    have hfirst' : value [b] = b.toNat - 48 := by simp [value]
    have hk : 1 ≤ v.length := List.length_pos_iff.mpr hne
    have hvlt' : value v < 10 ^ 4 :=
      hvlt.trans_le (Nat.pow_le_pow_right (by norm_num) (by omega))
    rw [value_nil, Nat.mul_zero, Nat.zero_add] at hvalue
    rcases hm' with rfl | rfl
    · rw [toUInt16_natCast (by omega)]
      have hleft : 0 < (b.toNat - 48) * 10 ^ v.length := by
        have : 0 < b.toNat - 48 := by omega
        positivity
      omega
    · rw [toUInt16_neg (by omega)]
      generalize v.length = k at *
      have hk4 : k ≤ 4 := by
        rw [List.length_nil] at hlen
        omega
      interval_cases k <;> split_ifs <;> omega
  · -- what stands before the byte is read
    have hhead : isDigit ((u ++ c :: v).headD 0) = true := by
      obtain ⟨d, w, rfl⟩ := List.exists_cons_of_ne_nil hu
      exact hdigits d (by simp)
    have htake : (u ++ c :: v).takeWhile isDigit = u := by
      rw [List.takeWhile_append_of_pos fun d hd => hdigits d (by simp [hd]),
        List.takeWhile_cons_of_neg hdigit, List.append_nil]
    have hm' := stoi_of_headD hhead (by rw [List.length_append, List.length_cons]; omega)
    rw [hm, htake] at hm'
    cases hm'
    have hpos := hbegin u (List.prefix_append _ _) hu (by simp [hu])
    have hless : value u < 10 * value u * 10 ^ v.length := by
      have : 0 < 10 ^ v.length := by positivity
      nlinarith
    rw [Nat.add_mul] at hvalue
    rw [toUInt16_natCast (by omega)]
    omega
end DGDB.Rdt
