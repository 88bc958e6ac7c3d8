import Mathlib

/-!
# Decimal text

The decimal digits of a number as bytes, padded to a width or not, and the value of a digit text.
-/

namespace Decimal

/-- The byte of the digit `d`. -/
def digitByte (d : ℕ) : UInt8 := UInt8.ofNat (48 + d)

def isDigit (c : UInt8) : Bool := 48 ≤ c && c ≤ 57

/-- The decimal text of `n`. -/
def decimal (n : ℕ) : List UInt8 :=
  if n = 0 then [48] else (Nat.digits 10 n).reverse.map digitByte

/-- The decimal text of `n`, filled with zeros on the left up to `w` bytes. -/
def padded (w n : ℕ) : List UInt8 :=
  List.replicate (w - (decimal n).length) 48 ++ decimal n

/-- The number a digit text denotes. -/
def value (l : List UInt8) : ℕ := l.foldl (fun acc c => 10 * acc + (c.toNat - 48)) 0

theorem digitByte_toNat {d : ℕ} (h : d < 10) : (digitByte d).toNat = 48 + d := by
  unfold digitByte
  rw [UInt8.toNat_ofNat']
  omega

theorem isDigit_iff {c : UInt8} : isDigit c = true ↔ 48 ≤ c.toNat ∧ c.toNat ≤ 57 := by
  simp only [isDigit, Bool.and_eq_true, decide_eq_true_eq, UInt8.le_iff_toNat_le]
  exact Iff.rfl

theorem isDigit_digitByte {d : ℕ} (h : d < 10) : isDigit (digitByte d) = true := by
  rw [isDigit_iff, digitByte_toNat h]
  omega

@[simp] theorem value_nil : value [] = 0 := rfl

theorem value_append_singleton (l : List UInt8) (c : UInt8) :
    value (l ++ [c]) = 10 * value l + (c.toNat - 48) := by
  simp [value, List.foldl_append]

theorem value_append (u v : List UInt8) : value (u ++ v) = value u * 10 ^ v.length + value v := by
  induction v using List.reverseRecOn with
  | nil => simp
  | append_singleton v c ih =>
    rw [← List.append_assoc, value_append_singleton, value_append_singleton, ih,
      List.length_append, List.length_singleton, pow_succ]
    ring

theorem value_substitute (u v : List UInt8) (c : UInt8) :
    value (u ++ c :: v) = (10 * value u + (c.toNat - 48)) * 10 ^ v.length + value v := by
  rw [List.append_cons, value_append, value_append_singleton]

theorem value_reverse_map {l : List ℕ} (h : ∀ d ∈ l, d < 10) :
    value (l.reverse.map digitByte) = Nat.ofDigits 10 l := by
  induction l with
  | nil => rfl
  | cons d l ih =>
    rw [List.reverse_cons, List.map_append, List.map_singleton, value_append_singleton,
      ih (fun e he => h e (List.mem_cons_of_mem d he)),
      digitByte_toNat (h d List.mem_cons_self), Nat.ofDigits_cons]
    omega

theorem value_lt {l : List UInt8} (h : ∀ c ∈ l, isDigit c = true) : value l < 10 ^ l.length := by
  induction l using List.reverseRecOn with
  | nil => simp
  | append_singleton l c ih =>
    have hl := ih (fun d hd => h d (List.mem_append_left _ hd))
    have hc := h c (List.mem_append_right _ (List.mem_singleton_self c))
    rw [isDigit_iff] at hc
    rw [value_append_singleton, List.length_append, List.length_singleton, pow_succ]
    omega

theorem value_decimal (n : ℕ) : value (decimal n) = n := by
  unfold decimal
  split_ifs with h
  · subst h
    rfl
  · rw [value_reverse_map (fun d hd => Nat.digits_lt_base (by norm_num) hd), Nat.ofDigits_digits]

theorem isDigit_of_mem_decimal {n : ℕ} {c : UInt8} (h : c ∈ decimal n) : isDigit c = true := by
  unfold decimal at h
  split_ifs at h with h0
  · rw [List.mem_singleton.mp h]
    rfl
  · obtain ⟨d, hd, rfl⟩ := List.mem_map.mp h
    exact isDigit_digitByte (Nat.digits_lt_base (by norm_num) (List.mem_reverse.mp hd))

theorem decimal_ne_nil (n : ℕ) : decimal n ≠ [] := by
  unfold decimal
  split_ifs with h
  · simp
  · simpa [Nat.digits_eq_nil_iff_eq_zero] using h

theorem length_decimal_le {n k : ℕ} (hk : 0 < k) (h : n < 10 ^ k) : (decimal n).length ≤ k := by
  unfold decimal
  split_ifs with h0
  · simpa [Nat.one_le_iff_ne_zero] using hk.ne'
  · simpa using (Nat.digits_length_le_iff (by norm_num) n).mpr h

theorem decimal_of_lt {n : ℕ} (h : n < 10) : decimal n = [digitByte n] := by
  interval_cases n <;> rfl

theorem decimal_of_ge {n : ℕ} (h : 10 ≤ n) :
    decimal n = decimal (n / 10) ++ [digitByte (n % 10)] := by
  unfold decimal
  rw [if_neg (by omega), if_neg (by omega), Nat.digits_def' (by norm_num) (by omega),
    List.reverse_cons, List.map_append, List.map_singleton]

/-- What the decimal text of a positive number begins with is one as well. -/
theorem decimal_beginning {n : ℕ} (hn : 0 < n) {t : List UInt8} (ht : t <+: decimal n)
    (hne : t ≠ []) : 0 < value t ∧ t = decimal (value t) := by
  induction n using Nat.strong_induction_on with
  | _ n ih =>
    by_cases hlt : n < 10
    · rw [decimal_of_lt hlt] at ht
      rcases List.prefix_cons_iff.mp ht with rfl | ⟨u, rfl, hu⟩
      · exact absurd rfl hne
      · rw [List.prefix_nil.mp hu, ← decimal_of_lt hlt, value_decimal]
        exact ⟨hn, rfl⟩
    · rw [decimal_of_ge (by omega)] at ht
      rcases List.prefix_concat_iff.mp ht with rfl | hbegin
      · rw [← decimal_of_ge (by omega), value_decimal]
        exact ⟨hn, rfl⟩
      · exact ih (n / 10) (by omega) (by omega) hbegin

/-! ## Padding -/

theorem value_replicate_append (k : ℕ) (l : List UInt8) :
    value (List.replicate k 48 ++ l) = value l := by
  induction k with
  | zero => rfl
  | succ k ih => simpa [List.replicate_succ, value] using ih

@[simp] theorem value_padded (w n : ℕ) : value (padded w n) = n := by
  rw [padded, value_replicate_append, value_decimal]

theorem isDigit_of_mem_padded {w n : ℕ} {c : UInt8} (h : c ∈ padded w n) : isDigit c = true := by
  rcases List.mem_append.mp h with h | h
  · rw [List.eq_of_mem_replicate h]
    rfl
  · exact isDigit_of_mem_decimal h

theorem le_length_padded (w n : ℕ) : w ≤ (padded w n).length := by
  simp only [padded, List.length_append, List.length_replicate]
  omega

theorem length_padded {w n : ℕ} (hw : 0 < w) (h : n < 10 ^ w) : (padded w n).length = w := by
  have := length_decimal_le hw h
  simp only [padded, List.length_append, List.length_replicate]
  omega

/-- The id text is three digits and those that do not fit. -/
theorem padded_split (n : ℕ) : ∃ t extra : List UInt8, padded 3 n = t ++ extra ∧ t.length = 3 ∧
    (∀ c ∈ t, isDigit c = true) ∧ (∀ c ∈ extra, isDigit c = true) ∧ (extra = [] ↔ n ≤ 999) := by
  have hdigit : ∀ c ∈ padded 3 n, isDigit c = true := fun c hc => isDigit_of_mem_padded hc
  have hlen := le_length_padded 3 n
  refine ⟨(padded 3 n).take 3, (padded 3 n).drop 3, (List.take_append_drop 3 _).symm, ?_, ?_, ?_,
    ?_⟩
  · rw [List.length_take]
    omega
  · exact fun c hc => hdigit c (List.mem_of_mem_take hc)
  · exact fun c hc => hdigit c (List.mem_of_mem_drop hc)
  · rw [List.drop_eq_nil_iff]
    constructor
    · intro hle
      have hlt := value_lt hdigit
      rw [value_padded, show (padded 3 n).length = 3 by omega] at hlt
      omega
    · intro hn
      rw [length_padded (by norm_num) (show n < 10 ^ 3 by omega)]

end Decimal
