import Mathlib
import DGDB.Lib.Decimal

/-!
# Strings and conversions

The part of `std::string`, `std::stoi`, `sprintf` and of the integer conversions that the program
computes with. A position or a length is an `int` in the source and becomes a `size_t` where it is
used, so a negative one is a number close to `2 ^ 64`.
-/

namespace DGDB

open Decimal

/-- A `std::string`. -/
abbrev Str := List UInt8

instance : LawfulBEq Str := inferInstance

/-- The bytes of a string literal. -/
def str (s : String) : Str := s.toList.map fun c => UInt8.ofNat c.toNat

/-- The byte of a character literal. -/
def ch (c : Char) : UInt8 := UInt8.ofNat c.toNat

/-- What keeps a computation of the program from ending normally. -/
inductive Fault
  /-- `std::invalid_argument`, thrown by `stoi`. -/
  | invalidArgument
  /-- `std::out_of_range`, thrown by `stoi`, `substr` and `erase`. -/
  | outOfRange
  /-- Undefined behaviour: a null pointer, an index past the end, a division by zero. -/
  | undefined
  deriving DecidableEq, Repr

abbrev Result := Except Fault

@[simp] theorem ok_bind {α β : Type} (a : α) (f : α → Result β) :
    ((Except.ok a : Result α) >>= f) = f a := rfl

@[simp] theorem error_bind {α β : Type} (e : Fault) (f : α → Result β) :
    ((Except.error e : Result α) >>= f) = .error e := rfl

@[simp] theorem pure_eq_ok {α : Type} (a : α) : (pure a : Result α) = .ok a := rfl

/-- What a computation in `Result` did, when it succeeded. -/
theorem bind_eq_ok {α β : Type} {x : Result α} {f : α → Result β} {b : β} :
    (x >>= f) = .ok b ↔ ∃ a, x = .ok a ∧ f a = .ok b := by
  cases x with
  | error e => simp
  | ok a => simp

/-! ## Integers -/

/-- The conversion of a signed integer to `size_t`. -/
def toSizeT (i : ℤ) : ℕ := (i % 2 ^ 64).toNat

/-- The conversion of a `size_t` to `int`. -/
def toInt (n : ℤ) : ℤ := Int.bmod n (2 ^ 32)

/-- The value of a plain `char`, which is signed. -/
def signedChar (c : UInt8) : ℤ := Int.bmod c.toNat 256

/-- The subtraction of `size_t`. -/
def subSizeT (a b : ℕ) : ℕ := toSizeT ((a : ℤ) - b)

theorem toSizeT_natCast {n : ℕ} (h : n < 2 ^ 64) : toSizeT n = n := by
  unfold toSizeT
  omega

theorem toInt_natCast {n : ℕ} (h : n < 2 ^ 31) : toInt n = n := by
  unfold toInt
  exact Int.bmod_eq_of_le (by omega) (by omega)

theorem signedChar_of_lt {c : UInt8} (h : c.toNat < 128) : signedChar c = c.toNat := by
  unfold signedChar
  exact Int.bmod_eq_of_le (by omega) (by omega)

theorem subSizeT_of_le {a b : ℕ} (h : b ≤ a) (ha : a < 2 ^ 64) : subSizeT a b = a - b := by
  unfold subSizeT
  rw [← Nat.cast_sub h]
  exact toSizeT_natCast (by omega)

/-! ## `std::string` -/

/-- `b.substr(pos, n)`. -/
def substr (b : Str) (pos n : ℤ) : Result Str :=
  if b.length < toSizeT pos then throw .outOfRange
  else pure ((b.drop (toSizeT pos)).take (toSizeT n))

/-- `b.erase(pos, n)`. -/
def erase (b : Str) (pos n : ℤ) : Result Str :=
  if b.length < toSizeT pos then throw .outOfRange
  else pure (b.take (toSizeT pos) ++ b.drop (toSizeT pos + toSizeT n))

/-- `b[pos]`: the terminator at the end, undefined past it. -/
def charAt (b : Str) (pos : ℤ) : Result UInt8 :=
  match b[toSizeT pos]? with
  | some c => pure c
  | none => if toSizeT pos = b.length then pure 0 else throw .undefined

/-- `b.find(c)` as an `int`: `npos` becomes `-1`. -/
def findChar (c : UInt8) (b : Str) : ℤ :=
  match b.findIdx? (· == c) with
  | some i => toInt i
  | none => -1

section Slices

variable {p x r : Str} {s n : ℤ}

theorem substr_append (hs : s = p.length) (hn : n = x.length)
    (hlen : (p ++ x).length < 2 ^ 64) : substr (p ++ (x ++ r)) s n = .ok x := by
  subst hs hn
  rw [List.length_append] at hlen
  simp [substr, toSizeT_natCast (show p.length < 2 ^ 64 by omega),
    toSizeT_natCast (show x.length < 2 ^ 64 by omega), pure, Except.pure]

theorem erase_append (hs : s = p.length) (hn : n = x.length)
    (hlen : (p ++ x).length < 2 ^ 64) : erase (p ++ (x ++ r)) s n = .ok (p ++ r) := by
  subst hs hn
  rw [List.length_append] at hlen
  simp [erase, toSizeT_natCast (show p.length < 2 ^ 64 by omega),
    toSizeT_natCast (show x.length < 2 ^ 64 by omega), pure, Except.pure]

theorem charAt_append {c : UInt8} (hs : s = p.length) (hlen : p.length < 2 ^ 64) :
    charAt (p ++ c :: r) s = .ok c := by
  subst hs
  simp [charAt, toSizeT_natCast hlen, pure, Except.pure]

theorem substr_behind (hs : s = p.length) (hlen : p.length < 2 ^ 64) :
    substr (p ++ x) s n = .ok (x.take (toSizeT n)) := by
  subst hs
  simp [substr, toSizeT_natCast hlen, pure, Except.pure]

theorem length_of_substr_ok {b t : Str} (h : substr b s n = .ok t) :
    t.length ≤ toSizeT n := by
  unfold substr at h
  split_ifs at h
  cases h
  exact List.length_take_le _ _

end Slices

/-! ## `stoi` and `sprintf` -/

/-- `isspace` in the C locale. -/
def isSpace (c : UInt8) : Bool := c == 32 || (9 ≤ c && c ≤ 13)

/-- The optional sign that `stoi` reads: whether it is a minus, and what follows it. -/
def splitSign : Str → Bool × Str
  | [] => (false, [])
  | c :: t => if c = ch '-' then (true, t) else if c = ch '+' then (false, t) else (false, c :: t)

/-- `stoi(t)`. -/
def stoi (t : Str) : Result ℤ :=
  let signed := splitSign (t.dropWhile isSpace)
  let digits := signed.2.takeWhile isDigit
  if digits = [] then throw .invalidArgument
  else
    let v : ℤ := if signed.1 then -value digits else value digits
    if v < -2 ^ 31 ∨ 2 ^ 31 ≤ v then throw .outOfRange else pure v

theorem not_isSpace_of_isDigit {c : UInt8} (h : isDigit c = true) : isSpace c = false := by
  have h48 : 48 ≤ c.toNat := (isDigit_iff.mp h).1
  simp only [isSpace, Bool.or_eq_false_iff, Bool.and_eq_false_iff, decide_eq_false_iff_not,
    beq_eq_false_iff_ne, ne_eq, UInt8.le_iff_toNat_le, not_le]
  refine ⟨fun hc => ?_, Or.inr ?_⟩
  · subst hc
    exact absurd h48 (by decide)
  · have : (13 : UInt8).toNat = 13 := rfl
    omega

theorem splitSign_of_isDigit {c : UInt8} {t : Str} (h : isDigit c = true) :
    splitSign (c :: t) = (false, c :: t) := by
  have h1 : c ≠ ch '-' := by rintro rfl; exact absurd h (by decide)
  have h2 : c ≠ ch '+' := by rintro rfl; exact absurd h (by decide)
  simp [splitSign, h1, h2]

theorem stoi_digits {t : Str} (hne : t ≠ []) (hd : ∀ c ∈ t, isDigit c = true)
    (hv : value t < 2 ^ 31) : stoi t = .ok (value t) := by
  obtain ⟨c, u, rfl⟩ := List.exists_cons_of_ne_nil hne
  have hc := hd c List.mem_cons_self
  have htake : (c :: u).takeWhile isDigit = c :: u := List.takeWhile_eq_self_iff.mpr hd
  have hsp : (c :: u).dropWhile isSpace = c :: u := by
    rw [List.dropWhile_cons, not_isSpace_of_isDigit hc]
    rfl
  unfold stoi
  rw [hsp, splitSign_of_isDigit hc]
  simp only [htake, if_neg (List.cons_ne_nil c u), Bool.false_eq_true, if_false]
  rw [if_neg (by omega)]
  rfl

/-- `stoi` reads back what `sprintf` writes with a width it fits. -/
theorem stoi_padded {w n : ℕ} (hn : n < 2 ^ 31) : stoi (padded w n) = .ok (n : ℤ) := by
  have hne : padded w n ≠ [] := by
    simp [padded, decimal_ne_nil]
  have h := stoi_digits hne (fun c hc => isDigit_of_mem_padded hc) (by rwa [value_padded])
  rwa [value_padded] at h

theorem stoi_decimal {n : ℕ} (hn : n < 2 ^ 31) : stoi (decimal n) = .ok (n : ℤ) := by
  have h := stoi_digits (decimal_ne_nil n) (fun c hc => isDigit_of_mem_decimal hc)
    (by rwa [value_decimal])
  rwa [value_decimal] at h

theorem stoi_nil : stoi [] = .error .invalidArgument := rfl

theorem length_splitSign (t : Str) : (splitSign t).2.length ≤ t.length := by
  cases t with
  | nil => simp [splitSign]
  | cons c t => simp only [splitSign]; split_ifs <;> simp

theorem stoi_lt {t : Str} {v : ℤ} {k : ℕ} (h : stoi t = .ok v) (hk : t.length ≤ k) :
    v < 10 ^ k := by
  unfold stoi at h
  set ds := (splitSign (t.dropWhile isSpace)).2.takeWhile isDigit with hds
  have hlen : ds.length ≤ k :=
    ((List.takeWhile_sublist _).length_le.trans (length_splitSign _)).trans
      ((List.dropWhile_sublist _).length_le.trans hk)
  have hval : value ds < 10 ^ k :=
    lt_of_lt_of_le (value_lt fun c hc => List.mem_takeWhile_imp hc)
      (Nat.pow_le_pow_right (by norm_num) hlen)
  have hval' : (value ds : ℤ) < 10 ^ k := by exact_mod_cast hval
  have hpos : (0 : ℤ) < 10 ^ k := by positivity
  simp only at h
  split_ifs at h <;> (cases h; omega)

/-! ## What `stoi` accepts -/

/-- A text from which `stoi` reads `n`: spaces, a sign, digits, and whatever follows them. -/
def Number (t : Str) (n : ℤ) : Prop :=
  (-2 ^ 31 ≤ n ∧ n < 2 ^ 31) ∧ ∃ spaces sign digits rest : Str,
    t = spaces ++ (sign ++ (digits ++ rest)) ∧ (∀ c ∈ spaces, isSpace c = true) ∧
    digits ≠ [] ∧ (∀ c ∈ digits, isDigit c = true) ∧ isDigit (rest.headD 0) = false ∧
    (sign = [ch '-'] ∧ n = -value digits ∨ (sign = [] ∨ sign = [ch '+']) ∧ n = value digits)

theorem splitSign_split (t : Str) : ∃ sign, t = sign ++ (splitSign t).2 ∧
    (sign = [ch '-'] ∧ (splitSign t).1 = true ∨
      (sign = [] ∨ sign = [ch '+']) ∧ (splitSign t).1 = false) := by
  cases t with
  | nil => exact ⟨[], rfl, Or.inr ⟨Or.inl rfl, rfl⟩⟩
  | cons c t =>
    simp only [splitSign]
    split_ifs with hminus hplus
    · exact ⟨[ch '-'], by rw [hminus]; rfl, Or.inl ⟨rfl, rfl⟩⟩
    · exact ⟨[ch '+'], by rw [hplus]; rfl, Or.inr ⟨Or.inr rfl, rfl⟩⟩
    · exact ⟨[], rfl, Or.inr ⟨Or.inl rfl, rfl⟩⟩

theorem headD_dropWhile (p : UInt8 → Bool) (hp : p 0 = false) (x : Str) :
    p ((x.dropWhile p).headD 0) = false := by
  induction x with
  | nil => exact hp
  | cons c x ih =>
    by_cases hc : p c = true
    · rwa [List.dropWhile_cons_of_pos hc]
    · rw [List.dropWhile_cons_of_neg hc]
      exact Bool.not_eq_true _ ▸ hc

theorem dropWhile_append_of_head {p : UInt8 → Bool} {x r : Str} (hx : ∀ c ∈ x, p c = true)
    (hr : p (r.headD 0) = false) : (x ++ r).dropWhile p = r := by
  rw [List.dropWhile_append_of_pos hx]
  cases r with
  | nil => rfl
  | cons c r =>
    have hc : p c = false := hr
    rw [List.dropWhile_cons_of_neg (by simp [hc])]

theorem takeWhile_append_of_head {p : UInt8 → Bool} {x r : Str} (hx : ∀ c ∈ x, p c = true)
    (hr : p (r.headD 0) = false) : (x ++ r).takeWhile p = x := by
  rw [List.takeWhile_append_of_pos hx]
  cases r with
  | nil => simp
  | cons c r =>
    have hc : p c = false := hr
    rw [List.takeWhile_cons_of_neg (by simp [hc]), List.append_nil]

theorem stoi_eq {t : Str} {n : ℤ} {minus : Bool} {u : Str}
    (hu : splitSign (t.dropWhile isSpace) = (minus, u)) :
    stoi t = .ok n ↔ u.takeWhile isDigit ≠ [] ∧ (-2 ^ 31 ≤ n ∧ n < 2 ^ 31) ∧
      n = if minus then -(value (u.takeWhile isDigit) : ℤ) else value (u.takeWhile isDigit) := by
  unfold stoi
  rw [hu]
  simp only
  by_cases hnil : u.takeWhile isDigit = []
  · rw [if_pos hnil]
    constructor
    · intro h
      cases h
    · rintro ⟨hne, -⟩
      exact absurd hnil hne
  · rw [if_neg hnil]
    generalize (if minus then -(value (u.takeWhile isDigit) : ℤ)
      else value (u.takeWhile isDigit)) = v
    by_cases hrange : v < -2 ^ 31 ∨ 2 ^ 31 ≤ v
    · rw [if_pos hrange]
      constructor
      · intro h
        cases h
      · rintro ⟨-, hn, rfl⟩
        omega
    · rw [if_neg hrange]
      constructor
      · intro h
        cases h
        exact ⟨hnil, by omega, rfl⟩
      · rintro ⟨-, -, rfl⟩
        rfl

/-- **`stoi` accepts exactly the numbers.** -/
theorem stoi_eq_ok_iff {t : Str} {n : ℤ} : stoi t = .ok n ↔ Number t n := by
  constructor
  · intro h
    obtain ⟨sign, hsplit, hsign⟩ := splitSign_split (t.dropWhile isSpace)
    obtain ⟨minus, u, hu⟩ : ∃ minus u, splitSign (t.dropWhile isSpace) = (minus, u) :=
      ⟨_, _, rfl⟩
    rw [hu] at hsplit hsign
    obtain ⟨hne, hrange, hn⟩ := (stoi_eq hu).mp h
    refine ⟨hrange, t.takeWhile isSpace, sign, u.takeWhile isDigit, u.dropWhile isDigit, ?_,
      fun c hc => List.mem_takeWhile_imp hc, hne, fun c hc => List.mem_takeWhile_imp hc,
      headD_dropWhile isDigit rfl u, ?_⟩
    · rw [List.takeWhile_append_dropWhile, ← hsplit, List.takeWhile_append_dropWhile]
    · rcases hsign with ⟨hs, rfl⟩ | ⟨hs, rfl⟩
      · exact Or.inl ⟨hs, hn⟩
      · exact Or.inr ⟨hs, hn⟩
  · rintro ⟨hrange, spaces, sign, digits, rest, rfl, hspaces, hne, hdigits, hrest, hsign⟩
    obtain ⟨c, ds, rfl⟩ := List.exists_cons_of_ne_nil hne
    have hc := hdigits c List.mem_cons_self
    have hu : ∃ minus, splitSign ((spaces ++ (sign ++ (c :: ds ++ rest))).dropWhile isSpace) =
        (minus, c :: ds ++ rest) ∧
          n = if minus then -(value (c :: ds) : ℤ) else value (c :: ds) := by
      rcases hsign with ⟨rfl, hn⟩ | ⟨rfl | rfl, hn⟩
      · rw [dropWhile_append_of_head hspaces rfl]
        exact ⟨true, rfl, hn⟩
      · rw [List.nil_append, dropWhile_append_of_head (r := c :: ds ++ rest) hspaces
          (not_isSpace_of_isDigit hc)]
        exact ⟨false, splitSign_of_isDigit hc, hn⟩
      · rw [dropWhile_append_of_head hspaces rfl]
        exact ⟨false, rfl, hn⟩
    obtain ⟨minus, hu, hn⟩ := hu
    rw [stoi_eq hu, takeWhile_append_of_head hdigits hrest]
    exact ⟨hne, hrange, hn⟩

theorem stoi_of_headD {t : Str} (hd : isDigit (t.headD 0) = true) (hlen : t.length ≤ 9) :
    stoi t = .ok (value (t.takeWhile isDigit)) := by
  cases t with
  | nil => cases hd
  | cons c t =>
    have hc : isDigit c = true := hd
    have hsplit : splitSign ((c :: t).dropWhile isSpace) = (false, c :: t) := by
      rw [List.dropWhile_cons_of_neg (by simp [not_isSpace_of_isDigit hc])]
      exact splitSign_of_isDigit hc
    have hvalue : value ((c :: t).takeWhile isDigit) < 10 ^ 9 :=
      (value_lt fun d hd => List.mem_takeWhile_imp hd).trans_le
        (Nat.pow_le_pow_right (by norm_num) ((List.takeWhile_sublist _).length_le.trans hlen))
    refine (stoi_eq hsplit).mpr ⟨?_, by omega, rfl⟩
    rw [List.takeWhile_cons_of_pos hc]
    exact List.cons_ne_nil _ _

/-- `stoi` of digits behind another byte, which is a space or a sign. -/
theorem stoi_cons_digits {c : UInt8} {v : Str} {n : ℤ} (hc : isDigit c = false)
    (hv : ∀ d ∈ v, isDigit d = true) (h : stoi (c :: v) = .ok n) :
    v ≠ [] ∧ (n = value v ∨ n = -value v) := by
  have htake : v.takeWhile isDigit = v := List.takeWhile_eq_self_iff.mpr hv
  have hsplit : splitSign v = (false, v) := by
    cases v with
    | nil => rfl
    | cons d v => exact splitSign_of_isDigit (hv d List.mem_cons_self)
  by_cases hspace : isSpace c = true
  · have hdrop : (c :: v).dropWhile isSpace = v := by
      rw [List.dropWhile_cons_of_pos hspace]
      cases v with
      | nil => rfl
      | cons d v =>
        exact List.dropWhile_cons_of_neg
          (by simp [not_isSpace_of_isDigit (hv d List.mem_cons_self)])
    obtain ⟨hne, -, hn⟩ := (stoi_eq (by rw [hdrop, hsplit])).mp h
    rw [htake] at hne hn
    exact ⟨hne, Or.inl hn⟩
  · have hdrop : (c :: v).dropWhile isSpace = c :: v := List.dropWhile_cons_of_neg hspace
    by_cases hminus : c = ch '-'
    · obtain ⟨hne, -, hn⟩ := (stoi_eq (by rw [hdrop, splitSign, if_pos hminus])).mp h
      rw [htake] at hne hn
      exact ⟨hne, Or.inr hn⟩
    by_cases hplus : c = ch '+'
    · obtain ⟨hne, -, hn⟩ :=
        (stoi_eq (by rw [hdrop, splitSign, if_neg hminus, if_pos hplus])).mp h
      rw [htake] at hne hn
      exact ⟨hne, Or.inl hn⟩
    · obtain ⟨hne, -, -⟩ :=
        (stoi_eq (by rw [hdrop, splitSign, if_neg hminus, if_neg hplus])).mp h
      rw [List.takeWhile_cons_of_neg (by simp [hc])] at hne
      exact absurd rfl hne
end DGDB
