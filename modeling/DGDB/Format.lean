import Mathlib
import DGDB.Widths

/-!
# The formats of the messages

What a string has to look like for a decoder to end normally, without the offsets at which the
decoder works: a field is a relation between the text in front of it, its value and the text behind
it. Every decoder reads exactly its format, whatever the bytes are.
-/

namespace DGDB

/-! ## Fields of a text -/

/-- The text begins with the value, and the second text is what follows it. -/
abbrev Format (α : Type) := Str → α → Str → Prop

namespace Format

/-- A number in `w` characters, or in those that are left. -/
def number (w : ℕ) : Format ℤ := fun r n r' => Number (r.take w) n ∧ r' = r.drop w

/-- A length in `w` characters and then that many bytes, or those that are left. -/
def text (w : ℕ) : Format Str := fun r x r' =>
  ∃ n r₁, number w r n r₁ ∧ x = r₁.take (toSizeT n) ∧ r' = r₁.drop (toSizeT n)

/-- One character, the terminator at the end of the text. -/
def character : Format UInt8 := fun r c r' => c = r.headD 0 ∧ r' = r.tail

/-- A key and a value. -/
def keyValue : Format Attribute := fun r a r' =>
  ∃ r₁, text 3 r a.key r₁ ∧ text 3 r₁ a.value r' ∧ a.node_name = []

/-- A key, an operator of the enumeration, a value and a flag. -/
def condition : Format Condition := fun r c r' =>
  ∃ op is_or r₁ r₂ r₃, text 3 r c.key r₁ ∧ character r₁ op r₂ ∧ signedChar op - 48 = c.op.toNat ∧
    text 3 r₂ c.value r₃ ∧ character r₃ is_or r' ∧ c.is_or = decide (signedChar is_or - 48 ≠ 0)

/-- An address whose port, the text behind the first colon or all of it, is a number. -/
def host : Format Host := fun r h r' =>
  ∃ info port, text 2 r info r' ∧
    Number (info.drop (toSizeT (findChar (ch ':') info + 1))) port ∧
    h = ⟨info.take (toSizeT (findChar (ch ':') info)), UInt16.ofInt port⟩

section Lists

variable {α : Type}

/-- The fields of a list, one behind the other. -/
def repeated (F : Format α) : Str → List α → Str → Prop
  | r, [], r' => r' = r
  | r, x :: xs, r' => ∃ r₁, F r x r₁ ∧ repeated F r₁ xs r'

/-- As many fields as the text `count` says. -/
def counted (F : Format α) (count : Str) : Format (List α) := fun r xs r' =>
  Number count xs.length ∧ repeated F r xs r'

end Lists

/-- A field that is there only when `present` says so. -/
def optional (present : Bool) : Format Str := fun r x r' =>
  if present then text 3 r x r' else x = [] ∧ r' = r

/-- The host list of a `C` or a `D`. -/
def hosts : Format (List Host) := fun r hs r' => counted host (r.take 1) (r.drop 1) hs r'

/-- A length in three digits, the name of that length and `k` more characters. -/
def named (k : ℕ) : Format (Str × Str) := fun r x r' =>
  ∃ t, r = t ++ (x.1 ++ x.2 ++ r') ∧ t.length = 3 ∧ Number t x.1.length ∧ x.2.length = k

section Readers

variable {α : Type} {p : Str} {s : ℤ}

/-- Behind the text `p`, which it leaves alone, the reader `take` reads the format `F`. -/
def Behind (p : Str) (take : Str → Result (α × Str)) (F : Format α) : Prop :=
  ∀ r x b, take (p ++ r) = .ok (x, b) ↔ ∃ r', b = p ++ r' ∧ F r x r'

namespace Behind

variable {take : Str → Result (α × Str)} {F : Format α} {r r' b : Str} {x : α}

theorem ok (h : Behind p take F) (hok : take (p ++ r) = .ok (x, b)) :
    ∃ r', b = p ++ r' ∧ F r x r' := (h r x b).mp hok

theorem take_ok (h : Behind p take F) (hF : F r x r') : take (p ++ r) = .ok (x, p ++ r') :=
  (h r x (p ++ r')).mpr ⟨r', rfl, hF⟩

end Behind

theorem erase_behind {r : Str} {n : ℤ} (hs : s = p.length) (hp : p.length < 2 ^ 64) :
    erase (p ++ r) s n = .ok (p ++ r.drop (toSizeT n)) := by
  subst hs
  simp [erase, toSizeT_natCast hp, pure, Except.pure]

theorem charAt_behind {r : Str} (hs : s = p.length) (hp : p.length < 2 ^ 64) :
    charAt (p ++ r) s = .ok (r.headD 0) := by
  subst hs
  cases r with
  | nil => simp [charAt, toSizeT_natCast hp, pure, Except.pure]
  | cons c r => exact charAt_append rfl hp

theorem behind_number {w : ℤ} {k : ℕ} (hs : s = p.length) (hp : p.length < 2 ^ 64)
    (hw : toSizeT w = k) : Behind p (takeNumber w s) (number k) := by
  intro r n b
  unfold takeNumber
  rw [substr_behind hs hp, ok_bind, hw]
  constructor
  · intro h
    obtain ⟨v, hv, h⟩ := bind_eq_ok.mp h
    rw [erase_behind hs hp, ok_bind, hw] at h
    cases h
    exact ⟨_, rfl, stoi_eq_ok_iff.mp hv, rfl⟩
  · rintro ⟨r', rfl, hn, rfl⟩
    rw [stoi_eq_ok_iff.mpr hn, ok_bind, erase_behind hs hp, ok_bind, hw]
    rfl

theorem behind_text {w : ℤ} {k : ℕ} (hs : s = p.length) (hp : p.length < 2 ^ 64)
    (hw : toSizeT w = k) : Behind p (takeSized w s) (text k) := by
  intro r x b
  unfold takeSized
  constructor
  · intro h
    obtain ⟨⟨n, b₁⟩, hn, h⟩ := bind_eq_ok.mp h
    obtain ⟨r₁, rfl, hn'⟩ := (behind_number hs hp hw).ok hn
    simp only at h
    rw [substr_behind hs hp, ok_bind, erase_behind hs hp, ok_bind] at h
    cases h
    exact ⟨_, rfl, n, r₁, hn', rfl, rfl⟩
  · rintro ⟨r', rfl, n, r₁, hn, rfl, rfl⟩
    rw [(behind_number hs hp hw).take_ok hn, ok_bind]
    simp only
    rw [substr_behind hs hp, ok_bind, erase_behind hs hp, ok_bind]
    rfl

theorem behind_character (hs : s = p.length) (hp : p.length < 2 ^ 64) :
    Behind p (takeChar s) character := by
  intro r c b
  unfold takeChar
  rw [charAt_behind hs hp, ok_bind, erase_behind hs hp, ok_bind]
  have htail : r.drop (toSizeT 1) = r.tail := List.drop_one
  rw [htail]
  constructor
  · intro h
    cases h
    exact ⟨r.tail, rfl, rfl, rfl⟩
  · rintro ⟨r', rfl, rfl, rfl⟩
    rfl

theorem behind_keyValue (hs : s = p.length) (hp : p.length < 2 ^ 64) :
    Behind p (takeAttribute s) keyValue := by
  intro r a b
  unfold takeAttribute
  have htext := behind_text (w := 3) (k := 3) hs hp rfl
  constructor
  · intro h
    obtain ⟨⟨key, b₁⟩, hkey, h⟩ := bind_eq_ok.mp h
    obtain ⟨⟨value, b₂⟩, hvalue, h⟩ := bind_eq_ok.mp h
    obtain ⟨r₁, rfl, hkey'⟩ := htext.ok hkey
    obtain ⟨r₂, rfl, hvalue'⟩ := htext.ok hvalue
    cases h
    exact ⟨r₂, rfl, r₁, hkey', hvalue', rfl⟩
  · rintro ⟨r₂, rfl, r₁, hkey, hvalue, hname⟩
    rw [htext.take_ok hkey, ok_bind]
    simp only
    rw [htext.take_ok hvalue, ok_bind, ← hname]
    rfl

theorem operator_ofInt_iff {i : ℤ} {op : Operator} : Operator.ofInt i = .ok op ↔ i = op.toNat := by
  constructor
  · intro h
    unfold Operator.ofInt at h
    split_ifs at h with h0 h1 h2 h3
    all_goals
      cases h
      assumption
  · rintro rfl
    exact Operator.ofInt_toNat op

theorem behind_condition (hs : s = p.length) (hp : p.length < 2 ^ 64) :
    Behind p (takeCondition s) condition := by
  intro r c b
  unfold takeCondition
  have htext := behind_text (w := 3) (k := 3) hs hp rfl
  have hchar := behind_character hs hp
  constructor
  · intro h
    obtain ⟨⟨key, b₁⟩, hkey, h⟩ := bind_eq_ok.mp h
    obtain ⟨⟨op, b₂⟩, hop, h⟩ := bind_eq_ok.mp h
    obtain ⟨op', hop', h⟩ := bind_eq_ok.mp h
    obtain ⟨⟨value, b₃⟩, hvalue, h⟩ := bind_eq_ok.mp h
    obtain ⟨⟨is_or, b₄⟩, hor, h⟩ := bind_eq_ok.mp h
    obtain ⟨r₁, rfl, hkey'⟩ := htext.ok hkey
    obtain ⟨r₂, rfl, hopchar⟩ := hchar.ok hop
    obtain ⟨r₃, rfl, hvalue'⟩ := htext.ok hvalue
    obtain ⟨r₄, rfl, hor'⟩ := hchar.ok hor
    cases h
    refine ⟨r₄, rfl, op, is_or, r₁, r₂, r₃, hkey', hopchar, operator_ofInt_iff.mp hop', hvalue',
      hor', ?_⟩
    dsimp only
  · rintro ⟨r₄, rfl, op, is_or, r₁, r₂, r₃, hkey, hop, hop', hvalue, hor, hflag⟩
    rw [htext.take_ok hkey, ok_bind]
    simp only
    rw [hchar.take_ok hop, ok_bind]
    simp only
    rw [operator_ofInt_iff.mpr hop', ok_bind, htext.take_ok hvalue, ok_bind]
    simp only
    rw [hchar.take_ok hor, ok_bind, ← hflag]
    rfl

theorem toSizeT_lt (i : ℤ) : toSizeT i < 2 ^ 64 := by
  unfold toSizeT
  omega

/-- The port is what follows the first colon; a text without one is all port. -/
theorem stringToHost_iff {info : Str} {h : Host} (hlen : info.length < 2 ^ 64) :
    stringToHost info = .ok h ↔ ∃ port,
      Number (info.drop (toSizeT (findChar (ch ':') info + 1))) port ∧
      h = ⟨info.take (toSizeT (findChar (ch ':') info)), UInt16.ofInt port⟩ := by
  have hip : substr info 0 (findChar (ch ':') info) =
      .ok (info.take (toSizeT (findChar (ch ':') info))) :=
    substr_behind (p := []) rfl (by simp)
  unfold stringToHost
  simp only
  rw [hip, ok_bind]
  generalize hpos : toSizeT (findChar (ch ':') info + 1) = k
  have hrest : (info.drop k).take (toSizeT (2 ^ 64 - 1)) = info.drop k := by
    have hmax : toSizeT (2 ^ 64 - 1) = 2 ^ 64 - 1 := rfl
    refine List.take_of_length_le ?_
    rw [hmax, List.length_drop]
    omega
  constructor
  · intro h'
    obtain ⟨t, ht, h'⟩ := bind_eq_ok.mp h'
    obtain ⟨port, hport, h'⟩ := bind_eq_ok.mp h'
    cases h'
    obtain ⟨-, rfl⟩ := substr_ok ht
    rw [hpos, hrest] at hport
    exact ⟨port, stoi_eq_ok_iff.mp hport, rfl⟩
  · rintro ⟨port, hport, rfl⟩
    have hport' := stoi_eq_ok_iff.mpr hport
    have hle : k ≤ info.length := by
      by_contra hlt
      rw [List.drop_eq_nil_of_le (by omega), stoi_nil] at hport'
      cases hport'
    unfold substr
    rw [hpos, if_neg (by omega), hrest, pure_eq_ok, ok_bind, hport', ok_bind]
    rfl

theorem behind_host (hs : s = p.length) (hp : p.length < 2 ^ 64) :
    Behind p (takeHost s) host := by
  intro r h b
  unfold takeHost
  have htext := behind_text (w := 2) (k := 2) hs hp rfl
  have hinfo : ∀ {info r' : Str}, text 2 r info r' → info.length < 2 ^ 64 := by
    rintro info r' ⟨n, r₁, -, rfl, -⟩
    exact lt_of_le_of_lt (List.length_take_le _ _) (toSizeT_lt n)
  constructor
  · intro h'
    obtain ⟨⟨info, b₁⟩, hrepo, h'⟩ := bind_eq_ok.mp h'
    obtain ⟨h₁, hhost, h'⟩ := bind_eq_ok.mp h'
    obtain ⟨r', rfl, hrepo'⟩ := htext.ok hrepo
    obtain ⟨port, hport, rfl⟩ := (stringToHost_iff (hinfo hrepo')).mp hhost
    cases h'
    exact ⟨r', rfl, info, port, hrepo', hport, rfl⟩
  · rintro ⟨r', rfl, info, port, hrepo, hport, rfl⟩
    rw [htext.take_ok hrepo, ok_bind]
    simp only
    rw [(stringToHost_iff (hinfo hrepo)).mpr ⟨port, hport, rfl⟩, ok_bind]
    rfl

theorem takeTurns_behind {take : Str → Result (α × Str)} {F : Format α} (h : Behind p take F)
    {xs : List α} {r b : Str} {n : ℕ} : takeTurns take n (p ++ r) = .ok (xs, b) ↔
      xs.length = n ∧ ∃ r', b = p ++ r' ∧ repeated F r xs r' := by
  induction n generalizing r xs b with
  | zero =>
    rw [takeTurns]
    constructor
    · intro h'
      cases h'
      exact ⟨rfl, r, rfl, rfl⟩
    · rintro ⟨hn, r', rfl, hF⟩
      rw [List.length_eq_zero_iff] at hn
      subst hn
      rw [show r' = r from hF]
      rfl
  | succ n ih =>
    rw [takeTurns]
    constructor
    · intro h'
      obtain ⟨⟨x, b₁⟩, hx, h'⟩ := bind_eq_ok.mp h'
      obtain ⟨⟨ys, b₂⟩, hys, h'⟩ := bind_eq_ok.mp h'
      obtain ⟨r₁, rfl, hF⟩ := h.ok hx
      obtain ⟨hn, r', rfl, hrest⟩ := ih.mp hys
      cases h'
      exact ⟨congrArg Nat.succ hn, r', rfl, r₁, hF, hrest⟩
    · rintro ⟨hn, r', rfl, hF⟩
      cases xs with
      | nil => cases hn
      | cons x xs =>
        obtain ⟨r₁, hx, hrest⟩ := hF
        rw [h.take_ok hx, ok_bind]
        simp only
        rw [ih.mpr ⟨Nat.succ.inj hn, r', rfl, hrest⟩, ok_bind]
        rfl

theorem takeMany_behind {take : Str → Result (α × Str)} {F : Format α} (h : Behind p take F)
    {xs : List α} {r b : Str} {n : ℤ} (hn : 0 ≤ n) :
    takeMany take n (p ++ r) = .ok (xs, b) ↔
      (xs.length : ℤ) = n ∧ ∃ r', b = p ++ r' ∧ repeated F r xs r' := by
  unfold takeMany
  rw [if_neg (by omega), takeTurns_behind h]
  constructor
  · rintro ⟨hlen, hrest⟩
    exact ⟨by omega, hrest⟩
  · rintro ⟨hlen, hrest⟩
    exact ⟨by omega, hrest⟩

/-- The count `'0'` of a `C` is not read by `stoi`, and the loop would do nothing. -/
theorem takeCounted_eq (take : Str → Result (α × Str)) (c : UInt8) (b : Str) :
    takeCounted take c b = stoiChar c >>= fun n => takeMany take n b := by
  unfold takeCounted
  split_ifs with hzero
  · have h0 : stoiChar c = .ok 0 := by
      rw [hzero]
      rfl
    rw [h0, ok_bind]
    rfl
  · rfl

theorem behind_counted {take : Str → Result (α × Str)} {F : Format α} (h : Behind p take F)
    (c : UInt8) : Behind p (takeCounted take c) (counted F [c]) := by
  intro r xs b
  rw [takeCounted_eq]
  constructor
  · intro h'
    obtain ⟨n, hn, h'⟩ := bind_eq_ok.mp h'
    obtain ⟨hlen, r', rfl, hrest⟩ := (takeMany_behind h (stoiChar_range hn).1).mp h'
    refine ⟨r', rfl, ?_, hrest⟩
    rw [hlen]
    exact stoi_eq_ok_iff.mp hn
  · rintro ⟨r', rfl, hn, hrest⟩
    have hn' : stoiChar c = .ok (xs.length : ℤ) := stoi_eq_ok_iff.mpr hn
    rw [hn', ok_bind]
    exact (takeMany_behind h (by omega)).mpr ⟨rfl, r', rfl, hrest⟩

theorem behind_optional (hs : s = p.length) (hp : p.length < 2 ^ 64) (present : Bool) :
    Behind p (takeOptional present s) (optional present) := by
  intro r x b
  cases present with
  | true => exact behind_text (w := 3) (k := 3) hs hp rfl r x b
  | false =>
    rw [takeOptional_false]
    constructor
    · intro h
      cases h
      exact ⟨r, rfl, rfl, rfl⟩
    · rintro ⟨r', rfl, rfl, rfl⟩
      rfl

theorem Number.nonneg {t : Str} {n : ℤ} (h : Number t n) (ht : t.length ≤ 1) : 0 ≤ n := by
  have hn := stoi_eq_ok_iff.mpr h
  cases t with
  | nil => cases hn
  | cons c t =>
    have hnil : t = [] := List.length_eq_zero_iff.mp (by simpa using ht)
    subst hnil
    exact (stoiChar_range hn).1

theorem behind_hosts (hs : s = p.length) (hp : p.length < 2 ^ 64) :
    Behind p (takeHosts s) hosts := by
  intro r xs b
  unfold takeHosts
  have hnumber := behind_number (w := 1) (k := 1) hs hp rfl
  have hhost := behind_host hs hp
  constructor
  · intro h
    obtain ⟨⟨n, b₁⟩, hn, h⟩ := bind_eq_ok.mp h
    obtain ⟨r₁, rfl, hcount, rfl⟩ := hnumber.ok hn
    obtain ⟨hlength, r', rfl, hrest⟩ :=
      (takeMany_behind hhost (Number.nonneg hcount (List.length_take_le _ _))).mp h
    exact ⟨r', rfl, by rwa [hlength], hrest⟩
  · rintro ⟨r', rfl, hcount, hrest⟩
    rw [hnumber.take_ok ⟨hcount, rfl⟩, ok_bind]
    exact (takeMany_behind hhost (by omega)).mpr ⟨rfl, r', rfl, hrest⟩

theorem erase_tail (b : Str) : erase b 0 1 = .ok b.tail := by
  cases b with
  | nil => rfl
  | cons c b => exact erase_head c b

namespace named

variable {k : ℕ} {r r' : Str} {x : Str × Str}

theorem short (h : named k r x r') : ShortText x.1 := by
  obtain ⟨t, -, ht, hn, -⟩ := h
  have := stoi_lt (k := 3) (stoi_eq_ok_iff.mpr hn) ht.le
  unfold ShortText
  omega

theorem length_header (h : named k r x r') : x.2.length = k := by
  obtain ⟨t, -, -, -, hheader⟩ := h
  exact hheader

theorem takeNumber_ok (h : named k r x r') :
    takeNumber 3 0 r = .ok ((x.1.length : ℤ), x.1 ++ x.2 ++ r') := by
  obtain ⟨t, hr, ht, hn, -⟩ := h
  have hfield : number 3 r x.1.length (x.1 ++ x.2 ++ r') := by
    rw [hr]
    exact ⟨by rwa [List.take_left' ht], (List.drop_left' ht).symm⟩
  exact (behind_number (p := []) (w := 3) (k := 3) rfl (by simp) rfl).take_ok hfield

theorem of_takeNumber {n : ℤ} {b : Str} (h : takeNumber 3 0 r = .ok (n, b)) (h0 : 0 ≤ n)
    (hk : k ≤ 5) (hleft : Left (n + k) b) :
    ∃ name header r', b = name ++ header ++ r' ∧ n = name.length ∧ named k r (name, header) r' := by
  obtain ⟨-, rfl, hn, rfl⟩ :=
    (behind_number (p := []) (w := 3) (k := 3) rfl (by simp) rfl).ok h
  have hrange := hn.1
  unfold Left at hleft
  have hsize : toSizeT (n + k) = n.toNat + k := by
    unfold toSizeT
    omega
  rw [hsize, List.length_drop] at hleft
  have hname : ((r.drop 3).take n.toNat).length = n.toNat := by
    rw [List.length_take, List.length_drop]
    omega
  refine ⟨(r.drop 3).take n.toNat, ((r.drop 3).drop n.toNat).take k,
    ((r.drop 3).drop n.toNat).drop k, ?_, by omega, r.take 3, ?_, ?_, ?_, ?_⟩
  · rw [List.append_assoc, List.take_append_drop, List.take_append_drop]
  · simp only
    rw [List.append_assoc, List.take_append_drop, List.take_append_drop, List.take_append_drop]
  · rw [List.length_take]
    omega
  · simp only
    rwa [hname, Int.toNat_of_nonneg h0]
  · simp only [List.length_take, List.length_drop]
    omega

end named

end Readers

end Format

/-! ## Messages -/

section Messages

open Format

/-- A `C` up to the request id; `r` is left behind it for the host list. -/
def NodeFormat (s_buffer : Str) (m : NodeMsg) (header r : Str) : Prop :=
  ∃ c₁ c₂ r₁ r₂ r₃, header = [c₁, c₂] ∧ named 2 s_buffer.tail (m.nameA, header) r₁ ∧
    counted (text 3) [c₁] r₁ m.relations r₂ ∧ counted keyValue [c₂] r₂ m.attributes r₃ ∧
    number 3 r₃ m.request_id r ∧ m.master_repos = []

def QueryFormat (s_buffer : Str) (m : QueryMsg) (header r : Str) : Prop :=
  ∃ d l a c₁ c₂ leaf attr r₁ r₂, header = [d, l, a, c₁, c₂] ∧
    named 5 s_buffer.tail (m.nameA, header) r₁ ∧ Number [d] m.depth ∧
    Number [l] leaf ∧ m.leaf = decide (leaf ≠ 0) ∧ Number [a] attr ∧ m.attr = decide (attr ≠ 0) ∧
    counted condition [c₁, c₂] r₁ m.conditions r₂ ∧ number 3 r₂ m.request_id r

def UpdateFormat (s_buffer : Str) (m : UpdateMsg) (r : Str) : Prop :=
  ∃ flag r₁ r₂ r₃ r₄, character s_buffer.tail flag r₁ ∧
    m.is_node = decide (signedChar flag - 48 ≠ 0) ∧ named 0 r₁ (m.nameA, []) r₂ ∧
    optional (!m.is_node) r₂ m.attr r₃ ∧ text 3 r₃ m.set_value r₄ ∧ number 3 r₄ m.request_id r

/-- A `D` up to the request id; `r` is left behind it for the host list. -/
def DeleteFormat (s_buffer : Str) (m : DeleteMsg) (r : Str) : Prop :=
  ∃ flag r₁ r₂ r₃, character s_buffer.tail flag r₁ ∧ m.object = signedChar flag - 48 ∧
    named 0 r₁ (m.nameA, []) r₂ ∧ optional (decide (0 < m.object)) r₂ m.attr_or_rel r₃ ∧
    number 3 r₃ m.request_id r ∧ m.master_repos = []

def ResponseFormat (s_buffer : Str) (m : ResponseMsg) : Prop :=
  ∃ r₁ r₂, text 3 s_buffer.tail m.message r₁ ∧ number 3 r₁ m.request_id r₂

def InfoFormat (s_buffer : Str) (m : InfoMsg) : Prop :=
  ∃ c₁ c₂ valid_node r₁ r₂ r₃ r₄ r₅, named 2 s_buffer.tail (m.nameA, [c₁, c₂]) r₁ ∧
    counted (text 3) [c₁] r₁ m.relations r₂ ∧ counted keyValue [c₂] r₂ m.attributes r₃ ∧
    number 3 r₃ m.request_id r₄ ∧ number 1 r₄ valid_node r₅ ∧
    m.valid_node = decide (valid_node ≠ 0)

end Messages

/-! ## Every decoder reads its format -/

section Decoders

open Format

variable {s_buffer : Str}

theorem substr_named {k : ℕ} {r r' name header : Str} (h : named k r (name, header) r') (b : Str)
    {n : ℤ} (hn : n = name.length) : substr (name ++ header ++ b) 0 n = .ok name := by
  rw [List.append_assoc]
  exact substr_name hn h.short

theorem length_named {k : ℕ} {r r' name header : Str} (h : named k r (name, header) r')
    (hk : k ≤ 5) : (name ++ header).length = name.length + k ∧
      (name ++ header).length < 2 ^ 64 := by
  have hname : name.length ≤ 999 := h.short
  obtain ⟨t, -, -, -, hheader⟩ := h
  rw [List.length_append]
  simp only at hheader
  omega

theorem length_eq_five {header : Str} (h : header.length = 5) :
    ∃ e₀ e₁ e₂ e₃ e₄, header = [e₀, e₁, e₂, e₃, e₄] := by
  match header, h with
  | [e₀, e₁, e₂, e₃, e₄], _ => exact ⟨e₀, e₁, e₂, e₃, e₄, rfl⟩

theorem readNode_iff (hlen : s_buffer.length < 2 ^ 63) {d : Decoded NodeMsg} :
    readNode s_buffer = .ok d ↔ ∃ header r, NodeFormat s_buffer d.fields header r ∧
      d.s = (d.fields.nameA ++ header).length ∧ d.s_buffer = d.fields.nameA ++ header ++ r := by
  constructor
  · intro h
    obtain ⟨b, b₁, b₂, b₃, c₁, c₂, hb, hname, hc₁, hrel, hc₂, hattr, hid, hsub, hrepos⟩ :=
      readNode_ok h
    have hb' := length_of_erase_head hlen hb
    obtain ⟨-, hlt, hlow, hhigh⟩ := takeNumber_ok (by decide) hname
    have h0 := nonneg_of_le (by omega) hlow (charAt_ok hc₁)
    obtain ⟨-, hle₂, hr⟩ := reads_sized.counted (b := b₁) (by omega) hrel
    obtain ⟨-, -, ha⟩ := reads_attribute.counted (b := b₂) (by omega) hattr
    have hleft := (hr (ha (takeNumber_ok (by decide) hid).1).1).1
    rw [erase_tail] at hb
    cases hb
    obtain ⟨name, header, r₁, rfl, hs, hnamed⟩ :=
      named.of_takeNumber (k := 2) hname h0 (by norm_num) (by simpa using hleft)
    obtain ⟨hlength, hp⟩ := length_named hnamed (by norm_num)
    have hs' : d.s = (name ++ header).length := by omega
    have hn : name.length ≤ 999 := hnamed.short
    obtain ⟨h₁, h₂, rfl⟩ := List.length_eq_two.mp hnamed.length_header
    -- the two counts are the characters behind the name
    rw [charAt_header (i := 0) rfl (by omega) hn (by norm_num)] at hc₁
    cases hc₁
    obtain ⟨r₂, rfl, hrel'⟩ := (behind_counted (behind_text hs' hp rfl) _).ok hrel
    rw [charAt_header (i := 1) rfl (by omega) hn (by norm_num)] at hc₂
    cases hc₂
    obtain ⟨r₃, rfl, hattr'⟩ := (behind_counted (behind_keyValue hs' hp) _).ok hattr
    obtain ⟨r, hbuffer, hid'⟩ := (behind_number hs' hp rfl).ok hid
    rw [hbuffer, substr_named hnamed r hs] at hsub
    have hnameA : name = d.fields.nameA := Except.ok.inj hsub
    rw [← hnameA]
    refine ⟨[c₁, c₂], r, ⟨c₁, c₂, r₁, r₂, r₃, rfl, ?_, hrel', hattr', hid', hrepos⟩, hs', hbuffer⟩
    rwa [← hnameA]
  · rintro ⟨header, r, ⟨c₁, c₂, r₁, r₂, r₃, rfl, hnamed, hrel, hattr, hid, hrepos⟩, hs, hbuffer⟩
    obtain ⟨hlength, hp⟩ := length_named hnamed (by norm_num)
    obtain ⟨⟨nameA, attributes, relations, request_id, master_repos⟩, s, b⟩ := d
    dsimp only at hnamed hrel hattr hid hrepos hs hbuffer hlength hp
    subst hrepos hbuffer
    have hn : nameA.length ≤ 999 := hnamed.short
    have hs' : (nameA.length : ℤ) + 2 = (nameA ++ [c₁, c₂]).length := by
      rw [hlength]
      rfl
    have hrel' := (behind_counted (behind_text (w := 3) hs' hp rfl) c₁).take_ok hrel
    have hattr' := (behind_counted (behind_keyValue hs' hp) c₂).take_ok hattr
    unfold readNode
    rw [erase_tail, ok_bind, hnamed.takeNumber_ok, ok_bind]
    simp only
    rw [charAt_header (i := 0) rfl (by push_cast; ring) hn (by norm_num), ok_bind, hrel', ok_bind]
    simp only
    rw [charAt_header (i := 1) rfl (by push_cast; ring) hn (by norm_num), ok_bind, hattr', ok_bind]
    simp only
    rw [(behind_number (w := 3) hs' hp rfl).take_ok hid, ok_bind]
    simp only
    rw [substr_named hnamed r (by omega), ok_bind, hs']
    rw [hs]
    rfl

theorem readQuery_iff (hlen : s_buffer.length < 2 ^ 63) {d : Decoded QueryMsg} :
    readQuery s_buffer = .ok d ↔ ∃ header r, QueryFormat s_buffer d.fields header r ∧
      d.s = (d.fields.nameA ++ header).length ∧ d.s_buffer = d.fields.nameA ++ header ++ r := by
  constructor
  · intro h
    obtain ⟨b, b₁, b₂, c₀, c₁, c₂, cnt, hb, hname, hc₀, hdepth, hcnt, hconditions, hid, hsub, l, a,
      leaf, attr, hl, hleaf, ha, hattr, hc₁, hc₂, hleaf', hattr'⟩ := readQuery_ok h
    have hb' := length_of_erase_head hlen hb
    obtain ⟨-, hlt, hlow, hhigh⟩ := takeNumber_ok (by decide) hname
    have h0 := nonneg_of_le (by omega) hlow (charAt_ok hc₀)
    obtain ⟨hcount, -, hcs⟩ := reads_condition.many (b := b₁) (by omega) hconditions
    have hleft := (hcs (takeNumber_ok (by decide) hid).1).1
    rw [erase_tail] at hb
    cases hb
    obtain ⟨name, header, r₁, rfl, hs, hnamed⟩ :=
      named.of_takeNumber (k := 5) hname h0 le_rfl (by simpa using hleft)
    obtain ⟨hlength, hp⟩ := length_named hnamed le_rfl
    have hs' : d.s = (name ++ header).length := by omega
    have hn : name.length ≤ 999 := hnamed.short
    obtain ⟨e₀, e₁, e₂, e₃, e₄, rfl⟩ := length_eq_five hnamed.length_header
    rw [charAt_header (i := 0) rfl (by omega) hn (by norm_num)] at hc₀
    rw [charAt_header (i := 1) rfl (by omega) hn (by norm_num)] at hl
    rw [charAt_header (i := 2) rfl (by omega) hn (by norm_num)] at ha
    rw [charAt_header (i := 3) rfl (by omega) hn (by norm_num)] at hc₁
    rw [charAt_header (i := 4) rfl (by omega) hn (by norm_num)] at hc₂
    cases hc₀
    cases hl
    cases ha
    cases hc₁
    cases hc₂
    obtain ⟨-, r₂, rfl, hconditions'⟩ :=
      (takeMany_behind (behind_condition hs' hp) (by omega)).mp hconditions
    obtain ⟨r, hbuffer, hid'⟩ := (behind_number hs' hp rfl).ok hid
    rw [hbuffer, substr_named hnamed r hs] at hsub
    have hnameA : name = d.fields.nameA := Except.ok.inj hsub
    rw [← hcount] at hcnt
    rw [← hnameA]
    refine ⟨_, r, ⟨c₀, l, a, c₁, c₂, leaf, attr, r₁, r₂, rfl, ?_, stoi_eq_ok_iff.mp hdepth,
      stoi_eq_ok_iff.mp hleaf, hleaf', stoi_eq_ok_iff.mp hattr, hattr',
      ⟨stoi_eq_ok_iff.mp hcnt, hconditions'⟩, hid'⟩, hs', hbuffer⟩
    rwa [← hnameA]
  · rintro ⟨header, r, ⟨e₀, e₁, e₂, e₃, e₄, leaf, attr, r₁, r₂, rfl, hnamed, hdepth, hleaf, hleaf',
      hattr, hattr', ⟨hcnt, hconditions⟩, hid⟩, hs, hbuffer⟩
    obtain ⟨hlength, hp⟩ := length_named hnamed le_rfl
    obtain ⟨⟨nameA, depth, leaf', attr', conditions, request_id⟩, s, b⟩ := d
    dsimp only at *
    subst hleaf' hattr' hbuffer
    have hn : nameA.length ≤ 999 := hnamed.short
    have hs' : (nameA.length : ℤ) + 5 = (nameA ++ [e₀, e₁, e₂, e₃, e₄]).length := by
      rw [hlength]
      rfl
    have hconditions' := (takeMany_behind (behind_condition hs' hp) (by omega)).mpr
      ⟨rfl, r₂, rfl, hconditions⟩
    unfold readQuery
    rw [erase_tail, ok_bind, hnamed.takeNumber_ok, ok_bind]
    simp only
    rw [charAt_header (i := 0) rfl (by push_cast; ring) hn (by norm_num), ok_bind,
      show stoiChar e₀ = .ok depth from stoi_eq_ok_iff.mpr hdepth, ok_bind,
      charAt_header (i := 1) rfl (by push_cast; ring) hn (by norm_num), ok_bind,
      show stoiChar e₁ = .ok leaf from stoi_eq_ok_iff.mpr hleaf, ok_bind,
      charAt_header (i := 2) rfl (by push_cast; ring) hn (by norm_num), ok_bind,
      show stoiChar e₂ = .ok attr from stoi_eq_ok_iff.mpr hattr, ok_bind,
      charAt_header (i := 3) rfl (by push_cast; ring) hn (by norm_num), ok_bind,
      charAt_header (i := 4) rfl (by push_cast; ring) hn (by norm_num), ok_bind,
      stoi_eq_ok_iff.mpr hcnt, ok_bind, hconditions', ok_bind]
    simp only
    rw [(behind_number (w := 3) hs' hp rfl).take_ok hid, ok_bind]
    simp only
    rw [substr_named hnamed r (by omega), ok_bind, hs', hs]
    rfl

theorem named_of_takeNumber_zero {n : ℤ} {b r : Str} (h : takeNumber 3 0 r = .ok (n, b))
    (h0 : 0 ≤ n) (hleft : Left n b) :
    ∃ name r', b = name ++ r' ∧ n = name.length ∧ named 0 r (name, []) r' ∧
      name.length < 2 ^ 64 := by
  obtain ⟨name, header, r', rfl, hn, hnamed⟩ :=
    named.of_takeNumber (k := 0) h h0 (by norm_num) (by simpa using hleft)
  have hnil : header = [] := List.length_eq_zero_iff.mp hnamed.length_header
  subst hnil
  have hp := (length_named hnamed (by norm_num)).2
  rw [List.append_nil] at hp
  exact ⟨name, r', by rw [List.append_nil], hn, hnamed, hp⟩

theorem readUpdate_iff (hlen : s_buffer.length < 2 ^ 63) {d : Decoded UpdateMsg} :
    readUpdate s_buffer = .ok d ↔ ∃ r, UpdateFormat s_buffer d.fields r ∧
      d.s = d.fields.nameA.length ∧ d.s_buffer = d.fields.nameA ++ r := by
  have hchar := behind_character (p := []) (s := 0) rfl (by simp)
  constructor
  · intro h
    obtain ⟨b, b₁, b₂, b₃, b₄, flag, hb, hflag, hname, hattr, hvalue, hid, hsub, hnode⟩ :=
      readUpdate_ok h
    have hb' := length_of_erase_head hlen hb
    have hle₁ := takeChar_ok hflag
    obtain ⟨-, hlt, hlow, hhigh⟩ := takeNumber_ok (by decide) hname
    obtain ⟨hle₃, ha⟩ := takeOptional_ok (b := b₂) (by omega) hattr
    have hleft₃ := (reads_sized b₃ _ b₄ (by omega) hvalue).1
    have h0 := nonneg_of_le (b := b₃) (by omega) hlow hleft₃.le
    rw [erase_tail] at hb
    cases hb
    obtain ⟨r₁, hr₁, hflag'⟩ := hchar.ok hflag
    rw [List.nil_append] at hr₁
    subst hr₁
    obtain ⟨name, r₂, rfl, hs, hnamed, hp⟩ := named_of_takeNumber_zero hname h0 (ha hleft₃).1
    obtain ⟨r₃, rfl, hattr'⟩ := (behind_optional hs hp _).ok hattr
    obtain ⟨r₄, rfl, hvalue'⟩ := (behind_text hs hp rfl).ok hvalue
    obtain ⟨r, hbuffer, hid'⟩ := (behind_number hs hp rfl).ok hid
    rw [hbuffer, substr_name hs hnamed.short] at hsub
    have hnameA : name = d.fields.nameA := Except.ok.inj hsub
    rw [← hnameA]
    refine ⟨r, ⟨flag, _, r₂, r₃, r₄, hflag', hnode, ?_, hattr', hvalue', hid'⟩, hs, hbuffer⟩
    rwa [← hnameA]
  · rintro ⟨r, ⟨flag, r₁, r₂, r₃, r₄, hflag, hnode, hnamed, hattr, hvalue, hid⟩, hs, hbuffer⟩
    have hp := (length_named hnamed (by norm_num)).2
    rw [List.append_nil] at hp
    have hname := hnamed.takeNumber_ok
    rw [List.append_nil] at hname
    have hattr' := (behind_optional rfl hp _).take_ok hattr
    have hvalue' := (behind_text (w := 3) rfl hp rfl).take_ok hvalue
    have hid' := (behind_number (w := 3) rfl hp rfl).take_ok hid
    have hflag' := hchar.take_ok hflag
    obtain ⟨⟨nameA, is_node, set_value, attr, request_id⟩, s, b⟩ := d
    dsimp only at *
    subst hs hbuffer
    unfold readUpdate
    rw [erase_tail, ok_bind]
    simp only [List.nil_append] at hflag'
    rw [hflag', ok_bind]
    simp only
    rw [← hnode, hname, ok_bind]
    simp only
    rw [hattr', ok_bind]
    simp only
    rw [hvalue', ok_bind]
    simp only
    rw [hid', ok_bind]
    simp only
    rw [substr_name rfl hnamed.short, ok_bind]
    rfl

theorem readDelete_iff (hlen : s_buffer.length < 2 ^ 63) {d : Decoded DeleteMsg} :
    readDelete s_buffer = .ok d ↔ ∃ r, DeleteFormat s_buffer d.fields r ∧
      d.s = d.fields.nameA.length ∧ d.s_buffer = d.fields.nameA ++ r := by
  have hchar := behind_character (p := []) (s := 0) rfl (by simp)
  constructor
  · intro h
    obtain ⟨b, b₁, b₂, b₃, flag, hb, hflag, hname, hattr, hid, hsub, hrepos, hobject⟩ :=
      readDelete_ok h
    have hb' := length_of_erase_head hlen hb
    have hle₁ := takeChar_ok hflag
    obtain ⟨-, hlt, hlow, hhigh⟩ := takeNumber_ok (by decide) hname
    obtain ⟨hle₃, ha⟩ := takeOptional_ok (b := b₂) (by omega) hattr
    have hleft₃ := (takeNumber_ok (by decide) hid).1
    have h0 := nonneg_of_le (b := b₃) (by omega) hlow hleft₃.le
    rw [erase_tail] at hb
    cases hb
    obtain ⟨r₁, hr₁, hflag'⟩ := hchar.ok hflag
    rw [List.nil_append] at hr₁
    subst hr₁
    obtain ⟨name, r₂, rfl, hs, hnamed, hp⟩ := named_of_takeNumber_zero hname h0 (ha hleft₃).1
    obtain ⟨r₃, rfl, hattr'⟩ := (behind_optional hs hp _).ok hattr
    obtain ⟨r, hbuffer, hid'⟩ := (behind_number hs hp rfl).ok hid
    rw [hbuffer, substr_name hs hnamed.short] at hsub
    have hnameA : name = d.fields.nameA := Except.ok.inj hsub
    rw [← hnameA]
    refine ⟨r, ⟨flag, _, r₂, r₃, hflag', hobject, ?_, hattr', hid', hrepos⟩, hs, hbuffer⟩
    rwa [← hnameA]
  · rintro ⟨r, ⟨flag, r₁, r₂, r₃, hflag, hobject, hnamed, hattr, hid, hrepos⟩, hs, hbuffer⟩
    have hp := (length_named hnamed (by norm_num)).2
    rw [List.append_nil] at hp
    have hname := hnamed.takeNumber_ok
    rw [List.append_nil] at hname
    have hattr' := (behind_optional rfl hp _).take_ok hattr
    have hid' := (behind_number (w := 3) rfl hp rfl).take_ok hid
    have hflag' := hchar.take_ok hflag
    obtain ⟨⟨nameA, object, attr_or_rel, request_id, master_repos⟩, s, b⟩ := d
    dsimp only at *
    subst hs hbuffer hrepos
    unfold readDelete
    rw [erase_tail, ok_bind]
    simp only [List.nil_append] at hflag'
    rw [hflag', ok_bind]
    simp only
    rw [← hobject, hname, ok_bind]
    simp only
    rw [hattr', ok_bind]
    simp only
    rw [hid', ok_bind]
    simp only
    rw [substr_name rfl hnamed.short, ok_bind]
    rfl

theorem readResponse_iff {m : ResponseMsg} :
    readResponse s_buffer = .ok m ↔ ResponseFormat s_buffer m := by
  have htext := behind_text (p := []) (s := 0) (w := 3) rfl (by simp) rfl
  constructor
  · intro h
    obtain ⟨b, b₁, t, hb, hmessage, ht, hid⟩ := readResponse_ok h
    rw [erase_tail] at hb
    cases hb
    obtain ⟨r₁, hr₁, hmessage'⟩ := htext.ok hmessage
    rw [List.nil_append] at hr₁
    subst hr₁
    obtain ⟨-, rfl⟩ := substr_ok ht
    exact ⟨_, _, hmessage', stoi_eq_ok_iff.mp hid, rfl⟩
  · rintro ⟨r₁, r₂, hmessage, hid, rfl⟩
    have hmessage' := htext.take_ok hmessage
    have hsub : substr r₁ 0 3 = .ok (r₁.take 3) := substr_behind (p := []) rfl (by simp)
    unfold readResponse
    rw [erase_tail, ok_bind]
    simp only [List.nil_append] at hmessage'
    rw [hmessage', ok_bind]
    simp only
    rw [hsub, ok_bind, stoi_eq_ok_iff.mpr hid, ok_bind]
    rfl

theorem readInfo_iff (hlen : s_buffer.length < 2 ^ 63) {i : InfoMsg} :
    readInfo s_buffer = .ok i ↔ InfoFormat s_buffer i := by
  constructor
  · intro h
    obtain ⟨s, b, b₁, b₂, b₃, b₄, b₅, c₁, c₂, n₁, n₂, v, hb, hname, hc₁, hn₁, hrel, hc₂, hn₂,
      hattr, hid, hvalid, hsub, hv⟩ := readInfo_ok h
    have hb' := length_of_erase_head hlen hb
    obtain ⟨-, hlt, hlow, hhigh⟩ := takeNumber_ok (by decide) hname
    have h0 := nonneg_of_le (by omega) hlow (charAt_ok hc₁)
    obtain ⟨hrl, hle₂, hr⟩ := reads_sized.many (b := b₁) (by omega) hrel
    obtain ⟨hal, -, ha⟩ := reads_attribute.many (b := b₂) (by omega) hattr
    have hleft := (hr (ha (takeNumber_ok (by decide) hid).1).1).1
    rw [erase_tail] at hb
    cases hb
    obtain ⟨name, header, r₁, rfl, hs, hnamed⟩ :=
      named.of_takeNumber (k := 2) hname h0 (by norm_num) (by simpa using hleft)
    obtain ⟨hlength, hp⟩ := length_named hnamed (by norm_num)
    have hs' : s = (name ++ header).length := by omega
    have hn : name.length ≤ 999 := hnamed.short
    obtain ⟨h₁, h₂, rfl⟩ := List.length_eq_two.mp hnamed.length_header
    rw [charAt_header (i := 0) rfl (by omega) hn (by norm_num)] at hc₁
    cases hc₁
    obtain ⟨-, r₂, rfl, hrel'⟩ := (takeMany_behind (behind_text hs' hp rfl) (by omega)).mp hrel
    rw [charAt_header (i := 1) rfl (by omega) hn (by norm_num)] at hc₂
    cases hc₂
    obtain ⟨-, r₃, rfl, hattr'⟩ := (takeMany_behind (behind_keyValue hs' hp) (by omega)).mp hattr
    obtain ⟨r₄, rfl, hid'⟩ := (behind_number hs' hp rfl).ok hid
    obtain ⟨r₅, rfl, hvalid'⟩ := (behind_number hs' hp rfl).ok hvalid
    rw [substr_named hnamed r₅ hs] at hsub
    have hnameA : name = i.nameA := Except.ok.inj hsub
    rw [← hrl] at hn₁
    rw [← hal] at hn₂
    refine ⟨_, _, v, r₁, r₂, r₃, r₄, r₅, ?_, ⟨stoi_eq_ok_iff.mp hn₁, hrel'⟩,
      ⟨stoi_eq_ok_iff.mp hn₂, hattr'⟩, hid', hvalid', hv⟩
    rwa [← hnameA]
  · rintro ⟨c₁, c₂, v, r₁, r₂, r₃, r₄, r₅, hnamed, ⟨hn₁, hrel⟩, ⟨hn₂, hattr⟩, hid, hvalid, hv⟩
    obtain ⟨hlength, hp⟩ := length_named hnamed (by norm_num)
    obtain ⟨nameA, attributes, relations, request_id, valid_node⟩ := i
    dsimp only at *
    have hn : nameA.length ≤ 999 := hnamed.short
    have hs' : (nameA.length : ℤ) + 2 = (nameA ++ [c₁, c₂]).length := by
      rw [hlength]
      rfl
    have hrel' := (takeMany_behind (behind_text (w := 3) hs' hp rfl) (by omega)).mpr
      ⟨rfl, r₂, rfl, hrel⟩
    have hattr' := (takeMany_behind (behind_keyValue hs' hp) (by omega)).mpr
      ⟨rfl, r₃, rfl, hattr⟩
    unfold readInfo
    rw [erase_tail, ok_bind, hnamed.takeNumber_ok, ok_bind]
    simp only
    rw [charAt_header (i := 0) rfl (by push_cast; ring) hn (by norm_num), ok_bind,
      show stoiChar c₁ = .ok (relations.length : ℤ) from stoi_eq_ok_iff.mpr hn₁, ok_bind, hrel',
      ok_bind]
    simp only
    rw [charAt_header (i := 1) rfl (by push_cast; ring) hn (by norm_num), ok_bind,
      show stoiChar c₂ = .ok (attributes.length : ℤ) from stoi_eq_ok_iff.mpr hn₂, ok_bind, hattr',
      ok_bind]
    simp only
    rw [(behind_number (w := 3) hs' hp rfl).take_ok hid, ok_bind]
    simp only
    rw [(behind_number (w := 1) hs' hp rfl).take_ok hvalid, ok_bind]
    simp only
    rw [substr_named hnamed r₅ (by omega), ok_bind, ← hv]
    rfl

end Decoders

end DGDB
