import Mathlib
import DGDB.Server

/-!
# What a decoder accepts fits the wire

A decoder reads every length from three digits, and a negative length leaves nothing behind it for
the request id. So the fields of a message that was decoded fit their widths, whatever the bytes
were, and the id is below 1000.
-/

namespace DGDB

open Decimal

/-- Something is left at the offset `s`. -/
def Left (s : ℤ) (b : Str) : Prop := toSizeT s < b.length

theorem Left.mono {s : ℤ} {b b' : Str} (h : Left s b') (hle : b'.length ≤ b.length) : Left s b :=
  lt_of_lt_of_le h hle

theorem nonneg_of_le {s : ℤ} {b : Str} (hb : b.length < 2 ^ 63) (hs : -2 ^ 31 ≤ s)
    (h : toSizeT s ≤ b.length) : 0 ≤ s := by
  unfold toSizeT at h
  omega

theorem stoi_range {t : Str} {v : ℤ} (h : stoi t = .ok v) : -2 ^ 31 ≤ v ∧ v < 2 ^ 31 :=
  (stoi_eq_ok_iff.mp h).1

section Readers

variable {s n w : ℤ} {b b' : Str}

theorem substr_ok {t : Str} (h : substr b s n = .ok t) :
    toSizeT s ≤ b.length ∧ t = (b.drop (toSizeT s)).take (toSizeT n) := by
  unfold substr at h
  split_ifs at h with hlt
  cases h
  exact ⟨not_lt.mp hlt, rfl⟩

theorem erase_ok (h : erase b s n = .ok b') :
    b'.length = min (toSizeT s) b.length + (b.length - (toSizeT s + toSizeT n)) := by
  unfold erase at h
  split_ifs at h
  cases h
  simp

theorem charAt_ok {c : UInt8} (h : charAt b s = .ok c) : toSizeT s ≤ b.length := by
  unfold charAt at h
  split at h
  · rename_i hget
    exact (List.getElem?_eq_some_iff.mp hget).1.le
  · split_ifs at h with heq
    exact heq.le

theorem takeNumber_ok (hw : 1 ≤ toSizeT w) (h : takeNumber w s b = .ok (n, b')) :
    Left s b ∧ b'.length < b.length ∧ -2 ^ 31 ≤ n ∧ n < 10 ^ toSizeT w := by
  unfold takeNumber at h
  obtain ⟨t, ht, h⟩ := bind_eq_ok.mp h
  obtain ⟨v, hv, h⟩ := bind_eq_ok.mp h
  obtain ⟨b₁, hb₁, h⟩ := bind_eq_ok.mp h
  cases h
  obtain ⟨-, rfl⟩ := substr_ok ht
  have hleft : Left s b := by
    by_contra hnot
    have hnil : b.drop (toSizeT s) = [] := List.drop_eq_nil_of_le (not_lt.mp hnot)
    rw [hnil, List.take_nil, stoi_nil] at hv
    cases hv
  have hlen := erase_ok hb₁
  unfold Left at hleft
  exact ⟨hleft, by omega, (stoi_range hv).1, stoi_lt hv (List.length_take_le _ _)⟩

theorem takeChar_ok {c : UInt8} (h : takeChar s b = .ok (c, b')) : b'.length ≤ b.length := by
  unfold takeChar at h
  obtain ⟨c, -, h⟩ := bind_eq_ok.mp h
  obtain ⟨b₁, hb₁, h⟩ := bind_eq_ok.mp h
  cases h
  have := erase_ok hb₁
  omega

end Readers

/-- The reader `take` makes progress, and what it reads satisfies `P` unless it reads the rest. -/
def Reads {α : Type} (s : ℤ) (take : Str → Result (α × Str)) (P : α → Prop) : Prop :=
  ∀ b x b', b.length < 2 ^ 63 → take b = .ok (x, b') →
    Left s b ∧ b'.length < b.length ∧ (Left s b' → P x)

section Reads

variable {s : ℤ}

theorem reads_sized : Reads s (takeSized 3 s) ShortText := by
  intro b x b' hb h
  unfold takeSized at h
  obtain ⟨⟨ss, b₁⟩, hss, h⟩ := bind_eq_ok.mp h
  obtain ⟨x, hx, h⟩ := bind_eq_ok.mp h
  obtain ⟨b₂, hb₂, h⟩ := bind_eq_ok.mp h
  cases h
  obtain ⟨hleft, hlt, hlow, hhigh⟩ := takeNumber_ok (by decide) hss
  have hlen := erase_ok hb₂
  refine ⟨hleft, by omega, fun hrest => ?_⟩
  have hx' := length_of_substr_ok hx
  unfold Left at hrest
  have h3 : toSizeT 3 = 3 := rfl
  rw [h3] at hhigh
  by_cases hneg : ss < 0
  · have : 2 ^ 63 ≤ toSizeT ss := by
      unfold toSizeT
      omega
    omega
  · have : toSizeT ss = ss.toNat := by
      unfold toSizeT
      omega
    unfold ShortText
    omega

theorem reads_attribute : Reads s (takeAttribute s) ShortAttribute := by
  intro b x b' hb h
  unfold takeAttribute at h
  obtain ⟨⟨key, b₁⟩, hkey, h⟩ := bind_eq_ok.mp h
  obtain ⟨⟨value, b₂⟩, hvalue, h⟩ := bind_eq_ok.mp h
  cases h
  obtain ⟨hleft, hlt, hk⟩ := reads_sized b key b₁ hb hkey
  obtain ⟨hleft₁, hlt₁, hv⟩ := reads_sized b₁ value b' (by omega) hvalue
  exact ⟨hleft, by omega, fun hrest => ⟨hk hleft₁, hv hrest⟩⟩

theorem reads_condition :
    Reads s (takeCondition s) fun c => ShortText c.key ∧ ShortText c.value := by
  intro b x b' hb h
  unfold takeCondition at h
  obtain ⟨⟨key, b₁⟩, hkey, h⟩ := bind_eq_ok.mp h
  obtain ⟨⟨op, b₂⟩, hop, h⟩ := bind_eq_ok.mp h
  obtain ⟨op', -, h⟩ := bind_eq_ok.mp h
  obtain ⟨⟨value, b₃⟩, hvalue, h⟩ := bind_eq_ok.mp h
  obtain ⟨⟨is_or, b₄⟩, hor, h⟩ := bind_eq_ok.mp h
  cases h
  obtain ⟨hleft, hlt, hk⟩ := reads_sized b key b₁ hb hkey
  have hle₂ := takeChar_ok hop
  obtain ⟨hleft₂, hlt₂, hv⟩ := reads_sized b₂ value b₃ (by omega) hvalue
  have hle₄ := takeChar_ok hor
  exact ⟨hleft, by omega, fun hrest => ⟨hk (hleft₂.mono hle₂), hv (hrest.mono hle₄)⟩⟩

section Lists

variable {α : Type} {take : Str → Result (α × Str)} {P : α → Prop}

theorem Reads.turns (h : Reads s take P) {n : ℕ} :
    ∀ {b b' : Str} {xs : List α}, b.length < 2 ^ 63 → takeTurns take n b = .ok (xs, b') →
      xs.length = n ∧ b'.length + n ≤ b.length ∧
        (Left s b' → Left s b ∧ ∀ x ∈ xs, P x) := by
  induction n with
  | zero =>
    intro b b' xs _ hturns
    cases hturns
    exact ⟨rfl, le_rfl, fun hleft => ⟨hleft, by simp⟩⟩
  | succ n ih =>
    intro b b' xs hb hturns
    unfold takeTurns at hturns
    obtain ⟨⟨x, b₁⟩, hx, hturns⟩ := bind_eq_ok.mp hturns
    obtain ⟨⟨ys, b₂⟩, hys, hturns⟩ := bind_eq_ok.mp hturns
    cases hturns
    obtain ⟨hleft, hlt, hP⟩ := h b x b₁ hb hx
    obtain ⟨hlen, hle, hrest⟩ := ih (by omega) hys
    refine ⟨by rw [List.length_cons, hlen], by omega, fun hb' => ⟨hleft, fun y hy => ?_⟩⟩
    obtain ⟨hleft₁, hall⟩ := hrest hb'
    rcases List.mem_cons.mp hy with rfl | hy
    · exact hP hleft₁
    · exact hall y hy

/-- A loop that ends has read as many items as its count says. -/
theorem Reads.many (h : Reads s take P) {n : ℤ} {b b' : Str} {xs : List α}
    (hb : b.length < 2 ^ 63) (hmany : takeMany take n b = .ok (xs, b')) :
    (xs.length : ℤ) = n ∧ b'.length ≤ b.length ∧ (Left s b' → Left s b ∧ ∀ x ∈ xs, P x) := by
  unfold takeMany at hmany
  obtain ⟨hlen, hle, hrest⟩ := h.turns hb hmany
  split_ifs at hlen hle with hneg
  · omega
  · exact ⟨by omega, by omega, hrest⟩

theorem Reads.counted (h : Reads s take P) {c : UInt8} {b b' : Str} {xs : List α}
    (hb : b.length < 2 ^ 63) (hcounted : takeCounted take c b = .ok (xs, b')) :
    xs.length ≤ 9 ∧ b'.length ≤ b.length ∧ (Left s b' → Left s b ∧ ∀ x ∈ xs, P x) := by
  unfold takeCounted at hcounted
  split_ifs at hcounted with hzero
  · cases hcounted
    exact ⟨by simp, le_rfl, fun hleft => ⟨hleft, by simp⟩⟩
  · obtain ⟨n, hn, hmany⟩ := bind_eq_ok.mp hcounted
    obtain ⟨hlen, hle, hrest⟩ := h.many hb hmany
    have := stoiChar_range hn
    exact ⟨by omega, hle, hrest⟩

end Lists

theorem length_of_takeTurns {α : Type} {take : Str → Result (α × Str)} {n : ℕ} :
    ∀ {b b' : Str} {xs : List α}, takeTurns take n b = .ok (xs, b') → xs.length = n := by
  induction n with
  | zero =>
    intro b b' xs h
    cases h
    rfl
  | succ n ih =>
    intro b b' xs h
    unfold takeTurns at h
    obtain ⟨⟨x, b₁⟩, -, h⟩ := bind_eq_ok.mp h
    obtain ⟨⟨ys, b₂⟩, hys, h⟩ := bind_eq_ok.mp h
    cases h
    rw [List.length_cons, ih hys]

theorem length_of_takeMany {α : Type} {take : Str → Result (α × Str)} {n : ℕ} {b b' : Str}
    {xs : List α} (h : takeMany take n b = .ok (xs, b')) : xs.length = n := by
  unfold takeMany at h
  rw [if_neg (by omega), Int.toNat_natCast] at h
  exact length_of_takeTurns h

theorem takeOptional_ok {present : Bool} {b b' x : Str} (hb : b.length < 2 ^ 63)
    (h : takeOptional present s b = .ok (x, b')) :
    b'.length ≤ b.length ∧ (Left s b' → Left s b ∧ ShortText x) := by
  unfold takeOptional at h
  split_ifs at h
  · obtain ⟨hleft, hlt, hx⟩ := reads_sized b x b' hb h
    exact ⟨hlt.le, fun hrest => ⟨hleft, hx hrest⟩⟩
  · cases h
    exact ⟨le_rfl, fun hrest => ⟨hrest, by simp [ShortText]⟩⟩

theorem shortText_of_substr {len : ℤ} {b x : Str} (h0 : 0 ≤ len) (h3 : len < 1000)
    (h : substr b 0 len = .ok x) : ShortText x := by
  have hx := length_of_substr_ok h
  have : toSizeT len = len.toNat := by
    unfold toSizeT
    omega
  unfold ShortText
  omega

end Reads

/-! ## The decoders -/

section Decoders

variable {s_buffer : Str}

theorem length_of_erase_head {b : Str} (hlen : s_buffer.length < 2 ^ 63)
    (h : erase s_buffer 0 1 = .ok b) : b.length < 2 ^ 63 := by
  have := erase_ok h
  omega

/-! ### How each branch takes its buffer apart -/

theorem readNode_ok {d : Decoded NodeMsg} (h : readNode s_buffer = .ok d) :
    ∃ b b₁ b₂ b₃ c₁ c₂, erase s_buffer 0 1 = .ok b ∧ takeNumber 3 0 b = .ok (d.s - 2, b₁) ∧
      charAt b₁ (d.s - 2) = .ok c₁ ∧
      takeCounted (takeSized 3 d.s) c₁ b₁ = .ok (d.fields.relations, b₂) ∧
      charAt b₂ (d.s - 1) = .ok c₂ ∧
      takeCounted (takeAttribute d.s) c₂ b₂ = .ok (d.fields.attributes, b₃) ∧
      takeNumber 3 d.s b₃ = .ok (d.fields.request_id, d.s_buffer) ∧
      substr d.s_buffer 0 (d.s - 2) = .ok d.fields.nameA ∧ d.fields.master_repos = [] := by
  unfold readNode at h
  obtain ⟨b, hb, h⟩ := bind_eq_ok.mp h
  obtain ⟨⟨len, b₁⟩, hlen, h⟩ := bind_eq_ok.mp h
  obtain ⟨c₁, hc₁, h⟩ := bind_eq_ok.mp h
  obtain ⟨⟨relations, b₂⟩, hrel, h⟩ := bind_eq_ok.mp h
  obtain ⟨c₂, hc₂, h⟩ := bind_eq_ok.mp h
  obtain ⟨⟨attributes, b₃⟩, hattr, h⟩ := bind_eq_ok.mp h
  obtain ⟨⟨request_id, b₄⟩, hid, h⟩ := bind_eq_ok.mp h
  obtain ⟨node_name, hname, h⟩ := bind_eq_ok.mp h
  cases h
  exact ⟨b, b₁, b₂, b₃, c₁, c₂, hb, by rwa [add_sub_cancel_right], hc₁, hrel, hc₂, hattr, hid,
    hname, rfl⟩

theorem readQuery_ok {d : Decoded QueryMsg} (h : readQuery s_buffer = .ok d) :
    ∃ b b₁ b₂ c c₁ c₂ cnt, erase s_buffer 0 1 = .ok b ∧ takeNumber 3 0 b = .ok (d.s - 5, b₁) ∧
      charAt b₁ (d.s - 5) = .ok c ∧ stoiChar c = .ok d.fields.depth ∧
      stoi [c₁, c₂] = .ok cnt ∧
      takeMany (takeCondition d.s) cnt b₁ = .ok (d.fields.conditions, b₂) ∧
      takeNumber 3 d.s b₂ = .ok (d.fields.request_id, d.s_buffer) ∧
      substr d.s_buffer 0 (d.s - 5) = .ok d.fields.nameA ∧
      ∃ l a leaf attr, charAt b₁ (d.s - 4) = .ok l ∧ stoiChar l = .ok leaf ∧
        charAt b₁ (d.s - 3) = .ok a ∧ stoiChar a = .ok attr ∧ charAt b₁ (d.s - 2) = .ok c₁ ∧
        charAt b₁ (d.s - 1) = .ok c₂ ∧ d.fields.leaf = decide (leaf ≠ 0) ∧
        d.fields.attr = decide (attr ≠ 0) := by
  unfold readQuery at h
  obtain ⟨b, hb, h⟩ := bind_eq_ok.mp h
  obtain ⟨⟨len, b₁⟩, hlen, h⟩ := bind_eq_ok.mp h
  obtain ⟨c, hc, h⟩ := bind_eq_ok.mp h
  obtain ⟨depth, hdepth, h⟩ := bind_eq_ok.mp h
  obtain ⟨l, hl, h⟩ := bind_eq_ok.mp h
  obtain ⟨leaf, hleaf, h⟩ := bind_eq_ok.mp h
  obtain ⟨a, ha, h⟩ := bind_eq_ok.mp h
  obtain ⟨attr, hattr, h⟩ := bind_eq_ok.mp h
  obtain ⟨c₁, hc₁, h⟩ := bind_eq_ok.mp h
  obtain ⟨c₂, hc₂, h⟩ := bind_eq_ok.mp h
  obtain ⟨cnt, hcnt, h⟩ := bind_eq_ok.mp h
  obtain ⟨⟨conditions, b₂⟩, hconditions, h⟩ := bind_eq_ok.mp h
  obtain ⟨⟨request_id, b₃⟩, hid, h⟩ := bind_eq_ok.mp h
  obtain ⟨node_name, hname, h⟩ := bind_eq_ok.mp h
  cases h
  exact ⟨b, b₁, b₂, c, c₁, c₂, cnt, hb, by rwa [add_sub_cancel_right], hc, hdepth, hcnt,
    hconditions, hid, hname, l, a, leaf, attr, hl, hleaf, ha, hattr, hc₁, hc₂, rfl, rfl⟩

theorem readUpdate_ok {d : Decoded UpdateMsg} (h : readUpdate s_buffer = .ok d) :
    ∃ b b₁ b₂ b₃ b₄ flag, erase s_buffer 0 1 = .ok b ∧ takeChar 0 b = .ok (flag, b₁) ∧
      takeNumber 3 0 b₁ = .ok (d.s, b₂) ∧
      takeOptional (!d.fields.is_node) d.s b₂ = .ok (d.fields.attr, b₃) ∧
      takeSized 3 d.s b₃ = .ok (d.fields.set_value, b₄) ∧
      takeNumber 3 d.s b₄ = .ok (d.fields.request_id, d.s_buffer) ∧
      substr d.s_buffer 0 d.s = .ok d.fields.nameA ∧
      d.fields.is_node = decide (signedChar flag - 48 ≠ 0) := by
  unfold readUpdate at h
  obtain ⟨b, hb, h⟩ := bind_eq_ok.mp h
  obtain ⟨⟨flag, b₁⟩, hflag, h⟩ := bind_eq_ok.mp h
  obtain ⟨⟨s, b₂⟩, hlen, h⟩ := bind_eq_ok.mp h
  obtain ⟨⟨attr, b₃⟩, hattr, h⟩ := bind_eq_ok.mp h
  obtain ⟨⟨set_value, b₄⟩, hvalue, h⟩ := bind_eq_ok.mp h
  obtain ⟨⟨request_id, b₅⟩, hid, h⟩ := bind_eq_ok.mp h
  obtain ⟨node_name, hname, h⟩ := bind_eq_ok.mp h
  cases h
  dsimp only
  exact ⟨b, b₁, b₂, b₃, b₄, flag, hb, hflag, hlen, hattr, hvalue, hid, hname, rfl⟩

theorem readDelete_ok {d : Decoded DeleteMsg} (h : readDelete s_buffer = .ok d) :
    ∃ b b₁ b₂ b₃ flag, erase s_buffer 0 1 = .ok b ∧ takeChar 0 b = .ok (flag, b₁) ∧
      takeNumber 3 0 b₁ = .ok (d.s, b₂) ∧
      takeOptional (decide (0 < d.fields.object)) d.s b₂ = .ok (d.fields.attr_or_rel, b₃) ∧
      takeNumber 3 d.s b₃ = .ok (d.fields.request_id, d.s_buffer) ∧
      substr d.s_buffer 0 d.s = .ok d.fields.nameA ∧ d.fields.master_repos = [] ∧
      d.fields.object = signedChar flag - 48 := by
  unfold readDelete at h
  obtain ⟨b, hb, h⟩ := bind_eq_ok.mp h
  obtain ⟨⟨flag, b₁⟩, hflag, h⟩ := bind_eq_ok.mp h
  obtain ⟨⟨s, b₂⟩, hlen, h⟩ := bind_eq_ok.mp h
  obtain ⟨⟨attr, b₃⟩, hattr, h⟩ := bind_eq_ok.mp h
  obtain ⟨⟨request_id, b₄⟩, hid, h⟩ := bind_eq_ok.mp h
  obtain ⟨node_name, hname, h⟩ := bind_eq_ok.mp h
  cases h
  exact ⟨b, b₁, b₂, b₃, flag, hb, hflag, hlen, hattr, hid, hname, rfl, rfl⟩

theorem readResponse_ok {m : ResponseMsg} (h : readResponse s_buffer = .ok m) :
    ∃ b b₁ t, erase s_buffer 0 1 = .ok b ∧ takeSized 3 0 b = .ok (m.message, b₁) ∧
      substr b₁ 0 3 = .ok t ∧ stoi t = .ok m.request_id := by
  unfold readResponse at h
  obtain ⟨b, hb, h⟩ := bind_eq_ok.mp h
  obtain ⟨⟨message, b₁⟩, hmessage, h⟩ := bind_eq_ok.mp h
  obtain ⟨t, ht, h⟩ := bind_eq_ok.mp h
  obtain ⟨request_id, hid, h⟩ := bind_eq_ok.mp h
  cases h
  exact ⟨b, b₁, t, hb, hmessage, ht, hid⟩

theorem readInfo_ok {i : InfoMsg} (h : readInfo s_buffer = .ok i) :
    ∃ s b b₁ b₂ b₃ b₄ b₅ c₁ c₂ n₁ n₂ valid_node, erase s_buffer 0 1 = .ok b ∧
      takeNumber 3 0 b = .ok (s - 2, b₁) ∧
      charAt b₁ (s - 2) = .ok c₁ ∧ stoiChar c₁ = .ok n₁ ∧
      takeMany (takeSized 3 s) n₁ b₁ = .ok (i.relations, b₂) ∧
      charAt b₂ (s - 1) = .ok c₂ ∧ stoiChar c₂ = .ok n₂ ∧
      takeMany (takeAttribute s) n₂ b₂ = .ok (i.attributes, b₃) ∧
      takeNumber 3 s b₃ = .ok (i.request_id, b₄) ∧ takeNumber 1 s b₄ = .ok (valid_node, b₅) ∧
      substr b₅ 0 (s - 2) = .ok i.nameA ∧ i.valid_node = decide (valid_node ≠ 0) := by
  unfold readInfo at h
  obtain ⟨b, hb, h⟩ := bind_eq_ok.mp h
  obtain ⟨⟨len, b₁⟩, hlen, h⟩ := bind_eq_ok.mp h
  obtain ⟨c₁, hc₁, h⟩ := bind_eq_ok.mp h
  obtain ⟨n₁, hn₁, h⟩ := bind_eq_ok.mp h
  obtain ⟨⟨relations, b₂⟩, hrel, h⟩ := bind_eq_ok.mp h
  obtain ⟨c₂, hc₂, h⟩ := bind_eq_ok.mp h
  obtain ⟨n₂, hn₂, h⟩ := bind_eq_ok.mp h
  obtain ⟨⟨attributes, b₃⟩, hattr, h⟩ := bind_eq_ok.mp h
  obtain ⟨⟨request_id, b₄⟩, hid, h⟩ := bind_eq_ok.mp h
  obtain ⟨⟨valid_node, b₅⟩, hvalid, h⟩ := bind_eq_ok.mp h
  obtain ⟨node_name, hname, h⟩ := bind_eq_ok.mp h
  cases h
  exact ⟨len + 2, b, b₁, b₂, b₃, b₄, b₅, c₁, c₂, n₁, n₂, valid_node, hb,
    by rwa [add_sub_cancel_right], hc₁, hn₁, hrel, hc₂, hn₂, hattr, hid, hvalid, hname, rfl⟩

/-! ### The fields that come out -/

theorem readNode_fits (hlen : s_buffer.length < 2 ^ 63) {d : Decoded NodeMsg}
    (h : readNode s_buffer = .ok d) :
    ({ d.fields with request_id := 0 } : NodeMsg).Fits := by
  obtain ⟨b, b₁, b₂, b₃, c₁, c₂, hb, hname, hc₁, hrel, -, hattr, hid, hsub, hrepos⟩ := readNode_ok h
  have hb' := length_of_erase_head hlen hb
  obtain ⟨-, hlt, hlow, hhigh⟩ := takeNumber_ok (by decide) hname
  have h0 := nonneg_of_le (by omega) hlow (charAt_ok hc₁)
  obtain ⟨hrl, hle₂, hr⟩ := reads_sized.counted (b := b₁) (by omega) hrel
  obtain ⟨hal, hle₃, ha⟩ := reads_attribute.counted (b := b₂) (by omega) hattr
  obtain ⟨hleft₂, ha'⟩ := ha (takeNumber_ok (by decide) hid).1
  exact ⟨shortText_of_substr h0 hhigh hsub, hrl, (hr hleft₂).2, hal, ha', by simp [ShortId],
    by simp [hrepos], by simp [hrepos]⟩

theorem readQuery_fits (hlen : s_buffer.length < 2 ^ 63) {d : Decoded QueryMsg}
    (h : readQuery s_buffer = .ok d) :
    ({ d.fields with request_id := 0 } : QueryMsg).Fits := by
  have hdepth := readQuery_depth h
  obtain ⟨b, b₁, b₂, c, c₁, c₂, cnt, hb, hname, hc, -, hcnt, hconditions, hid, hsub, -⟩ :=
    readQuery_ok h
  have hb' := length_of_erase_head hlen hb
  obtain ⟨-, hlt, hlow, hhigh⟩ := takeNumber_ok (by decide) hname
  have h0 := nonneg_of_le (by omega) hlow (charAt_ok hc)
  obtain ⟨hcl, -, hcs⟩ := reads_condition.many (b := b₁) (by omega) hconditions
  have hleft := (takeNumber_ok (by decide) hid).1
  have hcnt' := stoi_lt (k := 2) hcnt (by simp)
  exact ⟨shortText_of_substr h0 hhigh hsub, hdepth, by simp only; omega, (hcs hleft).2,
    by simp [ShortId]⟩

theorem readUpdate_fits (hlen : s_buffer.length < 2 ^ 63) {d : Decoded UpdateMsg}
    (h : readUpdate s_buffer = .ok d) :
    ({ d.fields with request_id := 0 } : UpdateMsg).Fits := by
  obtain ⟨b, b₁, b₂, b₃, b₄, flag, hb, hflag, hname, hattr, hvalue, hid, hsub, -⟩ := readUpdate_ok h
  have hb' := length_of_erase_head hlen hb
  have hle₁ := takeChar_ok hflag
  obtain ⟨-, hlt, hlow, hhigh⟩ := takeNumber_ok (by decide) hname
  obtain ⟨hle₃, ha⟩ := takeOptional_ok (b := b₂) (by omega) hattr
  obtain ⟨hleft₃, hlt₄, hv⟩ := reads_sized b₃ _ b₄ (by omega) hvalue
  have hleft := (takeNumber_ok (by decide) hid).1
  have h0 := nonneg_of_le (b := b₃) (by omega) hlow hleft₃.le
  exact ⟨shortText_of_substr h0 hhigh hsub, hv hleft, (ha hleft₃).2, by simp [ShortId]⟩

theorem readDelete_fits (hlen : s_buffer.length < 2 ^ 63) {d : Decoded DeleteMsg}
    (h : readDelete s_buffer = .ok d) :
    ShortText d.fields.nameA ∧ ShortText d.fields.attr_or_rel := by
  obtain ⟨b, b₁, b₂, b₃, flag, hb, hflag, hname, hattr, hid, hsub, -⟩ := readDelete_ok h
  have hb' := length_of_erase_head hlen hb
  have hle₁ := takeChar_ok hflag
  obtain ⟨-, hlt, hlow, hhigh⟩ := takeNumber_ok (by decide) hname
  obtain ⟨hle₃, ha⟩ := takeOptional_ok (b := b₂) (by omega) hattr
  have hleft := (takeNumber_ok (by decide) hid).1
  have h0 := nonneg_of_le (b := b₃) (by omega) hlow hleft.le
  exact ⟨shortText_of_substr h0 hhigh hsub, (ha hleft).2⟩

end Decoders

end DGDB
