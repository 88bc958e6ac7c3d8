import Mathlib
import DGDB.Decoder

/-!
# Round trips

The decoder of each branch reads back what the encoder of its message wrote, when the fields fit
their widths. A reader works at the offset `s` behind a prefix that it leaves alone, so every lemma
below is about a buffer `p ++ (text ++ r)` with `s = p.length`.
-/

namespace DGDB

open Decimal

/-! ## Readers -/

section Readers

variable {p r : Str} {s : ℤ}

theorem takeNumber_padded {w : ℤ} {k n : ℕ} (hk : w = k) (hs : s = p.length)
    (hpre : p.length < 2 ^ 32) (hk0 : 0 < k) (hk3 : k ≤ 3) (hn : n < 10 ^ k) :
    takeNumber w s (p ++ (padded k n ++ r)) = .ok ((n : ℤ), p ++ r) := by
  have hlen := length_padded hk0 hn
  have hbound : (p ++ padded k n).length < 2 ^ 64 := by
    rw [List.length_append, hlen]
    omega
  have hn' : n < 2 ^ 31 :=
    lt_of_lt_of_le hn ((Nat.pow_le_pow_right (by norm_num) hk3).trans (by norm_num))
  unfold takeNumber
  rw [substr_append hs (by rw [hlen, hk]) hbound, ok_bind, stoi_padded hn', ok_bind,
    erase_append hs (by rw [hlen, hk]) hbound, ok_bind]
  rfl

theorem takeSized_padded {w : ℤ} {k : ℕ} {x : Str} (hk : w = k) (hs : s = p.length)
    (hpre : p.length < 2 ^ 32) (hk0 : 0 < k) (hk3 : k ≤ 3) (hx : x.length < 10 ^ k) :
    takeSized w s (p ++ (padded k x.length ++ (x ++ r))) = .ok (x, p ++ r) := by
  have hx' : x.length < 2 ^ 32 :=
    lt_of_lt_of_le hx ((Nat.pow_le_pow_right (by norm_num) hk3).trans (by norm_num))
  have hbound : (p ++ x).length < 2 ^ 64 := by
    rw [List.length_append]
    omega
  unfold takeSized
  rw [takeNumber_padded hk hs hpre hk0 hk3 hx, ok_bind]
  simp only
  rw [substr_append hs rfl hbound, ok_bind, erase_append hs rfl hbound, ok_bind]
  rfl

theorem takeSized_sized {x : Str} (hs : s = p.length) (hpre : p.length < 2 ^ 32)
    (hx : ShortText x) : takeSized 3 s (p ++ (sized x ++ r)) = .ok (x, p ++ r) := by
  unfold sized
  rw [List.append_assoc]
  unfold ShortText at hx
  exact takeSized_padded (w := 3) (k := 3) rfl hs hpre (by norm_num) le_rfl (by omega)

theorem takeChar_cons {c : UInt8} (hs : s = p.length) (hpre : p.length < 2 ^ 32) :
    takeChar s (p ++ (c :: r)) = .ok (c, p ++ r) := by
  have hbound : (p ++ [c]).length < 2 ^ 64 := by
    rw [List.length_append, List.length_singleton]
    omega
  unfold takeChar
  rw [charAt_append hs (by omega), ok_bind, ← List.singleton_append,
    erase_append (n := 1) hs rfl hbound, ok_bind]
  rfl

theorem takeTurns_flatMap {α β : Type} {take : Str → Result (β × Str)} {f : α → Str}
    {g : α → β} {xs : List α}
    (h : ∀ x ∈ xs, ∀ r, take (p ++ (f x ++ r)) = .ok (g x, p ++ r)) :
    takeTurns take xs.length (p ++ (xs.flatMap f ++ r)) =
      .ok (xs.map g, p ++ r) := by
  induction xs with
  | nil => rfl
  | cons x xs ih =>
    have ih := ih fun y hy => h y (List.mem_cons_of_mem _ hy)
    rw [List.flatMap_cons, List.append_assoc, List.length_cons]
    unfold takeTurns
    rw [h x List.mem_cons_self, ok_bind]
    simp only
    rw [ih, ok_bind]
    rfl

theorem takeMany_flatMap {α β : Type} {take : Str → Result (β × Str)} {f : α → Str}
    {g : α → β} {xs : List α} {n : ℤ} (hn : n = xs.length)
    (h : ∀ x ∈ xs, ∀ r, take (p ++ (f x ++ r)) = .ok (g x, p ++ r)) :
    takeMany take n (p ++ (xs.flatMap f ++ r)) = .ok (xs.map g, p ++ r) := by
  subst hn
  unfold takeMany
  rw [if_neg (by omega), Int.toNat_natCast]
  exact takeTurns_flatMap h

theorem stoiChar_countChar {n : ℕ} (h : n ≤ 9) : stoiChar (countChar n) = .ok (n : ℤ) := by
  interval_cases n <;> decide +kernel

theorem countChar_eq_zero {n : ℕ} (h : n ≤ 9) : countChar n = ch '0' ↔ n = 0 := by
  interval_cases n <;> decide +kernel

/-- An attribute as it crosses the wire: without its node name. -/
def Attribute.wire (a : Attribute) : Attribute := { a with node_name := [] }

theorem takeAttribute_text {a : Attribute} (hs : s = p.length) (hpre : p.length < 2 ^ 32)
    (ha : ShortAttribute a) :
    takeAttribute s (p ++ (attributeText a ++ r)) = .ok (a.wire, p ++ r) := by
  unfold attributeText takeAttribute
  rw [List.append_assoc, takeSized_sized hs hpre ha.1, ok_bind]
  simp only
  rw [takeSized_sized hs hpre ha.2, ok_bind]
  rfl

theorem takeCondition_text {c : Condition} (hs : s = p.length) (hpre : p.length < 2 ^ 32)
    (hk : ShortText c.key) (hv : ShortText c.value) :
    takeCondition s (p ++ (conditionText c ++ r)) = .ok (c, p ++ r) := by
  have hop : decimal c.op.toNat = [digitByte c.op.toNat] := decimal_of_lt c.op.toNat_lt
  have hcast : signedChar (digitByte c.op.toNat) - 48 = c.op.toNat := by
    cases c.op <;> decide +kernel
  have hor : decide (signedChar (flagChar c.is_or) - 48 ≠ 0) = c.is_or := by
    cases c.is_or <;> decide +kernel
  unfold conditionText takeCondition
  rw [List.append_assoc, takeSized_sized hs hpre hk, ok_bind]
  simp only
  rw [hop, List.append_assoc, List.singleton_append, takeChar_cons hs hpre, ok_bind]
  simp only
  rw [hcast, Operator.ofInt_toNat, ok_bind, List.append_assoc, takeSized_sized hs hpre hv, ok_bind]
  simp only
  rw [List.singleton_append, takeChar_cons hs hpre, ok_bind]
  simp only
  rw [hor]
  rfl

end Readers

/-- A number read from one character is a digit: a sign or a blank alone is no number. -/
theorem stoiChar_range {c : UInt8} {v : ℤ} (h : stoiChar c = .ok v) : 0 ≤ v ∧ v ≤ 9 := by
  have key : ∀ n : Fin 256, ∀ w, stoiChar (UInt8.ofNat n) = .ok w → 0 ≤ w ∧ w ≤ 9 := by
    have hall : ∀ n : Fin 256, (match stoiChar (UInt8.ofNat n) with
        | .ok w => decide (0 ≤ w ∧ w ≤ 9)
        | .error _ => true) = true := by decide +kernel
    intro n w hw
    have := hall n
    rw [hw] at this
    exact of_decide_eq_true this
  have hc : UInt8.ofNat (⟨c.toNat, c.toNat_lt⟩ : Fin 256) = c := by simp
  exact key ⟨c.toNat, c.toNat_lt⟩ v (by rw [hc]; exact h)

/-! ## Hosts -/

theorem findIdx?_eq_none_of_not_mem {c : UInt8} {x : Str} (hc : c ∉ x) :
    x.findIdx? (· == c) = none := by
  rw [List.findIdx?_eq_none_iff]
  intro y hy
  have : y ≠ c := fun h => hc (h ▸ hy)
  simpa using this

theorem findIdx?_append_cons {c : UInt8} {x r : Str} (hc : c ∉ x) :
    (x ++ c :: r).findIdx? (· == c) = some x.length := by
  rw [List.findIdx?_append, findIdx?_eq_none_of_not_mem hc]
  simp [List.findIdx?_cons]

theorem findChar_append {c : UInt8} {x r : Str} (hc : c ∉ x) (hx : x.length < 2 ^ 31) :
    findChar c (x ++ c :: r) = x.length := by
  unfold findChar
  rw [findIdx?_append_cons hc]
  exact toInt_natCast hx

theorem uInt16_ofInt_toNat (p : UInt16) : UInt16.ofInt (p.toNat : ℤ) = p := by
  have h := p.toNat_lt
  have hmod : ((p.toNat : ℤ) % 65536).toNat = p.toNat := by omega
  simp [UInt16.ofInt, hmod]

theorem stringToHost_text {h : Host} (hh : ShortHost h) : stringToHost h.text = .ok h := by
  obtain ⟨hlen, hip⟩ := hh
  have htext : h.text = h.ip ++ ch ':' :: decimal h.port.toNat := by
    simp [Host.text]
  have hport : h.port.toNat < 2 ^ 31 := lt_trans h.port.toNat_lt (by norm_num)
  rw [htext] at hlen ⊢
  simp only [List.length_append, List.length_cons] at hlen
  unfold stringToHost
  have h1 : substr (h.ip ++ ch ':' :: decimal h.port.toNat) 0 h.ip.length = .ok h.ip := by
    have := substr_append (p := []) (x := h.ip) (r := ch ':' :: decimal h.port.toNat)
      (s := 0) (n := h.ip.length) rfl rfl (by simp; omega)
    simpa using this
  have h2 : substr (h.ip ++ ch ':' :: decimal h.port.toNat) (h.ip.length + 1) (2 ^ 64 - 1) =
      .ok (decimal h.port.toNat) := by
    unfold substr
    have hpos : toSizeT ((h.ip.length : ℤ) + 1) = h.ip.length + 1 := by
      exact_mod_cast toSizeT_natCast (n := h.ip.length + 1) (by omega)
    have hmax : toSizeT (2 ^ 64 - 1) = 2 ^ 64 - 1 := by decide
    rw [hpos, hmax, if_neg (by simp)]
    rw [show h.ip ++ ch ':' :: decimal h.port.toNat = (h.ip ++ [ch ':']) ++ decimal h.port.toNat by
      simp, show h.ip.length + 1 = (h.ip ++ [ch ':']).length by simp, List.drop_left]
    rw [List.take_of_length_le (by omega)]
    rfl
  simp only [findChar_append hip (show h.ip.length < 2 ^ 31 by omega)]
  rw [h1, ok_bind, h2, ok_bind, stoi_decimal hport, ok_bind,
    uInt16_ofInt_toNat]
  rfl

theorem takeHosts_append {p r : Str} {s : ℤ} {hosts : List Host} (hs : s = p.length)
    (hpre : p.length < 2 ^ 32) (hlen : hosts.length ≤ 9) (hh : ∀ h ∈ hosts, ShortHost h) :
    takeHosts s (p ++ (hostListText hosts ++ r)) = .ok (hosts, p ++ r) := by
  unfold takeHosts hostListText
  rw [List.append_assoc,
    takeNumber_padded (w := 1) (k := 1) rfl hs hpre (by norm_num) (by norm_num) (by omega), ok_bind]
  simp only
  have htake : ∀ h ∈ hosts, ∀ r, takeHost s (p ++ (hostText h ++ r)) = .ok (id h, p ++ r) := by
    intro h hmem r
    have hshort := hh h hmem
    unfold takeHost hostText
    rw [List.append_assoc,
      takeSized_padded (w := 2) (k := 2) rfl hs hpre (by norm_num) (by norm_num)
        (by have := hshort.1; omega), ok_bind]
    simp only
    rw [stringToHost_text hshort, ok_bind]
    rfl
  rw [takeMany_flatMap rfl htake, List.map_id]

theorem takeHosts_text {p : Str} {s : ℤ} {hosts : List Host} (hs : s = p.length)
    (hpre : p.length < 2 ^ 32) (hlen : hosts.length ≤ 9) (hh : ∀ h ∈ hosts, ShortHost h) :
    takeHosts s (p ++ hostListText hosts) = .ok (hosts, p) := by
  simpa using takeHosts_append (r := []) hs hpre hlen hh

/-! ## Messages -/

/-- An accepted `R` has a depth of one digit. -/
theorem readQuery_depth {s_buffer : Str} {d : Decoded QueryMsg} (h : readQuery s_buffer = .ok d) :
    0 ≤ d.fields.depth ∧ d.fields.depth ≤ 9 := by
  unfold readQuery at h
  obtain ⟨b, -, h⟩ := bind_eq_ok.mp h
  obtain ⟨⟨len, b⟩, -, h⟩ := bind_eq_ok.mp h
  obtain ⟨c, -, h⟩ := bind_eq_ok.mp h
  obtain ⟨depth, hdepth, h⟩ := bind_eq_ok.mp h
  obtain ⟨c, -, h⟩ := bind_eq_ok.mp h
  obtain ⟨leaf, -, h⟩ := bind_eq_ok.mp h
  obtain ⟨c, -, h⟩ := bind_eq_ok.mp h
  obtain ⟨attr, -, h⟩ := bind_eq_ok.mp h
  obtain ⟨c₁, -, h⟩ := bind_eq_ok.mp h
  obtain ⟨c₂, -, h⟩ := bind_eq_ok.mp h
  obtain ⟨cnt, -, h⟩ := bind_eq_ok.mp h
  obtain ⟨⟨conditions, b⟩, -, h⟩ := bind_eq_ok.mp h
  obtain ⟨⟨request_id, b⟩, -, h⟩ := bind_eq_ok.mp h
  obtain ⟨node_name, -, h⟩ := bind_eq_ok.mp h
  cases h
  exact stoiChar_range hdepth

theorem toSizeT_shortId {i : ℤ} (h : ShortId i) : toSizeT i < 10 ^ 3 ∧ (toSizeT i : ℤ) = i := by
  obtain ⟨h0, h9⟩ := h
  unfold toSizeT
  omega

theorem takeNumber_idText {p r : Str} {s i : ℤ} (hs : s = p.length)
    (hpre : p.length < 2 ^ 32) (hi : ShortId i) :
    takeNumber 3 s (p ++ (idText i ++ r)) = .ok (i, p ++ r) := by
  obtain ⟨hlt, heq⟩ := toSizeT_shortId hi
  unfold idText
  rw [takeNumber_padded (w := 3) (k := 3) rfl hs hpre (by norm_num) le_rfl hlt, heq]

theorem erase_head (c : UInt8) (b : Str) : erase (c :: b) 0 1 = .ok b := by
  have h := erase_append (p := []) (x := [c]) (r := b) (s := 0) (n := 1) rfl rfl (by simp)
  simpa using h

theorem takeNumber_name {x r : Str} (hx : ShortText x) :
    takeNumber 3 0 (sized x ++ r) = .ok ((x.length : ℤ), x ++ r) := by
  unfold ShortText at hx
  have h := takeNumber_padded (p := []) (r := x ++ r) (s := 0) (w := 3) (k := 3)
    (n := x.length) rfl rfl (by simp) (by norm_num) le_rfl (by omega)
  simpa [sized] using h

theorem substr_name {x r : Str} {n : ℤ} (hn : n = x.length) (hx : ShortText x) :
    substr (x ++ r) 0 n = .ok x := by
  unfold ShortText at hx
  have h := substr_append (p := []) (x := x) (r := r) (s := 0) (n := n) rfl hn
    (by simp; omega)
  simpa using h

theorem takeCounted_flatMap {α β : Type} {take : Str → Result (β × Str)} {f : α → Str}
    {g : α → β} {xs : List α} {p r : Str} (hlen : xs.length ≤ 9)
    (h : ∀ x ∈ xs, ∀ r, take (p ++ (f x ++ r)) = .ok (g x, p ++ r)) :
    takeCounted take (countChar xs.length) (p ++ (xs.flatMap f ++ r)) =
      .ok (xs.map g, p ++ r) := by
  unfold takeCounted
  split_ifs with h0
  · rw [List.length_eq_zero_iff.mp ((countChar_eq_zero hlen).mp h0)]
    rfl
  · rw [stoiChar_countChar hlen, ok_bind, takeMany_flatMap rfl h]

/-- What a `C` or an `I` leaves in front of its lists. -/
def listHeader (nameA : Str) (relations : List Str) (attributes : List Attribute) : Str :=
  nameA ++ [countChar relations.length, countChar attributes.length]

section Header

variable {nameA : Str} {relations : List Str} {attributes : List Attribute}

theorem length_listHeader :
    (listHeader nameA relations attributes).length = nameA.length + 2 := by
  simp [listHeader]

theorem listHeader_append (r : Str) :
    nameA ++ countChar relations.length :: countChar attributes.length :: r =
      listHeader nameA relations attributes ++ r := by
  simp [listHeader]

theorem charAt_header_relations (hn : nameA.length ≤ 999) (r : Str) :
    charAt (listHeader nameA relations attributes ++ r) ((nameA.length : ℤ) + 2 - 2) =
      .ok (countChar relations.length) := by
  rw [← listHeader_append]
  exact charAt_append (by omega) (by omega)

theorem charAt_header_attributes (hn : nameA.length ≤ 999) (r : Str) :
    charAt (listHeader nameA relations attributes ++ r) ((nameA.length : ℤ) + 2 - 1) =
      .ok (countChar attributes.length) := by
  have h := charAt_append (p := nameA ++ [countChar relations.length])
    (c := countChar attributes.length) (r := r) (s := (nameA.length : ℤ) + 2 - 1)
    (by simp; omega) (by simp; omega)
  simpa [listHeader] using h

theorem substr_header (hn : ShortText nameA) (r : Str) :
    substr (listHeader nameA relations attributes ++ r) 0 ((nameA.length : ℤ) + 2 - 2) =
      .ok nameA := by
  rw [← listHeader_append]
  exact substr_name (by omega) hn

end Header

/-- A `C` and the bytes behind it are taken apart up to its request id, whatever the id makes of the
rest. -/
theorem readNode_append {m : NodeMsg} (hname : ShortText m.nameA)
    (hrl : m.relations.length ≤ 9) (hr : ∀ x ∈ m.relations, ShortText x)
    (hal : m.attributes.length ≤ 9) (ha : ∀ a ∈ m.attributes, ShortAttribute a)
    {request_id : ℤ} {rest r : Str}
    (hid : takeNumber 3 (m.nameA.length + 2) (listHeader m.nameA m.relations m.attributes ++
      (idText m.request_id ++ (hostListText m.master_repos ++ r))) =
        .ok (request_id, listHeader m.nameA m.relations m.attributes ++ rest)) :
    readNode (parseNewNode m ++ r) = .ok
      ⟨⟨m.nameA, m.attributes.map Attribute.wire, m.relations, request_id, []⟩,
        m.nameA.length + 2, listHeader m.nameA m.relations m.attributes ++ rest⟩ := by
  have hs : (m.nameA.length : ℤ) + 2 = (listHeader m.nameA m.relations m.attributes).length := by
    rw [length_listHeader]
    rfl
  have hpre : (listHeader m.nameA m.relations m.attributes).length < 2 ^ 32 := by
    have : m.nameA.length ≤ 999 := hname
    rw [length_listHeader]
    omega
  unfold readNode parseNewNode
  simp only [List.cons_append, List.append_assoc]
  rw [erase_head, ok_bind, takeNumber_name hname, ok_bind]
  simp only
  rw [listHeader_append, charAt_header_relations hname, ok_bind,
    takeCounted_flatMap (f := sized) (g := id) hrl fun x hx r => takeSized_sized hs hpre (hr x hx),
    ok_bind]
  simp only
  rw [charAt_header_attributes hname, ok_bind,
    takeCounted_flatMap hal fun a hmem r => takeAttribute_text hs hpre (ha a hmem), ok_bind]
  simp only
  rw [hid, ok_bind]
  simp only
  rw [substr_header hname, ok_bind, List.map_id]
  rfl

theorem readNode_tail {m : NodeMsg} (hname : ShortText m.nameA)
    (hrl : m.relations.length ≤ 9) (hr : ∀ x ∈ m.relations, ShortText x)
    (hal : m.attributes.length ≤ 9) (ha : ∀ a ∈ m.attributes, ShortAttribute a)
    {request_id : ℤ} {rest : Str}
    (hid : takeNumber 3 (m.nameA.length + 2) (listHeader m.nameA m.relations m.attributes ++
      (idText m.request_id ++ hostListText m.master_repos)) =
        .ok (request_id, listHeader m.nameA m.relations m.attributes ++ rest)) :
    readNode (parseNewNode m) = .ok
      ⟨⟨m.nameA, m.attributes.map Attribute.wire, m.relations, request_id, []⟩,
        m.nameA.length + 2, listHeader m.nameA m.relations m.attributes ++ rest⟩ := by
  rw [← List.append_nil (hostListText m.master_repos)] at hid
  have h := readNode_append hname hrl hr hal ha hid
  rwa [List.append_nil] at h

theorem readNode_parseNewNode {m : NodeMsg} (hname : ShortText m.nameA)
    (hrl : m.relations.length ≤ 9) (hr : ∀ x ∈ m.relations, ShortText x)
    (hal : m.attributes.length ≤ 9) (ha : ∀ a ∈ m.attributes, ShortAttribute a)
    (hid : ShortId m.request_id) :
    readNode (parseNewNode m) = .ok
      ⟨{ m with attributes := m.attributes.map Attribute.wire, master_repos := [] },
        m.nameA.length + 2,
        listHeader m.nameA m.relations m.attributes ++ hostListText m.master_repos⟩ := by
  refine readNode_tail hname hrl hr hal ha (takeNumber_idText ?_ ?_ hid)
  · rw [length_listHeader]
    rfl
  · have : m.nameA.length ≤ 999 := hname
    rw [length_listHeader]
    omega

theorem readInfo_append {m : InfoMsg} (h : m.Fits) (r : Str) :
    readInfo (parseNewInfoResponse m ++ r) =
      .ok { m with attributes := m.attributes.map Attribute.wire } := by
  have hs : (m.nameA.length : ℤ) + 2 = (listHeader m.nameA m.relations m.attributes).length := by
    rw [length_listHeader]
    rfl
  have hpre : (listHeader m.nameA m.relations m.attributes).length < 2 ^ 32 := by
    have : m.nameA.length ≤ 999 := h.name
    rw [length_listHeader]
    omega
  have hflag : flagChar m.valid_node :: r = padded 1 m.valid_node.toNat ++ r := by
    cases m.valid_node <;> rfl
  have hvalid : decide ((m.valid_node.toNat : ℤ) ≠ 0) = m.valid_node := by
    cases m.valid_node <;> rfl
  have hlt : m.valid_node.toNat < 10 ^ 1 := lt_of_le_of_lt (Bool.toNat_le _) (by norm_num)
  unfold readInfo parseNewInfoResponse
  simp only [List.cons_append, List.append_assoc, List.nil_append]
  rw [erase_head, ok_bind, takeNumber_name h.name, ok_bind]
  simp only
  rw [listHeader_append, charAt_header_relations h.name, ok_bind,
    stoiChar_countChar h.relations_length, ok_bind,
    takeMany_flatMap (f := sized) (g := id) rfl fun x hx r =>
      takeSized_sized hs hpre (h.relations x hx),
    ok_bind]
  simp only
  rw [charAt_header_attributes h.name, ok_bind, stoiChar_countChar h.attributes_length, ok_bind,
    takeMany_flatMap rfl fun a hmem r => takeAttribute_text hs hpre (h.attributes a hmem),
    ok_bind]
  simp only
  rw [takeNumber_idText hs hpre h.id, ok_bind]
  simp only
  rw [hflag, takeNumber_padded (w := 1) (k := 1) rfl hs hpre (by norm_num) (by norm_num) hlt,
    ok_bind]
  simp only
  rw [substr_header h.name, ok_bind, List.map_id, hvalid]
  rfl

theorem readInfo_parseNewInfoResponse {m : InfoMsg} (h : m.Fits) :
    readInfo (parseNewInfoResponse m) =
      .ok { m with attributes := m.attributes.map Attribute.wire } := by
  simpa using readInfo_append h []

theorem readResponse_append {m : ResponseMsg} (h : m.Fits) (r : Str) :
    readResponse (parseNewMessageResponse m ++ r) = .ok m := by
  have hmsg := takeSized_sized (p := []) (r := idText m.request_id ++ r) (s := 0) rfl (by simp)
    h.message
  obtain ⟨hlt, heq⟩ := toSizeT_shortId h.id
  have hid : substr (idText m.request_id ++ r) 0 3 = .ok (idText m.request_id) :=
    substr_append (p := []) (x := idText m.request_id) (r := r) (s := 0) (n := 3) rfl
      (by rw [idText, length_padded (by norm_num) hlt]; rfl)
      (by rw [List.nil_append, idText, length_padded (by norm_num) hlt]; norm_num)
  unfold readResponse parseNewMessageResponse
  simp only [List.cons_append, List.append_assoc]
  rw [erase_head, ok_bind]
  simp only [List.nil_append] at hmsg
  rw [hmsg, ok_bind]
  simp only
  rw [hid, ok_bind, idText, stoi_padded (by omega), ok_bind, heq]
  rfl

theorem readResponse_parseNewMessageResponse {m : ResponseMsg} (h : m.Fits) :
    readResponse (parseNewMessageResponse m) = .ok m := by
  simpa using readResponse_append h []

theorem charAt_header {nameA header r : Str} {i : ℕ} {pos : ℤ} {c : UInt8}
    (hc : header[i]? = some c) (hpos : pos = nameA.length + i) (hn : nameA.length ≤ 999)
    (hi : i < 5) : charAt (nameA ++ header ++ r) pos = .ok c := by
  have hsize : toSizeT pos = nameA.length + i := by
    rw [hpos]
    exact_mod_cast toSizeT_natCast (n := nameA.length + i) (by omega)
  obtain ⟨hlt, -⟩ := List.getElem?_eq_some_iff.mp hc
  unfold charAt
  rw [hsize, List.getElem?_append_left (by rw [List.length_append]; omega),
    List.getElem?_append_right (by omega), Nat.add_sub_cancel_left, hc]
  rfl

theorem readQuery_append {m : QueryMsg} (h : m.Fits) :
    ∃ header : Str, header.length = 5 ∧ ∀ r,
      readQuery (parseNewQuery m ++ r) = .ok ⟨m, m.nameA.length + 5, m.nameA ++ header ++ r⟩ := by
  obtain ⟨d, hd⟩ : ∃ d : ℕ, m.depth = d := ⟨m.depth.toNat, by have := h.depth; omega⟩
  have hd9 : d ≤ 9 := by have := h.depth; omega
  have hdepth : padded 1 (toSizeT m.depth) = [countChar d] := by
    rw [hd, toSizeT_natCast (by omega)]
    interval_cases d <;> rfl
  obtain ⟨c₁, c₂, hcnt⟩ : ∃ c₁ c₂, padded 2 m.conditions.length = [c₁, c₂] :=
    List.length_eq_two.mp (length_padded (by norm_num) (by have := h.conditions_length; omega))
  have hstoi : stoi [c₁, c₂] = .ok (m.conditions.length : ℤ) := by
    rw [← hcnt]
    exact stoi_padded (by have := h.conditions_length; omega)
  have hflag : ∀ b : Bool, ∃ v : ℤ, stoiChar (flagChar b) = .ok v ∧ decide (v ≠ 0) = b := by
    intro b
    cases b
    · exact ⟨0, by decide +kernel, rfl⟩
    · exact ⟨1, by decide +kernel, rfl⟩
  obtain ⟨leaf, hleaf, hleaf'⟩ := hflag m.leaf
  obtain ⟨attr, hattr, hattr'⟩ := hflag m.attr
  set header : Str := [countChar d, flagChar m.leaf, flagChar m.attr, c₁, c₂] with hheader
  have hn : m.nameA.length ≤ 999 := h.name
  have hs : (m.nameA.length : ℤ) + 5 = (m.nameA ++ header).length := by simp [hheader]
  have hpre : (m.nameA ++ header).length < 2 ^ 32 := by simp [hheader]; omega
  refine ⟨header, rfl, fun r => ?_⟩
  unfold readQuery parseNewQuery
  simp only [List.cons_append, List.append_assoc]
  rw [erase_head, ok_bind, takeNumber_name h.name, ok_bind, hdepth, hcnt]
  simp only
  rw [show ∀ r : Str, m.nameA ++ ([countChar d] ++ flagChar m.leaf :: flagChar m.attr ::
      ([c₁, c₂] ++ r)) = m.nameA ++ header ++ r by intro r; simp [hheader]]
  rw [charAt_header (i := 0) rfl (by push_cast; ring) hn (by norm_num), ok_bind,
    stoiChar_countChar hd9, ok_bind,
    charAt_header (i := 1) rfl (by push_cast; ring) hn (by norm_num), ok_bind, hleaf, ok_bind,
    charAt_header (i := 2) rfl (by push_cast; ring) hn (by norm_num), ok_bind, hattr, ok_bind,
    charAt_header (i := 3) rfl (by push_cast; ring) hn (by norm_num), ok_bind,
    charAt_header (i := 4) rfl (by push_cast; ring) hn (by norm_num), ok_bind, hstoi, ok_bind,
    takeMany_flatMap (f := conditionText) (g := id) rfl fun c hc r =>
      takeCondition_text hs hpre (h.conditions c hc).1 (h.conditions c hc).2, ok_bind]
  simp only
  rw [takeNumber_idText hs hpre h.id, ok_bind]
  simp only
  rw [List.append_assoc, substr_name (by omega) h.name, ok_bind, hleaf', hattr', List.map_id, ← hd]
  rfl

theorem readQuery_parseNewQuery {m : QueryMsg} (h : m.Fits) :
    ∃ header : Str, header.length = 5 ∧
      readQuery (parseNewQuery m) = .ok ⟨m, m.nameA.length + 5, m.nameA ++ header⟩ := by
  obtain ⟨header, hlen, hread⟩ := readQuery_append h
  exact ⟨header, hlen, by simpa using hread []⟩

theorem takeOptional_true {p r x : Str} {s : ℤ} (hs : s = p.length)
    (hpre : p.length < 2 ^ 32) (hx : ShortText x) :
    takeOptional true s (p ++ (sized x ++ r)) = .ok (x, p ++ r) :=
  takeSized_sized hs hpre hx

theorem takeOptional_false {b : Str} {s : ℤ} : takeOptional false s b = .ok ([], b) := rfl

/-- A `U` is read back; the attribute is not on the wire when the node itself is renamed. -/
theorem readUpdate_append {m : UpdateMsg} (h : m.Fits) (r : Str) :
    readUpdate (parseNewUpdate m ++ r) = .ok
      ⟨{ m with attr := if m.is_node then [] else m.attr }, m.nameA.length, m.nameA ++ r⟩ := by
  have hn : m.nameA.length ≤ 999 := h.name
  have hpre : m.nameA.length < 2 ^ 32 := by omega
  have hflag : decide (signedChar (flagChar m.is_node) - 48 ≠ 0) = m.is_node := by
    cases m.is_node <;> decide +kernel
  have hid := takeNumber_idText (p := m.nameA) (r := r) (s := m.nameA.length) rfl hpre h.id
  have hname := substr_name (x := m.nameA) (r := r) (n := m.nameA.length) rfl h.name
  have hchar := takeChar_cons (p := []) (c := flagChar m.is_node) (s := 0)
    (r := sized m.nameA ++ ((if m.is_node then sized m.set_value
      else sized m.attr ++ sized m.set_value) ++ (idText m.request_id ++ r))) rfl (by simp)
  simp only [List.nil_append] at hchar
  unfold readUpdate parseNewUpdate
  simp only [List.cons_append, List.append_assoc]
  rw [erase_head, ok_bind, hchar, ok_bind]
  simp only [hflag]
  rw [takeNumber_name h.name, ok_bind]
  simp only
  cases hnode : m.is_node with
  | true =>
    simp only [Bool.not_true, if_true]
    rw [takeOptional_false, ok_bind]
    simp only
    rw [takeSized_sized rfl hpre h.set_value, ok_bind]
    simp only
    rw [hid, ok_bind]
    simp only
    rw [hname, ok_bind]
    rfl
  | false =>
    simp only [Bool.not_false, Bool.false_eq_true, if_false]
    rw [List.append_assoc, takeOptional_true rfl hpre h.attr, ok_bind]
    simp only
    rw [takeSized_sized rfl hpre h.set_value, ok_bind]
    simp only
    rw [hid, ok_bind]
    simp only
    rw [hname, ok_bind]
    rfl

theorem readUpdate_parseNewUpdate {m : UpdateMsg} (h : m.Fits) :
    readUpdate (parseNewUpdate m) = .ok
      ⟨{ m with attr := if m.is_node then [] else m.attr }, m.nameA.length, m.nameA⟩ := by
  simpa using readUpdate_append h []

theorem readDelete_append {m : DeleteMsg} (hname : ShortText m.nameA)
    (hobj : 0 ≤ m.object ∧ m.object ≤ 9) (hattr : ShortText m.attr_or_rel)
    {request_id : ℤ} {rest r : Str}
    (hid : takeNumber 3 m.nameA.length (m.nameA ++ (idText m.request_id ++
      (hostListText m.master_repos ++ r))) = .ok (request_id, m.nameA ++ rest)) :
    readDelete (parseNewDelete m ++ r) = .ok
      ⟨⟨m.nameA, m.object, if 0 < m.object then m.attr_or_rel else [], request_id, []⟩,
        m.nameA.length, m.nameA ++ rest⟩ := by
  have hn : m.nameA.length ≤ 999 := hname
  have hpre : m.nameA.length < 2 ^ 32 := by omega
  obtain ⟨o, ho⟩ : ∃ o : ℕ, m.object = o := ⟨m.object.toNat, by omega⟩
  have ho9 : o ≤ 9 := by omega
  have htext : intText m.object = [countChar o] ∧ signedChar (countChar o) - 48 = m.object := by
    rw [ho]
    interval_cases o <;> decide +kernel
  obtain ⟨htext, hval⟩ := htext
  have hchar := takeChar_cons (p := []) (c := countChar o) (s := 0)
    (r := sized m.nameA ++ ((if 0 < m.object then sized m.attr_or_rel else []) ++
      (idText m.request_id ++ (hostListText m.master_repos ++ r)))) rfl (by simp)
  simp only [List.nil_append] at hchar
  unfold readDelete parseNewDelete
  simp only [List.cons_append, List.append_assoc]
  rw [erase_head, ok_bind, htext, List.singleton_append, hchar, ok_bind]
  simp only [hval]
  rw [takeNumber_name hname, ok_bind]
  simp only
  by_cases hpos : 0 < m.object
  · rw [decide_eq_true hpos, if_pos hpos, if_pos hpos, takeOptional_true rfl hpre hattr, ok_bind]
    simp only
    rw [hid, ok_bind]
    simp only
    rw [substr_name rfl hname, ok_bind]
    rfl
  · rw [decide_eq_false hpos, if_neg hpos, if_neg hpos, takeOptional_false, ok_bind]
    simp only
    rw [List.nil_append, hid, ok_bind]
    simp only
    rw [substr_name rfl hname, ok_bind]
    rfl

theorem readDelete_tail {m : DeleteMsg} (hname : ShortText m.nameA)
    (hobj : 0 ≤ m.object ∧ m.object ≤ 9) (hattr : ShortText m.attr_or_rel)
    {request_id : ℤ} {rest : Str}
    (hid : takeNumber 3 m.nameA.length (m.nameA ++ (idText m.request_id ++
      hostListText m.master_repos)) = .ok (request_id, m.nameA ++ rest)) :
    readDelete (parseNewDelete m) = .ok
      ⟨⟨m.nameA, m.object, if 0 < m.object then m.attr_or_rel else [], request_id, []⟩,
        m.nameA.length, m.nameA ++ rest⟩ := by
  rw [← List.append_nil (hostListText m.master_repos)] at hid
  have h := readDelete_append hname hobj hattr hid
  rwa [List.append_nil] at h

/-- A `D` is read back; the attribute or relation is on the wire when the object has one. -/
theorem readDelete_parseNewDelete {m : DeleteMsg} (hname : ShortText m.nameA)
    (hobj : 0 ≤ m.object ∧ m.object ≤ 9) (hattr : ShortText m.attr_or_rel)
    (hid : ShortId m.request_id) :
    readDelete (parseNewDelete m) = .ok
      ⟨{ m with attr_or_rel := if 0 < m.object then m.attr_or_rel else [], master_repos := [] },
        m.nameA.length, m.nameA ++ hostListText m.master_repos⟩ := by
  have : m.nameA.length ≤ 999 := hname
  exact readDelete_tail hname hobj hattr (takeNumber_idText rfl (by omega) hid)

end DGDB
