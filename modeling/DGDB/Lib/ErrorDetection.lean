import Mathlib

/-!
# Additive checksums and single substitutions

The sum of the weights of the items of a list, in a commutative group. Two lists with a common part
have the same checksum exactly if the parts in which they differ have, so a single substitution is
seen whenever the weights tell the two items apart.
-/

namespace ErrorDetection

section Checksum

variable {α G H : Type*} [AddCommGroup G] [AddCommGroup H] (weight : α → G) {u v : List α}

/-- The sum of the weights of a list. -/
def checksum (l : List α) : G := (l.map weight).sum

@[simp] theorem checksum_nil : checksum weight [] = 0 := rfl

@[simp] theorem checksum_cons (a : α) (l : List α) :
    checksum weight (a :: l) = weight a + checksum weight l := List.sum_cons

@[simp] theorem checksum_append (u v : List α) :
    checksum weight (u ++ v) = checksum weight u + checksum weight v := by
  rw [checksum, List.map_append, List.sum_append]
  rfl

theorem map_checksum (f : G →+ H) (l : List α) :
    f (checksum weight l) = checksum (fun a => f (weight a)) l := by
  rw [checksum, map_list_sum, List.map_map]
  rfl

/-- A cut at the end is seen exactly if what is lost has a checksum other than 0. -/
theorem checksum_append_eq_left :
    checksum weight (u ++ v) = checksum weight u ↔ checksum weight v = 0 := by
  rw [checksum_append, add_eq_left]

/-- A cut at the beginning is seen exactly if what is lost has a checksum other than 0. -/
theorem checksum_append_eq_right :
    checksum weight (u ++ v) = checksum weight v ↔ checksum weight u = 0 := by
  rw [checksum_append, add_eq_right]

theorem checksum_substitute {b c : α} :
    checksum weight (u ++ c :: v) = checksum weight (u ++ b :: v) ↔ weight c = weight b := by
  rw [checksum_append, checksum_append, add_right_inj, checksum_cons, checksum_cons, add_left_inj]

end Checksum

/-! ## Single substitutions -/

section Substitution

variable {α : Type*} {s t pre post : List α} {b c : α}

/-- Two lists of the same length that differ at exactly one position. -/
def DiffersOnce (s t : List α) : Prop := t.length = s.length ∧ ∃! j : ℕ, t[j]? ≠ s[j]?

theorem getElem?_substitute_of_ne {j : ℕ} (h : j ≠ pre.length) :
    (pre ++ c :: post)[j]? = (pre ++ b :: post)[j]? := by
  rcases lt_or_gt_of_ne h with hlt | hgt
  · rw [List.getElem?_append_left hlt, List.getElem?_append_left hlt]
  · rw [List.getElem?_append_right hgt.le, List.getElem?_append_right hgt.le]
    obtain ⟨k, hk⟩ : ∃ k, j - pre.length = k + 1 := ⟨j - pre.length - 1, by omega⟩
    rw [hk, List.getElem?_cons_succ, List.getElem?_cons_succ]

theorem differsOnce_substitute (h : c ≠ b) :
    DiffersOnce (pre ++ b :: post) (pre ++ c :: post) := by
  refine ⟨by simp, pre.length, ?_, fun j hj => ?_⟩
  · simpa using h
  · by_contra hne
    exact hj (getElem?_substitute_of_ne hne)

/-- **One position differs** exactly if one item has been substituted. -/
theorem differsOnce_iff : DiffersOnce s t ↔
    ∃ pre b c post, s = pre ++ b :: post ∧ t = pre ++ c :: post ∧ c ≠ b := by
  constructor
  · rintro ⟨hlen, j, hj, hunique⟩
    have hs : j < s.length := by
      by_contra hge
      exact hj (by rw [List.getElem?_eq_none (by omega), List.getElem?_eq_none (by omega)])
    have ht : j < t.length := by omega
    have hne : t[j] ≠ s[j] := fun heq => hj (by
      rw [List.getElem?_eq_getElem ht, List.getElem?_eq_getElem hs, heq])
    have hsame : ∀ i, i ≠ j → t[i]? = s[i]? := fun i hi => by
      by_contra hdiff
      exact hi (hunique i hdiff)
    have htake : t.take j = s.take j := by
      apply List.ext_getElem?
      intro i
      rw [List.getElem?_take, List.getElem?_take]
      split_ifs with hi
      · exact hsame i hi.ne
      · rfl
    have hdrop : t.drop (j + 1) = s.drop (j + 1) := by
      apply List.ext_getElem?
      intro i
      rw [List.getElem?_drop, List.getElem?_drop]
      exact hsame _ (by omega)
    refine ⟨s.take j, s[j], t[j], s.drop (j + 1), ?_, ?_, hne⟩
    · rw [List.getElem_cons_drop, List.take_append_drop]
    · rw [← htake, ← hdrop, List.getElem_cons_drop, List.take_append_drop]
  · rintro ⟨pre, b, c, post, rfl, rfl, hne⟩
    exact differsOnce_substitute hne

/-- **A single substitution changes the checksum** if no two items weigh the same. -/
theorem checksum_ne_of_differsOnce {G : Type*} [AddCommGroup G] {weight : α → G}
    (hweight : Function.Injective weight) (h : DiffersOnce s t) :
    checksum weight t ≠ checksum weight s := by
  obtain ⟨pre, b, c, post, rfl, rfl, hne⟩ := differsOnce_iff.mp h
  rw [ne_eq, checksum_substitute]
  exact fun hw => hne (hweight hw)

theorem append_eq_substitute {x y : List α} (h : x ++ y = pre ++ b :: post) :
    (∃ i, x[i]? = some b ∧ pre = x.take i ∧ post = x.drop (i + 1) ++ y) ∨
      ∃ front, pre = x ++ front ∧ y = front ++ b :: post := by
  rcases List.append_eq_append_iff.mp h with ⟨front, hpre, hy⟩ | ⟨rest, hx, hpost⟩
  · exact Or.inr ⟨front, hpre, hy⟩
  · cases rest with
    | nil => exact Or.inr ⟨[], by simp [hx], by simpa using hpost.symm⟩
    | cons d rest =>
      obtain ⟨rfl, rfl⟩ := List.cons.inj hpost
      refine Or.inl ⟨pre.length, ?_, ?_, ?_⟩
      · simp [hx]
      · simp [hx]
      · simp [hx]

end Substitution

end ErrorDetection
