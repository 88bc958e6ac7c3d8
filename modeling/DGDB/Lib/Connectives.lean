import Mathlib

/-!
# Operands joined from left to right

A value is joined with operands one after the other, by `∨` or by `∧` and without precedence. An
operand settles the value when it is a true one behind an `∨` or a false one behind an `∧`; any
other leaves the value as it is. So the last operand that settles gives the value of the chain.
-/

namespace Connectives

variable {β : Type*}

/-- `v` joined with an outcome, by `∨` if `or` says so and else by `∧`. -/
def join (v or outcome : Bool) : Bool := if or then v || outcome else v && outcome

/-- The value after the operands of `l`, each with whether an `∨` stands before it. -/
def chain (f : β → Bool) (v : Bool) (l : List (Bool × β)) : Bool :=
  l.foldl (fun v x => join v x.1 (f x.2)) v

/-- The value that the last settling operand gives, if there is one. -/
def lastSettled (f : β → Bool) (l : List (Bool × β)) : Option Bool :=
  (l.reverse.find? fun x => f x.2 == x.1).map Prod.fst

section Chain

variable {f g : β → Bool} {v : Bool} {l : List (Bool × β)}

theorem join_of_eq {or outcome : Bool} (h : outcome = or) : join v or outcome = or := by
  subst h
  cases outcome <;> cases v <;> rfl

theorem join_of_ne {or outcome : Bool} (h : outcome ≠ or) : join v or outcome = v := by
  cases or <;> cases outcome <;> cases v <;> first | rfl | exact absurd rfl h

theorem eq_of_ne_of_ne {a b or : Bool} (hab : a ≠ b) (ha : a ≠ or) : b = or := by
  cases a <;> cases b <;> cases or <;> simp_all

@[simp] theorem chain_nil : chain f v [] = v := rfl

theorem chain_append (l₁ l₂ : List (Bool × β)) :
    chain f v (l₁ ++ l₂) = chain f (chain f v l₁) l₂ := by
  unfold chain
  rw [List.foldl_append]

theorem chain_concat (l : List (Bool × β)) (x : Bool × β) :
    chain f v (l ++ [x]) = join (chain f v l) x.1 (f x.2) := by
  rw [chain_append]
  rfl

theorem chain_cons (x : Bool × β) (l : List (Bool × β)) :
    chain f v (x :: l) = chain f (join v x.1 (f x.2)) l := rfl

theorem chain_of_ne (h : ∀ x ∈ l, f x.2 ≠ x.1) : chain f v l = v := by
  induction l with
  | nil => rfl
  | cons x l ih =>
    rw [chain_cons, join_of_ne (h x List.mem_cons_self)]
    exact ih fun y hy => h y (List.mem_cons_of_mem _ hy)

theorem lastSettled_concat (l : List (Bool × β)) (x : Bool × β) :
    lastSettled f (l ++ [x]) = if f x.2 = x.1 then some x.1 else lastSettled f l := by
  unfold lastSettled
  rw [List.reverse_concat, List.find?_cons]
  by_cases h : f x.2 = x.1
  · rw [if_pos h, h, beq_self_eq_true]
    rfl
  · rw [if_neg h, beq_eq_false_iff_ne.mpr h]

/-- **The last settling operand gives the value.** -/
theorem chain_eq (v : Bool) (l : List (Bool × β)) : chain f v l = (lastSettled f l).getD v := by
  induction l using List.reverseRecOn with
  | nil => rfl
  | append_singleton l x ih =>
    rw [chain_concat, lastSettled_concat]
    by_cases h : f x.2 = x.1
    · rw [join_of_eq h, if_pos h]
      rfl
    · rw [join_of_ne h, if_neg h, ih]

/-- Two readings part for good: an operand is true under one of them only, none behind it settles
under either, and under the reading for which it does not settle the value before it is another. -/
def Tips (f g : β → Bool) (v : Bool) (l : List (Bool × β)) : Prop :=
  ∃ pre x post, l = pre ++ x :: post ∧ f x.2 ≠ g x.2 ∧
    (∀ y ∈ post, f y.2 ≠ y.1 ∧ g y.2 ≠ y.1) ∧
    (lastSettled (if f x.2 = x.1 then g else f) pre).getD v ≠ x.1

theorem chain_ne_of_tips (h : Tips f g v l) : chain f v l ≠ chain g v l := by
  obtain ⟨pre, x, post, rfl, hx, hpost, hpre⟩ := h
  rw [chain_append, chain_append, chain_cons, chain_cons, chain_of_ne fun y hy => (hpost y hy).1,
    chain_of_ne fun y hy => (hpost y hy).2]
  rw [← chain_eq] at hpre
  by_cases hf : f x.2 = x.1
  · have hg : g x.2 ≠ x.1 := fun hg => hx (hf.trans hg.symm)
    rw [if_pos hf] at hpre
    rw [join_of_eq hf, join_of_ne hg]
    exact hpre.symm
  · have hg : g x.2 = x.1 := eq_of_ne_of_ne hx hf
    rw [if_neg hf] at hpre
    rwa [join_of_ne hf, join_of_eq hg]

/-- **Where two readings differ.** The value of a chain depends on the reading exactly if the
readings part for good at some operand. -/
theorem chain_ne_iff : chain f v l ≠ chain g v l ↔ Tips f g v l := by
  refine ⟨fun h => ?_, chain_ne_of_tips⟩
  induction l using List.reverseRecOn with
  | nil => exact absurd rfl h
  | append_singleton l x ih =>
    by_cases hx : f x.2 = g x.2
    · -- Both readings settle at `x` or neither does.
      rw [chain_concat, chain_concat, ← hx] at h
      by_cases hf : f x.2 = x.1
      · rw [join_of_eq hf, join_of_eq hf] at h
        exact absurd rfl h
      · rw [join_of_ne hf, join_of_ne hf] at h
        obtain ⟨pre, y, post, rfl, hy, hpost, hpre⟩ := ih h
        refine ⟨pre, y, post ++ [x], by simp, hy, fun z hz => ?_, hpre⟩
        rcases List.mem_append.mp hz with hz | hz
        · exact hpost z hz
        · rw [List.mem_singleton.mp hz]
          exact ⟨hf, hx ▸ hf⟩
    · refine ⟨l, x, [], rfl, hx, by simp, ?_⟩
      rw [chain_concat, chain_concat] at h
      rw [← chain_eq]
      by_cases hf : f x.2 = x.1
      · have hg : g x.2 ≠ x.1 := fun hg => hx (hf.trans hg.symm)
        rw [join_of_eq hf, join_of_ne hg] at h
        rw [if_pos hf]
        exact h.symm
      · have hg : g x.2 = x.1 := eq_of_ne_of_ne hx hf
        rw [join_of_ne hf, join_of_eq hg] at h
        rwa [if_neg hf]

end Chain

end Connectives
