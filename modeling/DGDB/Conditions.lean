import Mathlib
import DGDB.Lib.Connectives
import DGDB.Traversal
import DGDB.Repository

/-!
# The conditions of a query

The repository joins the conditions from left to right, each by the connective given with the one
before it, starting from `depth == 0 || !leaf`. So a condition behind an `|` can make up for the
leaf test, and an operator that reads its arguments the other way round can tip the result.
-/

namespace DGDB

open Connectives GraphSearch

/-! ## The loop as a chain -/

/-- Each condition with whether an `|` stands before it. -/
def joined : Bool → List Condition → List (Bool × Condition)
  | _, [] => []
  | next_or, c :: cs => (next_or, c) :: joined c.is_or cs

theorem evaluate_eq_chain (attributes : List Attribute) (conditions : List Condition)
    (valid_node next_or : Bool) :
    evaluate attributes conditions valid_node next_or =
      chain (fun c => c.holds attributes) valid_node (joined next_or conditions) := by
  induction conditions generalizing valid_node next_or with
  | nil => rfl
  | cons c conditions ih =>
    rw [evaluate, joined, chain_cons]
    exact ih _ _

/-! ## The leaf test -/

/-- The names of `log` that a response lists. -/
def listed (valid : Str → ℤ → Bool) (log : List (Str × ℕ)) : List (Str × ℕ) :=
  log.filter fun a => valid a.1 a.2

/-- A query with `--leaf` and two conditions on the same key. -/
def leafQuery (is_or : Bool) : QueryMsg :=
  ⟨str "a", 2, true, false,
    [⟨str "k", str "v", .equal, is_or⟩, ⟨str "k", str "w", .equal, false⟩], 0⟩

/-- One depth above the leaves, a condition that fails and one behind an `|` that holds. -/
theorem leaf_filter_fails : validNode 1 true (leafQuery true).conditions
    [⟨str "a", str "k", str "w"⟩] = true ∧
      ¬ ∀ (depth : ℤ) (attributes : List Attribute) (conditions : List Condition),
        validNode depth true conditions attributes = true → depth = 0 := by
  have hvalid : validNode 1 true (leafQuery true).conditions
      [⟨str "a", str "k", str "w"⟩] = true := by decide +kernel
  refine ⟨hvalid, fun h => ?_⟩
  exact absurd (h 1 _ _ hvalid) (by decide)

/-! ## The operators -/

/-- A condition as the protocol describes it: `LIKE` asks whether the stored value contains the
given text. -/
def Condition.means (c : Condition) (attributes : List Attribute) : Bool :=
  match attributes.find? fun a => a.key == c.key with
  | none => false
  | some a =>
    match c.op with
    | .equal => decide (a.value = c.value)
    | .less => decide (a.value < c.value)
    | .greater => decide (c.value < a.value)
    | .like => decide (c.value <:+: a.value)

/-- The conditions joined from left to right, each with the next by its own connective. -/
def verdict (attributes : List Attribute) : List Condition → Bool
  | [] => true
  | c :: cs => ((c :: cs).zip cs).foldl
      (fun v p => if p.1.is_or then v || p.2.means attributes else v && p.2.means attributes)
      (c.means attributes)

theorem lessThan_eq (s t : Str) : lessThan s t = decide (s < t) := by
  induction s generalizing t with
  | nil => cases t <;> simp [lessThan]
  | cons a s ih =>
    cases t with
    | nil => simp [lessThan]
    | cons b t =>
      rw [lessThan, ih]
      by_cases hab : a < b
      · simp [hab, List.cons_lt_cons_iff]
      · by_cases hba : b < a
        · have hne : a ≠ b := fun h => hab (h ▸ h ▸ hba)
          simp [hab, hba, hne, List.cons_lt_cons_iff]
        · have heq : a = b := UInt8.le_antisymm (UInt8.not_lt.mp hba) (UInt8.not_lt.mp hab)
          simp [heq]

theorem contains_eq (s text : Str) : contains s text = decide (text <:+: s) := by
  rw [contains, Bool.eq_iff_iff, List.any_eq_true, decide_eq_true_iff,
    List.infix_iff_prefix_suffix]
  constructor
  · rintro ⟨t, ht, hprefix⟩
    exact ⟨t, List.isPrefixOf_iff_prefix.mp hprefix, (List.mem_tails _ _).mp ht⟩
  · rintro ⟨t, hprefix, hsuffix⟩
    exact ⟨t, (List.mem_tails _ _).mpr hsuffix, List.isPrefixOf_iff_prefix.mpr hprefix⟩

/-- One of the stored value and the given text of a `LIKE` contains the other, but not both ways. -/
def Misread (attributes : List Attribute) (c : Condition) : Prop :=
  c.op = .like ∧ ∃ a, attributes.find? (fun a => a.key == c.key) = some a ∧
    ¬ (a.value <:+: c.value ↔ c.value <:+: a.value)

theorem holds_ne_means_iff {attributes : List Attribute} {c : Condition} :
    c.holds attributes ≠ c.means attributes ↔ Misread attributes c := by
  unfold Condition.holds Condition.means Misread
  cases hfind : attributes.find? fun a => a.key == c.key with
  | none => simp
  | some a =>
    cases hop : c.op with
    | equal => simp [beq_eq_decide]
    | less => simp [lessThan_eq]
    | greater => simp [lessThan_eq]
    | like => simp [contains_eq]

theorem verdict_eq_chain (attributes : List Attribute) (conditions : List Condition) :
    verdict attributes conditions =
      chain (fun c => c.means attributes) true (joined false conditions) := by
  have hloop : ∀ (c : Condition) (cs : List Condition) (v : Bool),
      ((c :: cs).zip cs).foldl (fun v p =>
        if p.1.is_or then v || p.2.means attributes else v && p.2.means attributes) v =
      chain (fun c => c.means attributes) v (joined c.is_or cs) := by
    intro c cs
    induction cs generalizing c with
    | nil => exact fun _ => rfl
    | cons d cs ih =>
      intro v
      rw [List.zip_cons_cons, List.foldl_cons, ih d, joined, chain_cons]
      rfl
  cases conditions with
  | nil => rfl
  | cons c cs =>
    rw [verdict, hloop, joined, chain_cons]
    rfl

/-- A misread condition tips the result: none behind it settles under either reading, and before it
the last one that settles under the reading for which it does not is joined by the other connective.
Where none settles, the start counts as joined by `|`. -/
def Tipped (attributes : List Attribute) (conditions : List Condition) : Prop :=
  ∃ pre p post, joined false conditions = pre ++ p :: post ∧ Misread attributes p.2 ∧
    (∀ q ∈ post, q.2.holds attributes ≠ q.1 ∧ q.2.means attributes ≠ q.1) ∧
    (lastSettled (if p.2.holds attributes = p.1 then fun c => c.means attributes
      else fun c => c.holds attributes) pre).getD true ≠ p.1

/-- **The conditions are judged as described**, joined from left to right, exactly if no misread
`LIKE` tips the result. What `EQUAL` accepts `LIKE` accepts, and a stored value can be extended
without losing a match exactly as long as the given text contains all of it. -/
theorem conditions_judged_iff (depth : ℤ) (attributes : List Attribute)
    (conditions : List Condition) :
    (validNode depth false conditions attributes = verdict attributes conditions ↔
      ¬ Tipped attributes conditions) ∧
    (∀ key value is_or, Condition.holds ⟨key, value, .equal, is_or⟩ attributes = true →
      Condition.holds ⟨key, value, .like, is_or⟩ attributes = true) ∧
    ∀ (key value w : Str) (is_or : Bool) (pre post : List Attribute) (a : Attribute),
      (∀ x ∈ pre, x.key ≠ key) → a.key = key → a.value <:+: w →
      ((Condition.holds ⟨key, value, .like, is_or⟩ (pre ++ a :: post) = true →
          Condition.holds ⟨key, value, .like, is_or⟩
            (pre ++ { a with value := w } :: post) = true) ↔
        (a.value <:+: value → w <:+: value)) := by
  refine ⟨?_, ?_, ?_⟩
  · have hstart : (decide (depth = 0) || !false) = true := by simp
    rw [validNode, hstart, evaluate_eq_chain, verdict_eq_chain, ← not_iff_not, not_not, ← ne_eq,
      chain_ne_iff]
    unfold Tips Tipped
    simp only [holds_ne_means_iff]
  · intro key value is_or h
    unfold Condition.holds at h ⊢
    cases hfind : attributes.find? fun a => a.key == key with
    | none =>
      rw [hfind] at h
      cases h
    | some a =>
      simp only [hfind, beq_iff_eq] at h ⊢
      simp [contains_eq, h]
  · intro key value w is_or pre post a hpre hkey _
    have hfind : ∀ b : Attribute, b.key = key →
        (pre ++ b :: post).find? (fun a => a.key == key) = some b := by
      intro b hb
      rw [List.find?_append, List.find?_eq_none.mpr (by simpa using hpre), List.find?_cons_of_pos]
      · rfl
      · simp [hb]
    unfold Condition.holds
    simp only [hfind a hkey, hfind { a with value := w } hkey, contains_eq, decide_eq_true_iff]

/-- The protocol's example with the stored value behind the pattern: the condition fails, and the
value that is only the beginning of the text matches. -/
theorem like_reversed :
    validNode 0 false [⟨str "Grado academico", str "MSc", .like, false⟩]
        [⟨str "a", str "Grado academico", str "MSc in Physics"⟩] = false ∧
      verdict [⟨str "a", str "Grado academico", str "MSc in Physics"⟩]
        [⟨str "Grado academico", str "MSc", .like, false⟩] = true ∧
      validNode 0 false [⟨str "Grado academico", str "MSc", .like, false⟩]
        [⟨str "a", str "Grado academico", str "MSc"⟩] = true := by
  decide +kernel

end DGDB
