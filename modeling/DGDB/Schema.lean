import Mathlib
import DGDB.Text

/-!
# The database schema

Conditions of a query, the rows of the three tables, and the repository's decision whether a node
answers a query.
-/

namespace DGDB

/-- `Condition::Operator`. -/
inductive Operator
  | equal
  | less
  | greater
  | like
  deriving DecidableEq, Repr

namespace Operator

/-- `int(op)`. -/
def toNat : Operator → ℕ
  | equal => 0
  | less => 1
  | greater => 2
  | like => 3

/-- The cast `Condition::Operator(i)`: undefined outside the enumeration. -/
def ofInt (i : ℤ) : Result Operator :=
  if i = 0 then pure equal
  else if i = 1 then pure less
  else if i = 2 then pure greater
  else if i = 3 then pure like
  else throw .undefined

theorem toNat_lt (op : Operator) : op.toNat < 10 := by
  cases op <;> decide

@[simp] theorem ofInt_toNat (op : Operator) : ofInt op.toNat = .ok op := by
  cases op <;> rfl

end Operator

/-- `struct Condition`. -/
structure Condition where
  key : Str
  value : Str
  op : Operator
  is_or : Bool
  deriving DecidableEq, Repr

/-- `struct Attribute`, a row of the table `Attributes`. -/
structure Attribute where
  node_name : Str
  key : Str
  value : Str
  deriving DecidableEq, Repr

/-- `struct Relation`, a row of the table `Relations`. -/
structure Relation where
  node_name1 : Str
  node_name2 : Str
  deriving DecidableEq, Repr

/-- The tables of a repository, rows in the order of their insertion. Of a row of `Nodes` only the
unique name is read. -/
structure Storage where
  nodes : List Str
  attributes : List Attribute
  relations : List Relation
  deriving DecidableEq, Repr

namespace Storage

def empty : Storage := ⟨[], [], []⟩

/-- `storage.insert` of a node the table does not have yet. -/
def insertNode (st : Storage) (name : Str) : Storage :=
  if name ∈ st.nodes then st else { st with nodes := st.nodes ++ [name] }

def insertAttribute (st : Storage) (a : Attribute) : Storage :=
  { st with attributes := st.attributes ++ [a] }

def insertRelation (st : Storage) (r : Relation) : Storage :=
  { st with relations := st.relations ++ [r] }

/-- The rows of `Attributes` with the given node name. -/
def attributesOf (st : Storage) (name : Str) : List Attribute :=
  st.attributes.filter fun a => a.node_name == name

/-- The second names of the rows of `Relations` with the given first name. -/
def relationsOf (st : Storage) (name : Str) : List Str :=
  (st.relations.filter fun r => r.node_name1 == name).map Relation.node_name2

theorem mem_insertNode {st : Storage} {name x : Str} :
    x ∈ (st.insertNode name).nodes ↔ x ∈ st.nodes ∨ x = name := by
  unfold insertNode
  split_ifs with h
  · exact ⟨Or.inl, fun hx => hx.elim id fun heq => heq ▸ h⟩
  · rw [List.mem_append, List.mem_singleton]

@[simp] theorem relations_insertNode (st : Storage) (name : Str) :
    (st.insertNode name).relations = st.relations := by
  unfold insertNode
  split_ifs <;> rfl

@[simp] theorem attributes_insertNode (st : Storage) (name : Str) :
    (st.insertNode name).attributes = st.attributes := by
  unfold insertNode
  split_ifs <;> rfl

@[simp] theorem relations_insertAttribute (st : Storage) (a : Attribute) :
    (st.insertAttribute a).relations = st.relations := rfl

@[simp] theorem relations_insertRelation (st : Storage) (r : Relation) :
    (st.insertRelation r).relations = st.relations ++ [r] := rfl

theorem mem_relationsOf {st : Storage} {x y : Str} :
    y ∈ st.relationsOf x ↔ ⟨x, y⟩ ∈ st.relations := by
  simp only [relationsOf, List.mem_map, List.mem_filter, beq_iff_eq]
  constructor
  · rintro ⟨⟨a, b⟩, ⟨hmem, rfl⟩, rfl⟩
    exact hmem
  · intro h
    exact ⟨⟨x, y⟩, ⟨h, rfl⟩, rfl⟩

end Storage

/-! ## Conditions -/

/-- Whether `text` occurs in `s`: `s.find(text) != npos`. -/
def contains (s text : Str) : Bool := s.tails.any fun t => text.isPrefixOf t

/-- The lexicographic order of `std::string`, bytes compared as unsigned. -/
def lessThan : Str → Str → Bool
  | _, [] => false
  | [], _ :: _ => true
  | a :: as, b :: bs => if a < b then true else if b < a then false else lessThan as bs

/-- One condition judged on the attributes of a node: the first row with its key decides. -/
def Condition.holds (c : Condition) (attributes : List Attribute) : Bool :=
  match attributes.find? fun a => a.key == c.key with
  | none => false
  | some a =>
    match c.op with
    | .equal => a.value == c.value
    | .less => lessThan a.value c.value
    | .greater => lessThan c.value a.value
    | .like => contains c.value a.value

/-- The loop over the conditions: `next_lop` joins the result so far with the next condition. -/
def evaluate (attributes : List Attribute) : List Condition → Bool → Bool → Bool
  | [], valid_node, _ => valid_node
  | c :: cs, valid_node, next_or =>
    evaluate attributes cs
      (if next_or then valid_node || c.holds attributes else valid_node && c.holds attributes)
      c.is_or

/-- `valid_node`, as the repository's `R` branch computes it. -/
def validNode (depth : ℤ) (leaf : Bool) (conditions : List Condition)
    (attributes : List Attribute) : Bool :=
  evaluate attributes conditions (decide (depth = 0) || !leaf) false

end DGDB
