import Mathlib
import DGDB.Message

/-!
# The decoders of `runConnection`

Every branch of `runConnection` takes its message apart in place: `s` is the offset behind the name
and the header characters, and each field is read at `s` and erased there.
-/

namespace DGDB

/-- `stoi(buffer.substr(s, w))` followed by `erase(s, w)`. -/
def takeNumber (w s : ℤ) (b : Str) : Result (ℤ × Str) := do
  let n ← stoi (← substr b s w)
  let b ← erase b s w
  return (n, b)

/-- A length in `w` digits and then that many bytes, both erased. -/
def takeSized (w s : ℤ) (b : Str) : Result (Str × Str) := do
  let (ss, b) ← takeNumber w s b
  let x ← substr b s ss
  let b ← erase b s ss
  return (x, b)

/-- A single character, erased. -/
def takeChar (s : ℤ) (b : Str) : Result (UInt8 × Str) := do
  let c ← charAt b s
  let b ← erase b s 1
  return (c, b)

section Loop

variable {α : Type}

/-- `while (n--)` around the reader `take`. -/
def takeTurns (take : Str → Result (α × Str)) : ℕ → Str → Result (List α × Str)
  | 0, b => pure ([], b)
  | n + 1, b => do
    let (x, b) ← take b
    let (xs, b) ← takeTurns take n b
    return (x :: xs, b)

/-- `while (n--)` for an `int`. A negative count does not come to 0 while there is input, and a
reader throws when there is none, so the loop then ends in the exception of a later turn. -/
def takeMany (take : Str → Result (α × Str)) (n : ℤ) (b : Str) : Result (List α × Str) :=
  takeTurns take (if n < 0 then b.length + 1 else n.toNat) b

end Loop

/-- `stoi` of a string of one character. -/
def stoiChar (c : UInt8) : Result ℤ := stoi [c]

/-- A counted list of a `C`, skipped when its count is `'0'`. -/
def takeCounted {α : Type} (take : Str → Result (α × Str)) (c : UInt8) (b : Str) :
    Result (List α × Str) :=
  if c = ch '0' then pure ([], b) else do takeMany take (← stoiChar c) b

/-- A field that is there only when `present` says so. -/
def takeOptional (present : Bool) (s : ℤ) (b : Str) : Result (Str × Str) :=
  if present then takeSized 3 s b else pure ([], b)

/-- A key and a value, pushed as an attribute without node name. -/
def takeAttribute (s : ℤ) (b : Str) : Result (Attribute × Str) := do
  let (key, b) ← takeSized 3 s b
  let (value, b) ← takeSized 3 s b
  return (⟨[], key, value⟩, b)

def takeHost (s : ℤ) (b : Str) : Result (Host × Str) := do
  let (repo_info, b) ← takeSized 2 s b
  return (← stringToHost repo_info, b)

/-- The host list of a `C` or a `D`. -/
def takeHosts (s : ℤ) (b : Str) : Result (List Host × Str) := do
  let (repo_count, b) ← takeNumber 1 s b
  takeMany (takeHost s) repo_count b

def takeCondition (s : ℤ) (b : Str) : Result (Condition × Str) := do
  let (key, b) ← takeSized 3 s b
  let (op, b) ← takeChar s b
  let op ← Operator.ofInt (signedChar op - 48)
  let (value, b) ← takeSized 3 s b
  let (is_or, b) ← takeChar s b
  return (⟨key, value, op, decide (signedChar is_or - 48 ≠ 0)⟩, b)

/-- A message taken apart up to its request id: the fields, the offset `s` and what is left. -/
structure Decoded (α : Type) where
  fields : α
  s : ℤ
  s_buffer : Str

/-- The `C` branch, up to `node_name`. -/
def readNode (s_buffer : Str) : Result (Decoded NodeMsg) := do
  let b ← erase s_buffer 0 1
  let (len, b) ← takeNumber 3 0 b
  let s := len + 2
  let (relations, b) ← takeCounted (takeSized 3 s) (← charAt b (s - 2)) b
  let (attributes, b) ← takeCounted (takeAttribute s) (← charAt b (s - 1)) b
  let (request_id, b) ← takeNumber 3 s b
  let node_name ← substr b 0 (s - 2)
  return ⟨⟨node_name, attributes, relations, request_id, []⟩, s, b⟩

/-- The `R` branch, up to `node_name`. -/
def readQuery (s_buffer : Str) : Result (Decoded QueryMsg) := do
  let b ← erase s_buffer 0 1
  let (len, b) ← takeNumber 3 0 b
  let s := len + 5
  let depth ← stoiChar (← charAt b (s - 5))
  let leaf ← stoiChar (← charAt b (s - 4))
  let attr ← stoiChar (← charAt b (s - 3))
  let c₁ ← charAt b (s - 2)
  let c₂ ← charAt b (s - 1)
  let cnt ← stoi [c₁, c₂]
  let (conditions, b) ← takeMany (takeCondition s) cnt b
  let (request_id, b) ← takeNumber 3 s b
  let node_name ← substr b 0 (s - 5)
  return ⟨⟨node_name, depth, decide (leaf ≠ 0), decide (attr ≠ 0), conditions, request_id⟩, s, b⟩

/-- The `U` branch, up to `node_name`. -/
def readUpdate (s_buffer : Str) : Result (Decoded UpdateMsg) := do
  let b ← erase s_buffer 0 1
  let (flag, b) ← takeChar 0 b
  let is_node := decide (signedChar flag - 48 ≠ 0)
  let (s, b) ← takeNumber 3 0 b
  let (attr, b) ← takeOptional (!is_node) s b
  let (set_value, b) ← takeSized 3 s b
  let (request_id, b) ← takeNumber 3 s b
  let node_name ← substr b 0 s
  return ⟨⟨node_name, is_node, set_value, attr, request_id⟩, s, b⟩

/-- The `D` branch, up to `node_name`. -/
def readDelete (s_buffer : Str) : Result (Decoded DeleteMsg) := do
  let b ← erase s_buffer 0 1
  let (flag, b) ← takeChar 0 b
  let object := signedChar flag - 48
  let (s, b) ← takeNumber 3 0 b
  let (attr_or_rel, b) ← takeOptional (decide (0 < object)) s b
  let (request_id, b) ← takeNumber 3 s b
  let node_name ← substr b 0 s
  return ⟨⟨node_name, object, attr_or_rel, request_id, []⟩, s, b⟩

/-- The `M` branch, up to the request id, which is not erased. -/
def readResponse (s_buffer : Str) : Result ResponseMsg := do
  let b ← erase s_buffer 0 1
  let (message, b) ← takeSized 3 0 b
  let request_id ← stoi (← substr b 0 3)
  return ⟨message, request_id⟩

/-- The `I` branch, up to `node_name`. -/
def readInfo (s_buffer : Str) : Result InfoMsg := do
  let b ← erase s_buffer 0 1
  let (len, b) ← takeNumber 3 0 b
  let s := len + 2
  let (relations, b) ← takeMany (takeSized 3 s) (← stoiChar (← charAt b (s - 2))) b
  let (attributes, b) ← takeMany (takeAttribute s) (← stoiChar (← charAt b (s - 1))) b
  let (request_id, b) ← takeNumber 3 s b
  let (valid_node, b) ← takeNumber 1 s b
  let node_name ← substr b 0 (s - 2)
  return ⟨node_name, attributes, relations, request_id, decide (valid_node ≠ 0)⟩

end DGDB
