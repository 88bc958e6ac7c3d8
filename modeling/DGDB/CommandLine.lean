import Mathlib
import DGDB.Identity

/-!
# The command line

`setNode`, `setQuery`, `setUpdate` and `setDelete` read the arguments of a command and send a `C`,
an `R`, a `U` or a `D`. They check the flags and nothing else. A command is carried if it is
refused, or if the server decodes what the arguments give.
-/

namespace DGDB

/-! ## The parsers -/

/-- The result of an operation on `int`s: undefined if it overflows. -/
def int32 (i : ℤ) : Result ℤ := if -2 ^ 31 ≤ i ∧ i < 2 ^ 31 then pure i else throw .undefined

/-- `atoi(t)`: 0 without a number, undefined for a number that is no `int`. -/
def atoi (t : Str) : Result ℤ :=
  match stoi t with
  | .ok v => pure v
  | .error .invalidArgument => pure 0
  | .error _ => throw .undefined

/-- `b.find(c, pos)` as an `int`. -/
def findFrom (c : UInt8) (b : Str) (pos : ℤ) : ℤ :=
  match (b.drop (toSizeT pos)).findIdx? (· == c) with
  | some i => toInt ((toSizeT pos + i : ℕ) : ℤ)
  | none => -1

/-- The text of an `-a`: the pair around the first `=`, or twice the whole text without one. -/
def readPair (arg : Str) : Result Attribute := do
  let equal_pos := findChar (ch '=') arg
  let key ← substr arg 0 equal_pos
  let value ← substr arg (← int32 (equal_pos + 1)) (2 ^ 64 - 1)
  return ⟨[], key, value⟩

/-- The loop of `setNode`, two arguments a turn. -/
def nodeArgs : List Str → List Attribute → List Str → Bool →
    Result (List Attribute × List Str × Bool)
  | [], attributes, relations, error => pure (attributes, relations, error)
  | [_], attributes, relations, _ => pure (attributes, relations, true)
  | flag :: arg :: args, attributes, relations, error =>
    if flag = str "-a" then do
      let pair ← readPair arg
      nodeArgs args (attributes ++ [pair]) relations error
    else if flag = str "-r" then nodeArgs args attributes (relations ++ [arg]) error
    else nodeArgs args attributes relations true

/-- `setNode`: the message it sends, `none` if it returns false. -/
def setNode : List Str → Result (Option Msg)
  | [] => throw .undefined
  | nameA :: args => do
    let (attributes, relations, error) ← nodeArgs args [] [] false
    if error then return none
    return some (.node ⟨nameA, attributes, relations, 0, []⟩)

/-- The arguments of the constructor of `Condition`. -/
structure ConditionArgs where
  key : Str
  value : Str
  op : UInt8
  lo : UInt8

/-- The operator of a character. -/
def Operator.ofChar (c : UInt8) : Option Operator :=
  if c = ch '=' then some equal
  else if c = ch '<' then some less
  else if c = ch '>' then some greater
  else if c = ch '%' then some like
  else none

/-- The constructor of `Condition`. It leaves `op` unset for any other character, and
`parseNewQuery` reads it. -/
def ConditionArgs.toCondition (c : ConditionArgs) : Result Condition :=
  match Operator.ofChar c.op with
  | some op => pure ⟨c.key, c.value, op, c.lo == ch '|'⟩
  | none => throw .undefined

/-- `behind < arg.size() ? arg[behind] : '&'`. -/
def connective (arg : Str) (behind : ℤ) : Result UInt8 :=
  if toSizeT behind < arg.length then charAt arg behind else pure (ch '&')

/-- The text of a `-c`. -/
def readCondition (arg : Str) : Result ConditionArgs := do
  let space_pos := findChar (ch ' ') arg
  let start ← int32 (space_pos + 3)
  let found := findFrom (ch ' ') arg start
  let space_pos_2 := if found = -1 then toInt arg.length else found
  let key ← substr arg 0 space_pos
  let value ← substr arg start (← int32 (space_pos_2 - space_pos - 3))
  let op ← charAt arg (space_pos + 1)
  let lo ← connective arg (← int32 (space_pos_2 + 1))
  return ⟨key, value, op, lo⟩

/-- The variables of `setQuery`. -/
structure QueryArgs where
  depth : ℤ
  leaf : Bool
  attr : Bool
  conditions : List ConditionArgs
  error : Bool

/-- The loop of `setQuery`. -/
def queryArgs : List Str → QueryArgs → Result QueryArgs
  | [], q => pure q
  | [flag], q =>
    if flag = str "--leaf" then pure { q with leaf := true }
    else if flag = str "--attr" then pure { q with attr := true }
    else pure { q with error := true }
  | flag :: arg :: args, q =>
    if flag = str "-d" then do queryArgs args { q with depth := ← atoi arg }
    else if flag = str "-c" then do
      queryArgs args { q with conditions := q.conditions ++ [← readCondition arg] }
    else if flag = str "--leaf" then queryArgs (arg :: args) { q with leaf := true }
    else if flag = str "--attr" then queryArgs (arg :: args) { q with attr := true }
    else queryArgs (arg :: args) { q with error := true }

/-- `setQuery`. -/
def setQuery : List Str → Result (Option Msg)
  | [] => throw .undefined
  | nameA :: args => do
    let q ← queryArgs args ⟨0, false, false, [], false⟩
    if q.error then return none
    let conditions ← q.conditions.mapM ConditionArgs.toCondition
    return some (.query ⟨nameA, q.depth, q.leaf, q.attr, conditions, 0⟩)

/-- `setUpdate`, which looks at the first two arguments behind the name. -/
def setUpdate : List Str → Result (Option Msg)
  | [] => throw .undefined
  | nameA :: flag :: arg :: _ =>
    if flag = str "--attr" then do
      let pair ← readPair arg
      return some (.update ⟨nameA, false, pair.value, pair.key, 0⟩)
    else if flag = str "--name" then pure (some (.update ⟨nameA, true, arg, [], 0⟩))
    else pure none
  | _ => pure none

/-- `setDelete`, which looks at the first two arguments behind the name. -/
def setDelete : List Str → Result (Option Msg)
  | [] => throw .undefined
  | [nameA] => pure (some (.delete ⟨nameA, 0, [], 0, []⟩))
  | nameA :: flag :: arg :: _ =>
    if flag = str "--relation" then pure (some (.delete ⟨nameA, 2, arg, 0, []⟩))
    else if flag = str "--attr" then pure (some (.delete ⟨nameA, 1, arg, 0, []⟩))
    else pure none
  | _ => pure none

/-- The four commands of a client, by the letter `argv[1][0]`. -/
inductive Command
  | node
  | query
  | update
  | delete

def Command.set : Command → List Str → Result (Option Msg)
  | node => setNode
  | query => setQuery
  | update => setUpdate
  | delete => setDelete

/-! ## What the arguments give -/

/-- An argument behind the name, together with its text if it takes one. -/
inductive Opt
  | value (flag arg : Str)
  | switch (flag : Str)
  | invalid
  deriving DecidableEq

/-- The options of a node: every one takes a text. -/
def nodeOptions : List Str → List Opt
  | [] => []
  | [_] => [.invalid]
  | flag :: arg :: args =>
    (if flag = str "-a" ∨ flag = str "-r" then .value flag arg else .invalid) :: nodeOptions args

/-- The options of a query: `-d` and `-c` take a text. -/
def queryOptions : List Str → List Opt
  | [] => []
  | [flag] => [if flag = str "--leaf" ∨ flag = str "--attr" then .switch flag else .invalid]
  | flag :: arg :: args =>
    if flag = str "-d" ∨ flag = str "-c" then .value flag arg :: queryOptions args
    else (if flag = str "--leaf" ∨ flag = str "--attr" then .switch flag else .invalid) ::
      queryOptions (arg :: args)

/-- The texts of a flag, in order. -/
def textsOf (flag : Str) (options : List Opt) : List Str :=
  options.filterMap fun o => match o with
    | .value f arg => if f = flag then some arg else none
    | _ => none

/-- A pair split at the first `=`. -/
def IsPair (arg : Str) (a : Attribute) : Prop :=
  arg = a.key ++ ch '=' :: a.value ∧ ch '=' ∉ a.key ∧ a.node_name = []

/-- Key, operator and value between single spaces; behind a further space the connective. -/
def IsCondition (arg : Str) (c : Condition) : Prop :=
  ∃ op tail, arg = c.key ++ ch ' ' :: op :: ch ' ' :: (c.value ++ tail) ∧
    ch ' ' ∉ c.key ∧ ch ' ' ∉ c.value ∧ Operator.ofChar op = some c.op ∧
    (tail = [] ∧ c.is_or = false ∨
      ∃ lo, tail = ch ' ' :: lo ∧ c.is_or = (lo.headD (ch '&') == ch '|'))

/-- The command that the arguments behind the name give, as a message without id and hosts. The
last depth counts, as `atoi` reads it. -/
def Gives (nameA : Str) (args : List Str) : Command → Msg → Prop
  | .node, m => ∃ attributes, .invalid ∉ nodeOptions args ∧
      List.Forall₂ IsPair (textsOf (str "-a") (nodeOptions args)) attributes ∧
      m = .node ⟨nameA, attributes, textsOf (str "-r") (nodeOptions args), 0, []⟩
  | .query, m => ∃ depths conditions, .invalid ∉ queryOptions args ∧
      List.Forall₂ (fun arg d => atoi arg = .ok d) (textsOf (str "-d") (queryOptions args)) depths ∧
      List.Forall₂ IsCondition (textsOf (str "-c") (queryOptions args)) conditions ∧
      m = .query ⟨nameA, depths.getLastD 0, decide (.switch (str "--leaf") ∈ queryOptions args),
        decide (.switch (str "--attr") ∈ queryOptions args), conditions, 0⟩
  | .update, m => (∃ v, args = [str "--name", v] ∧ m = .update ⟨nameA, true, v, [], 0⟩) ∨
      ∃ arg a, args = [str "--attr", arg] ∧ IsPair arg a ∧
        m = .update ⟨nameA, false, a.value, a.key, 0⟩
  | .delete, m => args = [] ∧ m = .delete ⟨nameA, 0, [], 0, []⟩ ∨
      (∃ rel, args = [str "--relation", rel] ∧ m = .delete ⟨nameA, 2, rel, 0, []⟩) ∨
      ∃ attr, args = [str "--attr", attr] ∧ m = .delete ⟨nameA, 1, attr, 0, []⟩

/-- The server's branch for a command, up to the fields it has decoded. -/
def decoded (s_buffer : Str) : Result Msg :=
  let c := s_buffer.headD 0
  if c = ch 'C' then do return .node (← readNode s_buffer).fields
  else if c = ch 'R' then do return .query (← readQuery s_buffer).fields
  else if c = ch 'U' then do return .update (← readUpdate s_buffer).fields
  else if c = ch 'D' then do return .delete (← readDelete s_buffer).fields
  else throw .invalidArgument

section Loops

variable {attributes : List Attribute} {relations : List Str} {error : Bool}

@[simp] theorem textsOf_nil (flag : Str) : textsOf flag [] = [] := rfl

@[simp] theorem textsOf_switch (flag f : Str) (options : List Opt) :
    textsOf flag (.switch f :: options) = textsOf flag options := rfl

end Loops

/-! ## Readable texts -/

theorem int32_ok {i : ℤ} (h : -2 ^ 31 ≤ i ∧ i < 2 ^ 31) : int32 i = .ok i := if_pos h

theorem findFrom_append {c : UInt8} {p x r : Str} {pos : ℤ} (hpos : pos = p.length) (hc : c ∉ x)
    (hlen : (p ++ x).length < 2 ^ 31) :
    findFrom c (p ++ (x ++ c :: r)) pos = ((p ++ x).length : ℤ) := by
  rw [List.length_append] at hlen ⊢
  have hsize : toSizeT pos = p.length := by
    rw [hpos]
    exact toSizeT_natCast (by omega)
  unfold findFrom
  rw [hsize, List.drop_left, findIdx?_append_cons hc]
  exact toInt_natCast hlen

theorem findFrom_none {c : UInt8} {p x : Str} {pos : ℤ} (hpos : pos = p.length) (hc : c ∉ x)
    (hlen : p.length < 2 ^ 64) : findFrom c (p ++ x) pos = -1 := by
  have hsize : toSizeT pos = p.length := by
    rw [hpos]
    exact toSizeT_natCast hlen
  unfold findFrom
  rw [hsize, List.drop_left, findIdx?_eq_none_of_not_mem hc]

/-- The end of the value in the text of a condition, `space_pos_2`. -/
theorem findFrom_value {p value tail : Str} {pos : ℤ} (hpos : pos = p.length)
    (hvalue : ch ' ' ∉ value) (hlen : (p ++ value).length < 2 ^ 31)
    (htail : tail = [] ∨ ∃ lo, tail = ch ' ' :: lo) :
    (if findFrom (ch ' ') (p ++ (value ++ tail)) pos = -1 then
        toInt (p ++ (value ++ tail)).length
      else findFrom (ch ' ') (p ++ (value ++ tail)) pos) = ((p ++ value).length : ℤ) := by
  rcases htail with rfl | ⟨lo, rfl⟩
  · rw [List.append_nil, if_pos (findFrom_none hpos hvalue (by simp at hlen; omega))]
    exact toInt_natCast hlen
  · rw [findFrom_append hpos hvalue hlen, if_neg (by omega)]

theorem connective_nil {e : Str} {behind : ℤ} (hbehind : behind = e.length + 1)
    (hlen : e.length < 2 ^ 31) : connective e behind = .ok (ch '&') := by
  have hsize : toSizeT behind = e.length + 1 := by
    rw [hbehind]
    exact toSizeT_natCast (n := e.length + 1) (by omega)
  unfold connective
  rw [hsize, if_neg (by omega)]
  rfl

theorem connective_cons {e : Str} {behind : ℤ} (hbehind : behind = e.length + 1)
    (hlen : e.length < 2 ^ 31) (lo : Str) :
    connective (e ++ ch ' ' :: lo) behind = .ok (lo.headD (ch '&')) := by
  have hsize : toSizeT behind = e.length + 1 := by
    rw [hbehind]
    exact toSizeT_natCast (n := e.length + 1) (by omega)
  unfold connective
  cases lo with
  | nil =>
    rw [hsize, if_neg (by simp)]
    rfl
  | cons c lo =>
    rw [hsize, if_pos (by simp)]
    have h := charAt_append (p := e ++ [ch ' ']) (c := c) (r := lo) (s := behind)
      (by simp [hbehind]) (by simp; omega)
    rwa [List.append_assoc, List.singleton_append] at h

/-- `setQuery` reads the condition `c` from the text of a `-c`. -/
def ParsedTo (arg : Str) (c : Condition) : Prop :=
  ∃ args, readCondition arg = .ok args ∧ args.toCondition = .ok c

theorem readCondition_ok {arg : Str} {c : Condition} (h : IsCondition arg c)
    (hc : c.key.length + c.value.length + 4 < 2 ^ 31) : ParsedTo arg c := by
  obtain ⟨op, tail, harg, hkey, hvalue, hop, htail⟩ := h
  set p := c.key ++ [ch ' ', op, ch ' '] with hp
  have hplen : p.length = c.key.length + 3 := by simp [hp]
  have hsplit : arg = p ++ (c.value ++ tail) := by simp [harg, hp]
  have hpos : findChar (ch ' ') arg = (c.key.length : ℤ) := by
    rw [harg]
    exact findChar_append hkey (by omega)
  have hstart : (c.key.length : ℤ) + 3 = p.length := by omega
  have hend : (if findFrom (ch ' ') arg ((c.key.length : ℤ) + 3) = -1 then toInt arg.length
      else findFrom (ch ' ') arg ((c.key.length : ℤ) + 3)) = ((p ++ c.value).length : ℤ) := by
    rw [hsplit]
    exact findFrom_value hstart hvalue (by rw [List.length_append]; omega)
      (htail.imp And.left fun ⟨lo, hlo, _⟩ => ⟨lo, hlo⟩)
  have hfirst : substr arg 0 (c.key.length : ℤ) = .ok c.key := by
    rw [harg]
    exact substr_append (p := []) rfl rfl (by simp; omega)
  have hsecond : substr arg ((c.key.length : ℤ) + 3)
      (((p ++ c.value).length : ℤ) - c.key.length - 3) = .ok c.value := by
    rw [hsplit]
    apply substr_append hstart
    · rw [List.length_append]
      omega
    · rw [List.length_append]
      omega
  have hoperator : charAt arg ((c.key.length : ℤ) + 1) = .ok op := by
    have h := charAt_append (p := c.key ++ [ch ' ']) (c := op) (r := ch ' ' :: (c.value ++ tail))
      (s := (c.key.length : ℤ) + 1) (by simp) (by simp; omega)
    rwa [List.append_assoc, List.singleton_append, ← harg] at h
  obtain ⟨lo, hlo, hor⟩ : ∃ lo, connective arg (((p ++ c.value).length : ℤ) + 1) = .ok lo ∧
      c.is_or = (lo == ch '|') := by
    have hlen : (p ++ c.value).length < 2 ^ 31 := by
      rw [List.length_append]
      omega
    rcases htail with ⟨rfl, hor⟩ | ⟨lo, rfl, hor⟩
    · refine ⟨ch '&', ?_, hor⟩
      rw [hsplit, List.append_nil]
      exact connective_nil rfl hlen
    · refine ⟨lo.headD (ch '&'), ?_, hor⟩
      rw [hsplit, ← List.append_assoc]
      exact connective_cons rfl hlen lo
  refine ⟨⟨c.key, c.value, op, lo⟩, ?_, ?_⟩
  · have hlen : (p ++ c.value).length = c.key.length + 3 + c.value.length := by
      rw [List.length_append, hplen]
    unfold readCondition
    simp only [hpos]
    rw [int32_ok (by omega), ok_bind]
    simp only [hend]
    rw [hfirst, ok_bind, int32_ok (by omega), ok_bind, hsecond, ok_bind, hoperator, ok_bind,
      int32_ok (by omega), ok_bind, hlo, ok_bind]
    rfl
  · unfold ConditionArgs.toCondition
    simp only [hop, ← hor]
    rfl

/-! ## Refused commands -/

section Refused

variable {nameA : Str} {args : List Str}

end Refused

/-! ## Commands that fit -/

section Fits

variable {nameA : Str} {args : List Str} {command : Command} {m : Msg}

theorem Gives.isRequest (h : Gives nameA args command m) : m.IsRequest := by
  cases command with
  | node =>
    obtain ⟨attributes, -, -, rfl⟩ := h
    exact ⟨rfl, rfl⟩
  | query =>
    obtain ⟨depths, conditions, -, -, -, rfl⟩ := h
    rfl
  | update =>
    rcases h with ⟨v, -, rfl⟩ | ⟨arg, a, -, -, rfl⟩
    · rfl
    · rfl
  | delete =>
    rcases h with ⟨-, rfl⟩ | ⟨rel, -, rfl⟩ | ⟨attr, -, rfl⟩
    · exact ⟨rfl, rfl⟩
    · exact ⟨rfl, rfl⟩
    · exact ⟨rfl, rfl⟩

theorem Gives.fits {s_buffer : Str} (h : Gives nameA args command m)
    (hlen : s_buffer.length < 2 ^ 63) (hdecoded : decoded s_buffer = .ok m) : m.Fits := by
  have hrequest := h.isRequest
  have hobject : ∀ d, m = .delete d → 0 ≤ d.object ∧ d.object ≤ 9 := by
    rintro d rfl
    cases command with
    | node => obtain ⟨attributes, -, -, hm⟩ := h; cases hm
    | query => obtain ⟨depths, conditions, -, -, -, hm⟩ := h; cases hm
    | update => rcases h with ⟨v, -, hm⟩ | ⟨arg, a, -, -, hm⟩ <;> cases hm
    | delete =>
      rcases h with ⟨-, hm⟩ | ⟨rel, -, hm⟩ | ⟨attr, -, hm⟩
      all_goals
        cases hm
        norm_num
  unfold decoded at hdecoded
  simp only at hdecoded
  split_ifs at hdecoded
  · obtain ⟨d, hd, hm⟩ := bind_eq_ok.mp hdecoded
    cases hm
    have hfit := readNode_fits hlen hd
    rwa [← hrequest.1] at hfit
  · obtain ⟨d, hd, hm⟩ := bind_eq_ok.mp hdecoded
    cases hm
    have hfit := readQuery_fits hlen hd
    rwa [← hrequest] at hfit
  · obtain ⟨d, hd, hm⟩ := bind_eq_ok.mp hdecoded
    cases hm
    have hfit := readUpdate_fits hlen hd
    rwa [← hrequest] at hfit
  · obtain ⟨d, hd, hm⟩ := bind_eq_ok.mp hdecoded
    cases hm
    obtain ⟨hname, hattr⟩ := readDelete_fits hlen hd
    obtain ⟨hid, hrepos⟩ := hrequest
    refine ⟨hname, hobject _ rfl, hattr, ?_, ?_, ?_⟩
    · rw [hid]
      decide
    · rw [hrepos]
      exact Nat.zero_le 9
    · rw [hrepos]
      exact List.forall_mem_nil _

end Fits

theorem int32_eq_ok {i v : ℤ} : int32 i = .ok v ↔ (-2 ^ 31 ≤ i ∧ i < 2 ^ 31) ∧ v = i := by
  unfold int32
  split_ifs with h
  · rw [pure_eq_ok, Except.ok.injEq]
    exact ⟨fun hv => ⟨h, hv.symm⟩, fun hv => hv.2.symm⟩
  · exact iff_of_false (fun hv => by cases hv) fun hv => h hv.1

/-- The conversion to `int` and on to `size_t` gives a length only if it has not cut it. -/
theorem toSizeT_toInt_eq {j n : ℕ} (h : toSizeT (toInt j) = n) (hn : n < 2 ^ 63) :
    toInt j = n ∧ n ≤ j := by
  unfold toSizeT at h
  unfold toInt Int.bmod at h ⊢
  simp only at h ⊢
  split_ifs at h ⊢ <;> omega

theorem take_append_eq_left {α : Type} {x r : List α} {n : ℕ} (hr : r ≠ [])
    (h : (x ++ r).take n = x) : n = x.length := by
  have hlen := congrArg List.length h
  have hpos := List.length_pos_iff.mpr hr
  rw [List.length_take, List.length_append] at hlen
  omega

theorem findChar_toInt {c : UInt8} {x r : Str} (hc : c ∉ x) :
    findChar c (x ++ c :: r) = toInt x.length := by
  unfold findChar
  rw [findIdx?_append_cons hc]

/-- The text of a `-c`, with what stands behind the value. -/
def conditionArg (key : Str) (op : UInt8) (value tail : Str) : Str :=
  key ++ ch ' ' :: op :: ch ' ' :: (value ++ tail)

/-- The end of the value in the text of a `-c`, `space_pos_2`. -/
def valueEnd (arg : Str) (start : ℤ) : ℤ :=
  if findFrom (ch ' ') arg start = -1 then toInt arg.length else findFrom (ch ' ') arg start

theorem readCondition_parts {arg : Str} {args : ConditionArgs} (h : readCondition arg = .ok args) :
    ∃ start n m, int32 (findChar (ch ' ') arg + 3) = .ok start ∧
      substr arg 0 (findChar (ch ' ') arg) = .ok args.key ∧
      int32 (valueEnd arg start - findChar (ch ' ') arg - 3) = .ok n ∧
      substr arg start n = .ok args.value ∧ int32 (valueEnd arg start + 1) = .ok m := by
  unfold readCondition at h
  obtain ⟨start, hstart, h⟩ := bind_eq_ok.mp h
  obtain ⟨key, hkey, h⟩ := bind_eq_ok.mp h
  obtain ⟨n, hn, h⟩ := bind_eq_ok.mp h
  obtain ⟨value, hvalue, h⟩ := bind_eq_ok.mp h
  obtain ⟨op, -, h⟩ := bind_eq_ok.mp h
  obtain ⟨m, hm, h⟩ := bind_eq_ok.mp h
  obtain ⟨lo, -, h⟩ := bind_eq_ok.mp h
  cases h
  exact ⟨start, n, m, hstart, hkey, hn, hvalue, hm⟩

theorem key_of_substr {key rest : Str} (hmax : key.length < 2 ^ 63)
    (h : substr (key ++ ch ' ' :: rest) 0 (findChar (ch ' ') (key ++ ch ' ' :: rest)) = .ok key) :
    ch ' ' ∉ key ∧ findChar (ch ' ') (key ++ ch ' ' :: rest) = key.length := by
  have hsize : toSizeT (findChar (ch ' ') (key ++ ch ' ' :: rest)) = key.length := by
    have hbehind := substr_behind (p := []) (x := key ++ ch ' ' :: rest) (s := 0)
      (n := findChar (ch ' ') (key ++ ch ' ' :: rest)) rfl (by decide)
    rw [List.nil_append, h] at hbehind
    exact take_append_eq_left (List.cons_ne_nil _ _) (Except.ok.inj hbehind).symm
  have hspace : ch ' ' ∉ key := by
    intro hmem
    obtain ⟨k₁, k₂, hk, hk₁⟩ := List.eq_append_cons_of_mem hmem
    have hfind : findChar (ch ' ') (key ++ ch ' ' :: rest) = toInt k₁.length := by
      rw [hk, List.append_assoc, List.cons_append]
      exact findChar_toInt hk₁
    rw [hfind] at hsize
    have hle := (toSizeT_toInt_eq hsize hmax).2
    rw [hk, List.length_append, List.length_cons] at hle
    omega
  rw [findChar_toInt hspace] at hsize ⊢
  exact ⟨hspace, (toSizeT_toInt_eq hsize hmax).1⟩

theorem named_of_parsedTo {key value : Str} {op lo : UInt8} {c : Condition}
    (hmax : key.length + value.length + 5 < 2 ^ 63) (hkey : c.key = key) (hvalue : c.value = value)
    (h : ParsedTo (conditionArg key op value [ch ' ', lo]) c) :
    ch ' ' ∉ key ∧ ch ' ' ∉ value ∧ key.length + value.length + 4 < 2 ^ 31 := by
  obtain ⟨args, hread, hcond⟩ := h
  have hargs : args.key = key ∧ args.value = value := by
    unfold ConditionArgs.toCondition at hcond
    cases hop : Operator.ofChar args.op with
    | none =>
      rw [hop] at hcond
      cases hcond
    | some o =>
      rw [hop] at hcond
      cases hcond
      exact ⟨hkey, hvalue⟩
  obtain ⟨start, n, m, hstart, hfirst, hn, hsecond, hm⟩ := readCondition_parts hread
  rw [hargs.1] at hfirst
  rw [hargs.2] at hsecond
  have hlong : key.length < 2 ^ 63 := by omega
  obtain ⟨hspace, hpos⟩ : ch ' ' ∉ key ∧
      findChar (ch ' ') (conditionArg key op value [ch ' ', lo]) = key.length :=
    key_of_substr hlong hfirst
  rw [hpos] at hstart hn
  obtain ⟨hrange, rfl⟩ := int32_eq_ok.mp hstart
  obtain ⟨hnrange, rfl⟩ := int32_eq_ok.mp hn
  obtain ⟨hmrange, -⟩ := int32_eq_ok.mp hm
  set p := key ++ [ch ' ', op, ch ' '] with hp
  have hplen : (key.length : ℤ) + 3 = p.length := by simp [hp]
  have hsplit : conditionArg key op value [ch ' ', lo] = p ++ (value ++ [ch ' ', lo]) := by
    simp [conditionArg, hp]
  rw [hsplit] at hsecond hnrange hmrange
  rw [substr_behind hplen (by omega)] at hsecond
  have hcount := take_append_eq_left (List.cons_ne_nil _ _) (Except.ok.inj hsecond)
  have hend : valueEnd (p ++ (value ++ [ch ' ', lo])) (key.length + 3) =
      key.length + 3 + value.length := by
    unfold toSizeT at hcount
    omega
  rw [hend] at hmrange
  refine ⟨hspace, fun hmem => ?_, by omega⟩
  -- A space in the value would be found first.
  obtain ⟨v₁, v₂, hv, hv₁⟩ := List.eq_append_cons_of_mem hmem
  have hlen : value.length = v₁.length + (v₂.length + 1) := by
    rw [hv, List.length_append, List.length_cons]
  have hfound : findFrom (ch ' ') (p ++ (value ++ [ch ' ', lo])) (key.length + 3) =
      ((p ++ v₁).length : ℤ) := by
    have hrest : value ++ [ch ' ', lo] = v₁ ++ ch ' ' :: (v₂ ++ [ch ' ', lo]) := by
      rw [hv, List.append_assoc, List.cons_append]
    rw [hrest]
    refine findFrom_append hplen hv₁ ?_
    rw [List.length_append]
    omega
  rw [List.length_append] at hfound
  unfold valueEnd at hend
  rw [hfound, if_neg (by omega)] at hend
  omega

/-- The text of a `-c` with this key and value comes back as the condition, for every operator, with
either connective and without one. -/
def Named (key value : Str) : Prop :=
  ∀ c op, Operator.ofChar c = some op →
    ParsedTo (conditionArg key c value []) ⟨key, value, op, false⟩ ∧
    ∀ lo, lo = ch '&' ∨ lo = ch '|' →
      ParsedTo (conditionArg key c value [ch ' ', lo]) ⟨key, value, op, lo == ch '|'⟩

/-- **Conditions name what was stored** exactly if neither the key nor the value has a space in it
and the positions fit an `int`. A `std::string` has fewer than `2 ^ 63` bytes. -/
theorem conditions_named_iff {key value : Str} (hmax : key.length + value.length + 5 < 2 ^ 63) :
    Named key value ↔
      ch ' ' ∉ key ∧ ch ' ' ∉ value ∧ key.length + value.length + 4 < 2 ^ 31 := by
  constructor
  · intro h
    exact named_of_parsedTo hmax rfl rfl ((h (ch '=') .equal rfl).2 (ch '&') (Or.inl rfl))
  · rintro ⟨hkey, hvalue, hlen⟩ c op hop
    refine ⟨?_, fun lo _ => ?_⟩
    · exact readCondition_ok ⟨c, [], rfl, hkey, hvalue, hop, Or.inl ⟨rfl, rfl⟩⟩ hlen
    · exact readCondition_ok ⟨c, _, rfl, hkey, hvalue, hop, Or.inr ⟨[lo], rfl, rfl⟩⟩ hlen

/-- A key without spaces. -/
theorem condition_named : Named (str "k") (str "v") :=
  (conditions_named_iff (by decide)).mpr ⟨by decide, by decide, by decide⟩

/-- The protocol's own key is stored with its space, and a condition on it is read with the key up
to that space, an operator that is none and the rest of the key as value. -/
theorem spaced_key_not_named :
    readPair (str "Grado academico=MSc") = .ok ⟨[], str "Grado academico", str "MSc"⟩ ∧
      ¬ Named (str "Grado academico") (str "MSc") := by
  refine ⟨by decide +kernel, fun h => ?_⟩
  obtain ⟨args, hread, hcond⟩ := (h (ch '=') .equal rfl).1
  have hargs : readCondition (conditionArg (str "Grado academico") (ch '=') (str "MSc") []) =
      .ok ⟨str "Grado", str "ademico", ch 'a', ch '='⟩ := by rfl
  rw [hargs] at hread
  cases hread
  cases hcond

end DGDB
