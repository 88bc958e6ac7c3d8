import Mathlib
import DGDB.Schema

/-!
# Messages and their encoders

One record for each kind of message and the function `parseNew…` that writes its buffer. A field
has a width on the wire; `Fits` says that the text written for it has that width. A number too wide
for its field is written whole, as `sprintf` does. Where that overruns `char tamano[4]` it is
undefined, and the buffer is the one of an overrun that does no other harm; `NoOverrun` says that
there is none.
-/

namespace DGDB

open Decimal

/-- `struct Host`, also the printed form of a socket address. -/
structure Host where
  ip : Str
  port : UInt16
  deriving DecidableEq, Repr

/-- `repo.ip + ":" + std::to_string(repo.port)`. -/
def Host.text (h : Host) : Str := h.ip ++ [ch ':'] ++ decimal h.port.toNat

/-- `stringToHost`. -/
def stringToHost (host : Str) : Result Host := do
  let separator := findChar (ch ':') host
  let ip ← substr host 0 separator
  let port ← stoi (← substr host (separator + 1) (2 ^ 64 - 1))
  return ⟨ip, UInt16.ofInt port⟩

/-! ## The records -/

/-- The arguments of `parseNewNode`. -/
structure NodeMsg where
  nameA : Str
  attributes : List Attribute
  relations : List Str
  request_id : ℤ
  master_repos : List Host
  deriving DecidableEq, Repr

/-- The arguments of `parseNewQuery`. -/
structure QueryMsg where
  nameA : Str
  depth : ℤ
  leaf : Bool
  attr : Bool
  conditions : List Condition
  request_id : ℤ
  deriving DecidableEq, Repr

/-- The arguments of `parseNewUpdate`. -/
structure UpdateMsg where
  nameA : Str
  is_node : Bool
  set_value : Str
  attr : Str
  request_id : ℤ
  deriving DecidableEq, Repr

/-- The arguments of `parseNewDelete`. -/
structure DeleteMsg where
  nameA : Str
  object : ℤ
  attr_or_rel : Str
  request_id : ℤ
  master_repos : List Host
  deriving DecidableEq, Repr

/-- The arguments of `parseNewMessageResponse`. -/
structure ResponseMsg where
  message : Str
  request_id : ℤ
  deriving DecidableEq, Repr

/-- The arguments of `parseNewInfoResponse`. -/
structure InfoMsg where
  nameA : Str
  attributes : List Attribute
  relations : List Str
  request_id : ℤ
  valid_node : Bool
  deriving DecidableEq, Repr

/-! ## The encoders -/

/-- `char('0' + n)`. -/
def countChar (n : ℕ) : UInt8 := UInt8.ofNat (48 + n)

/-- The length of `x` in three digits, then `x`. -/
def sized (x : Str) : Str := padded 3 x.length ++ x

def attributeText (a : Attribute) : Str := sized a.key ++ sized a.value

/-- The request id in three digits; the parameter has type `size_t`. -/
def idText (request_id : ℤ) : Str := padded 3 (toSizeT request_id)

def hostText (h : Host) : Str := padded 2 h.text.length ++ h.text

/-- The host list at the end of a `C` and a `D`. -/
def hostListText (master_repos : List Host) : Str :=
  padded 1 master_repos.length ++ master_repos.flatMap hostText

/-- A boolean flag. -/
def flagChar (b : Bool) : UInt8 := if b then ch '1' else ch '0'

/-- `std::to_string` of an `int`. -/
def intText (i : ℤ) : Str := if i < 0 then ch '-' :: decimal i.natAbs else decimal i.natAbs

def conditionText (c : Condition) : Str :=
  sized c.key ++ (decimal c.op.toNat ++ (sized c.value ++ [flagChar c.is_or]))

def parseNewNode (m : NodeMsg) : Str :=
  ch 'C' :: (sized m.nameA ++ (countChar m.relations.length :: countChar m.attributes.length ::
    (m.relations.flatMap sized ++ (m.attributes.flatMap attributeText ++
      (idText m.request_id ++ hostListText m.master_repos)))))

def parseNewQuery (m : QueryMsg) : Str :=
  ch 'R' :: (sized m.nameA ++ (padded 1 (toSizeT m.depth) ++ (flagChar m.leaf :: flagChar m.attr ::
    (padded 2 m.conditions.length ++ (m.conditions.flatMap conditionText ++
      idText m.request_id)))))

def parseNewUpdate (m : UpdateMsg) : Str :=
  ch 'U' :: flagChar m.is_node :: (sized m.nameA ++
    ((if m.is_node then sized m.set_value else sized m.attr ++ sized m.set_value) ++
      idText m.request_id))

def parseNewDelete (m : DeleteMsg) : Str :=
  ch 'D' :: (intText m.object ++ (sized m.nameA ++
    ((if 0 < m.object then sized m.attr_or_rel else []) ++
      (idText m.request_id ++ hostListText m.master_repos))))

def parseNewMessageResponse (m : ResponseMsg) : Str :=
  ch 'M' :: (sized m.message ++ idText m.request_id)

def parseNewInfoResponse (m : InfoMsg) : Str :=
  ch 'I' :: (sized m.nameA ++ (countChar m.relations.length :: countChar m.attributes.length ::
    (m.relations.flatMap sized ++ (m.attributes.flatMap attributeText ++
      (idText m.request_id ++ [flagChar m.valid_node])))))

/-- A message some process sends. -/
inductive Msg
  | node (m : NodeMsg)
  | query (m : QueryMsg)
  | update (m : UpdateMsg)
  | delete (m : DeleteMsg)
  | response (m : ResponseMsg)
  | info (m : InfoMsg)
  | register
  deriving DecidableEq, Repr

namespace Msg

/-- The buffer handed to `SendTo`. -/
def buffer : Msg → Str
  | node m => parseNewNode m
  | query m => parseNewQuery m
  | update m => parseNewUpdate m
  | delete m => parseNewDelete m
  | response m => parseNewMessageResponse m
  | info m => parseNewInfoResponse m
  | register => str "E"

def request_id : Msg → ℤ
  | node m => m.request_id
  | query m => m.request_id
  | update m => m.request_id
  | delete m => m.request_id
  | response m => m.request_id
  | info m => m.request_id
  | register => 0

end Msg

/-! ## The buffer of the numbers

`sprintf` writes each number into `char tamano[4]`, and a NUL behind it. -/

/-- The number in front of a text. -/
def lengthText (x : Str) : Str := padded 3 x.length

namespace Msg

/-- The texts that the encoder of a message writes into `tamano`. -/
def printed : Msg → List Str
  | node m => lengthText m.nameA :: idText m.request_id :: padded 1 m.master_repos.length ::
      (m.relations.map lengthText ++
        ((m.attributes.flatMap fun a => [lengthText a.key, lengthText a.value]) ++
          m.master_repos.map fun h => padded 2 h.text.length))
  | query m => lengthText m.nameA :: padded 1 (toSizeT m.depth) :: padded 2 m.conditions.length ::
      idText m.request_id :: m.conditions.flatMap fun c => [lengthText c.key, lengthText c.value]
  | update m => lengthText m.nameA :: lengthText m.set_value :: idText m.request_id ::
      if m.is_node then [] else [lengthText m.attr]
  | delete m => lengthText m.nameA :: idText m.request_id :: padded 1 m.master_repos.length ::
      ((if 0 < m.object then [lengthText m.attr_or_rel] else []) ++
        m.master_repos.map fun h => padded 2 h.text.length)
  | response m => [lengthText m.message, idText m.request_id]
  | info m => lengthText m.nameA :: idText m.request_id :: [flagChar m.valid_node] ::
      (m.relations.map lengthText ++
        m.attributes.flatMap fun a => [lengthText a.key, lengthText a.value])
  | register => []

/-- No number overruns `tamano`. -/
def NoOverrun (m : Msg) : Prop := ∀ t ∈ m.printed, t.length < 4

instance : DecidablePred NoOverrun := fun _ => inferInstanceAs (Decidable (∀ _ ∈ _, _ < _))

end Msg

/-! ## Wire widths -/

/-- At most three digits of length. -/
def ShortText (x : Str) : Prop := x.length ≤ 999

/-- An id that three digits hold. -/
def ShortId (request_id : ℤ) : Prop := 0 ≤ request_id ∧ request_id ≤ 999

def ShortAttribute (a : Attribute) : Prop := ShortText a.key ∧ ShortText a.value

def ShortHost (h : Host) : Prop := h.text.length ≤ 99 ∧ ch ':' ∉ h.ip

instance (x : Str) : Decidable (ShortText x) := inferInstanceAs (Decidable (_ ≤ _))
instance (i : ℤ) : Decidable (ShortId i) := inferInstanceAs (Decidable (_ ∧ _))
instance (a : Attribute) : Decidable (ShortAttribute a) := inferInstanceAs (Decidable (_ ∧ _))
instance (h : Host) : Decidable (ShortHost h) := inferInstanceAs (Decidable (_ ∧ _))

/-- Every field of a node message has the width the format gives it. -/
structure NodeMsg.Fits (m : NodeMsg) : Prop where
  name : ShortText m.nameA
  relations_length : m.relations.length ≤ 9
  relations : ∀ x ∈ m.relations, ShortText x
  attributes_length : m.attributes.length ≤ 9
  attributes : ∀ a ∈ m.attributes, ShortAttribute a
  id : ShortId m.request_id
  hosts_length : m.master_repos.length ≤ 9
  hosts : ∀ h ∈ m.master_repos, ShortHost h

structure QueryMsg.Fits (m : QueryMsg) : Prop where
  name : ShortText m.nameA
  depth : 0 ≤ m.depth ∧ m.depth ≤ 9
  conditions_length : m.conditions.length ≤ 99
  conditions : ∀ c ∈ m.conditions, ShortText c.key ∧ ShortText c.value
  id : ShortId m.request_id

structure UpdateMsg.Fits (m : UpdateMsg) : Prop where
  name : ShortText m.nameA
  set_value : ShortText m.set_value
  attr : ShortText m.attr
  id : ShortId m.request_id

structure DeleteMsg.Fits (m : DeleteMsg) : Prop where
  name : ShortText m.nameA
  object : 0 ≤ m.object ∧ m.object ≤ 9
  attr_or_rel : ShortText m.attr_or_rel
  id : ShortId m.request_id
  hosts_length : m.master_repos.length ≤ 9
  hosts : ∀ h ∈ m.master_repos, ShortHost h

structure ResponseMsg.Fits (m : ResponseMsg) : Prop where
  message : ShortText m.message
  id : ShortId m.request_id

structure InfoMsg.Fits (m : InfoMsg) : Prop where
  name : ShortText m.nameA
  relations_length : m.relations.length ≤ 9
  relations : ∀ x ∈ m.relations, ShortText x
  attributes_length : m.attributes.length ≤ 9
  attributes : ∀ a ∈ m.attributes, ShortAttribute a
  id : ShortId m.request_id

/-- Every field of a message has the width the format gives it. -/
def Msg.Fits : Msg → Prop
  | .node m => m.Fits
  | .query m => m.Fits
  | .update m => m.Fits
  | .delete m => m.Fits
  | .response m => m.Fits
  | .info m => m.Fits
  | .register => True

section Overrun

variable {x : Str} {request_id : ℤ}

theorem ShortText.length_lt (h : ShortText x) : (lengthText x).length < 4 := by
  have hlen : (lengthText x).length = 3 :=
    length_padded (by norm_num) (show x.length < 10 ^ 3 from Nat.lt_succ_of_le h)
  omega

theorem ShortId.length_lt (h : ShortId request_id) : (idText request_id).length < 4 := by
  have hlen : (idText request_id).length = 3 := by
    refine length_padded (by norm_num) ?_
    unfold toSizeT
    have := h.1
    have := h.2
    omega
  omega

theorem length_padded_lt {w n : ℕ} (hw : w ≤ 2) (hn : n ≤ 99) : (padded w n).length < 4 := by
  have hlen := length_decimal_le (show 0 < 2 by omega) (show n < 10 ^ 2 by omega)
  simp only [padded, List.length_append, List.length_replicate]
  omega

/-- A message that fits the wire fits the buffer. -/
theorem Msg.Fits.noOverrun {m : Msg} (h : m.Fits) : m.NoOverrun := by
  have hattributes : ∀ {attributes : List Attribute}, (∀ a ∈ attributes, ShortAttribute a) →
      ∀ t ∈ attributes.flatMap fun a => [lengthText a.key, lengthText a.value], t.length < 4 := by
    intro attributes h t ht
    obtain ⟨a, ha, ht⟩ := List.mem_flatMap.mp ht
    simp only [List.mem_cons, List.not_mem_nil, or_false] at ht
    rcases ht with rfl | rfl
    · exact (h a ha).1.length_lt
    · exact (h a ha).2.length_lt
  have htexts : ∀ {xs : List Str}, (∀ x ∈ xs, ShortText x) →
      ∀ t ∈ xs.map lengthText, t.length < 4 := by
    intro xs h t ht
    obtain ⟨x, hx, rfl⟩ := List.mem_map.mp ht
    exact (h x hx).length_lt
  have hhosts : ∀ {hosts : List Host}, (∀ h ∈ hosts, ShortHost h) →
      ∀ t ∈ hosts.map fun h => padded 2 h.text.length, t.length < 4 := by
    intro hosts h t ht
    obtain ⟨host, hhost, rfl⟩ := List.mem_map.mp ht
    exact length_padded_lt le_rfl (h host hhost).1
  unfold NoOverrun
  cases m with
  | node m =>
    have hsize := length_padded_lt (w := 1) (by omega) (h.hosts_length.trans (by omega))
    simp only [printed, List.forall_mem_cons, List.forall_mem_append]
    exact ⟨h.name.length_lt, h.id.length_lt, hsize, htexts h.relations, hattributes h.attributes,
      hhosts h.hosts⟩
  | query m =>
    have hdepth : (padded 1 (toSizeT m.depth)).length < 4 := by
      refine length_padded_lt (by omega) ?_
      unfold toSizeT
      have := h.depth
      omega
    simp only [printed, List.forall_mem_cons]
    refine ⟨h.name.length_lt, hdepth, length_padded_lt le_rfl h.conditions_length,
      h.id.length_lt, ?_⟩
    intro t ht
    obtain ⟨c, hc, ht⟩ := List.mem_flatMap.mp ht
    simp only [List.mem_cons, List.not_mem_nil, or_false] at ht
    rcases ht with rfl | rfl
    · exact (h.conditions c hc).1.length_lt
    · exact (h.conditions c hc).2.length_lt
  | update m =>
    simp only [printed, List.forall_mem_cons]
    refine ⟨h.name.length_lt, h.set_value.length_lt, h.id.length_lt, ?_⟩
    split_ifs
    · simp
    · simpa using h.attr.length_lt
  | delete m =>
    have hsize := length_padded_lt (w := 1) (by omega) (h.hosts_length.trans (by omega))
    simp only [printed, List.forall_mem_cons, List.forall_mem_append]
    refine ⟨h.name.length_lt, h.id.length_lt, hsize, ?_, hhosts h.hosts⟩
    split_ifs
    · simpa using h.attr_or_rel.length_lt
    · simp
  | response m =>
    simpa [printed] using ⟨h.message.length_lt, h.id.length_lt⟩
  | info m =>
    simp only [printed, List.forall_mem_cons, List.forall_mem_append]
    exact ⟨h.name.length_lt, h.id.length_lt, by simp, htexts h.relations, hattributes h.attributes⟩
  | register => simp [printed]

end Overrun

section Decidable

instance (m : NodeMsg) : Decidable m.Fits :=
  decidable_of_iff (ShortText m.nameA ∧ m.relations.length ≤ 9 ∧ (∀ x ∈ m.relations, ShortText x) ∧
      m.attributes.length ≤ 9 ∧ (∀ a ∈ m.attributes, ShortAttribute a) ∧ ShortId m.request_id ∧
      m.master_repos.length ≤ 9 ∧ ∀ h ∈ m.master_repos, ShortHost h)
    ⟨fun ⟨h₁, h₂, h₃, h₄, h₅, h₆, h₇, h₈⟩ => ⟨h₁, h₂, h₃, h₄, h₅, h₆, h₇, h₈⟩,
      fun h => ⟨h.1, h.2, h.3, h.4, h.5, h.6, h.7, h.8⟩⟩

instance (m : QueryMsg) : Decidable m.Fits :=
  decidable_of_iff (ShortText m.nameA ∧ (0 ≤ m.depth ∧ m.depth ≤ 9) ∧ m.conditions.length ≤ 99 ∧
      (∀ c ∈ m.conditions, ShortText c.key ∧ ShortText c.value) ∧ ShortId m.request_id)
    ⟨fun ⟨h₁, h₂, h₃, h₄, h₅⟩ => ⟨h₁, h₂, h₃, h₄, h₅⟩, fun h => ⟨h.1, h.2, h.3, h.4, h.5⟩⟩

instance (m : UpdateMsg) : Decidable m.Fits :=
  decidable_of_iff (ShortText m.nameA ∧ ShortText m.set_value ∧ ShortText m.attr ∧
      ShortId m.request_id)
    ⟨fun ⟨h₁, h₂, h₃, h₄⟩ => ⟨h₁, h₂, h₃, h₄⟩, fun h => ⟨h.1, h.2, h.3, h.4⟩⟩

instance (m : DeleteMsg) : Decidable m.Fits :=
  decidable_of_iff (ShortText m.nameA ∧ (0 ≤ m.object ∧ m.object ≤ 9) ∧ ShortText m.attr_or_rel ∧
      ShortId m.request_id ∧ m.master_repos.length ≤ 9 ∧ ∀ h ∈ m.master_repos, ShortHost h)
    ⟨fun ⟨h₁, h₂, h₃, h₄, h₅, h₆⟩ => ⟨h₁, h₂, h₃, h₄, h₅, h₆⟩,
      fun h => ⟨h.1, h.2, h.3, h.4, h.5, h.6⟩⟩

instance (m : ResponseMsg) : Decidable m.Fits :=
  decidable_of_iff (ShortText m.message ∧ ShortId m.request_id)
    ⟨fun ⟨h₁, h₂⟩ => ⟨h₁, h₂⟩, fun h => ⟨h.1, h.2⟩⟩

instance (m : InfoMsg) : Decidable m.Fits :=
  decidable_of_iff (ShortText m.nameA ∧ m.relations.length ≤ 9 ∧ (∀ x ∈ m.relations, ShortText x) ∧
      m.attributes.length ≤ 9 ∧ (∀ a ∈ m.attributes, ShortAttribute a) ∧ ShortId m.request_id)
    ⟨fun ⟨h₁, h₂, h₃, h₄, h₅, h₆⟩ => ⟨h₁, h₂, h₃, h₄, h₅, h₆⟩,
      fun h => ⟨h.1, h.2, h.3, h.4, h.5, h.6⟩⟩

instance : DecidablePred Msg.Fits
  | .node m => inferInstanceAs (Decidable m.Fits)
  | .query m => inferInstanceAs (Decidable m.Fits)
  | .update m => inferInstanceAs (Decidable m.Fits)
  | .delete m => inferInstanceAs (Decidable m.Fits)
  | .response m => inferInstanceAs (Decidable m.Fits)
  | .info m => inferInstanceAs (Decidable m.Fits)
  | .register => inferInstanceAs (Decidable True)

end Decidable

end DGDB
