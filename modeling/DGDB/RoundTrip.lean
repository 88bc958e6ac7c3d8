import Mathlib
import DGDB.Process

/-!
# The requests that a server and a repository read back

A `C`, an `R`, a `U` and a `D` whose fields fit their widths come back field by field, whatever the
texts in them look like: on the server, which forwards them, and on a repository, which acts on
them.
-/

namespace DGDB

/-- The key and the value of each attribute: what crosses the wire of it. -/
def keyValues (attributes : List Attribute) : List (Str × Str) :=
  attributes.map fun a => (a.key, a.value)

theorem keyValues_wire (attributes : List Attribute) :
    keyValues (attributes.map Attribute.wire) = keyValues attributes := by
  unfold keyValues
  rw [List.map_map]
  rfl

/-! ## `C` -/

section Node

variable {m : NodeMsg}

theorem offset_listHeader :
    (m.nameA.length : ℤ) + 2 = (listHeader m.nameA m.relations m.attributes).length := by
  rw [length_listHeader]
  rfl

theorem takeHosts_parseNewNode (hm : m.Fits) :
    takeHosts (m.nameA.length + 2)
        (listHeader m.nameA m.relations m.attributes ++ hostListText m.master_repos) =
      .ok (m.master_repos, listHeader m.nameA m.relations m.attributes) := by
  have hname : m.nameA.length ≤ 999 := hm.name
  refine takeHosts_text offset_listHeader ?_ hm.hosts_length hm.hosts
  rw [length_listHeader]
  omega

/-- **A create is read back.** The decoder returns the name, the relations, the attributes and the
id of a `C` that fits. The server forwards just these, a repository stores them and has the hosts as
well, with nothing left behind the offset. -/
theorem node_round_trip (hm : m.Fits) :
    ∃ d : Decoded NodeMsg, readNode (parseNewNode m) = .ok d ∧
      d.fields.nameA = m.nameA ∧ d.fields.relations = m.relations ∧
      keyValues d.fields.attributes = keyValues m.attributes ∧
      d.fields.request_id = m.request_id ∧
      (∃ rest : Str, takeHosts d.s d.s_buffer = .ok (m.master_repos, rest) ∧
        (rest.length : ℤ) = d.s) ∧
      ∀ (throws : ℕ → Option Str) (db : Process) (from_addr : Host), db.cud_blocking = false →
        (db.server = true → runConnection throws db from_addr (Msg.node m).buffer =
          accept indexPlusOne db from_addr d.s_buffer m.request_id none (.node { d.fields with
            request_id := db.current_request, master_repos := db.repositories })) ∧
        (db.server = false → db.repository = true →
          runConnection throws db from_addr (Msg.node m).buffer =
            storeNode throws db from_addr d.fields m.master_repos) := by
  have hread := readNode_parseNewNode hm.name hm.relations_length hm.relations
    hm.attributes_length hm.attributes hm.id
  have hhosts := takeHosts_parseNewNode hm
  refine ⟨_, hread, rfl, rfl, keyValues_wire _, rfl, ⟨_, hhosts, offset_listHeader.symm⟩, ?_⟩
  intro throws db from_addr hfree
  rw [runConnection_node]
  unfold nodeBranch
  rw [if_neg (by simp [hfree]), hread, ok_bind]
  constructor
  · intro hserver
    rw [if_pos hserver]
  · intro hserver hrepository
    rw [if_neg (by simp [hserver]), if_pos hrepository, hhosts, ok_bind]

end Node

/-- A create with an empty relation, one made of digits and an attribute that looks like lengths. -/
def trickyNode : NodeMsg :=
  ⟨str "003", [⟨str "n", str "001", []⟩], [[], str "000"], 7, [⟨str "10.0.0.1", 50000⟩]⟩

/-- It is read back with its host. -/
theorem trickyNode_round_trip : trickyNode.Fits ∧
    ∃ d : Decoded NodeMsg, readNode (parseNewNode trickyNode) = .ok d ∧
      d.fields.relations = [[], str "000"] ∧
      ∃ rest : Str, takeHosts d.s d.s_buffer = .ok ([⟨str "10.0.0.1", 50000⟩], rest) ∧
        (rest.length : ℤ) = d.s := by
  have hfits : trickyNode.Fits := by decide
  obtain ⟨d, hread, -, hrel, -, -, hhosts, -⟩ := node_round_trip hfits
  exact ⟨hfits, d, hread, hrel, hhosts⟩

/-! ## `R` -/

/-- **A query is read back.** The decoder returns every field of an `R` that fits and consumes all
that stands behind the five header characters. The server opens the query with these fields, a
repository judges the node by them. -/
theorem query_round_trip {m : QueryMsg} (hm : m.Fits) :
    ∃ d : Decoded QueryMsg, readQuery (parseNewQuery m) = .ok d ∧ d.fields = m ∧
      (∃ header : Str, header.length = 5 ∧ d.s_buffer = m.nameA ++ header) ∧
      (d.s_buffer.length : ℤ) = d.s ∧
      ∀ (throws : ℕ → Option Str) (db : Process) (from_addr : Host),
        (db.server = true → runConnection throws db from_addr (Msg.query m).buffer =
          accept indexPlusOne
            { db with cud_blocking := !decide (db.repositories.length < 2) } from_addr d.s_buffer
            m.request_id (some (QueryState.start m))
            (.query { m with request_id := db.current_request })) ∧
        (db.server = false → db.repository = true →
          runConnection throws db from_addr (Msg.query m).buffer = answerQuery db m) := by
  obtain ⟨header, hheader, hread⟩ := readQuery_parseNewQuery hm
  refine ⟨_, hread, rfl, ⟨header, hheader, rfl⟩, ?_, ?_⟩
  · simp only [List.length_append, hheader]
    push_cast
    rfl
  · intro throws db from_addr
    rw [runConnection_query]
    unfold queryBranch
    rw [hread, ok_bind]
    constructor
    · intro hserver
      rw [if_pos hserver]
    · intro hserver hrepository
      rw [if_neg (by simp [hserver]), if_pos hrepository]

/-- A query with two conditions, one of them on texts that look like lengths. -/
def trickyQuery : QueryMsg :=
  ⟨str "999", 9, true, false,
    [⟨str "010", [], .like, true⟩, ⟨[], str "1\t2", .less, false⟩], 999⟩

/-- It is read back with its conditions. -/
theorem trickyQuery_round_trip : trickyQuery.Fits ∧
    ∃ d : Decoded QueryMsg, readQuery (parseNewQuery trickyQuery) = .ok d ∧
      d.fields = trickyQuery ∧ (d.s_buffer.length : ℤ) = d.s := by
  have hfits : trickyQuery.Fits := by decide
  obtain ⟨d, hread, hd, -, hlen, -⟩ := query_round_trip hfits
  exact ⟨hfits, d, hread, hd, hlen⟩

/-! ## `U` and `D` -/

/-- A `U` with a given buffer renames the node or sets an attribute, as the buffer says. -/
theorem update_of_buffer {m : UpdateMsg} (hm : m.Fits) {msg : Msg} (hmsg : msg.Fits)
    (h : msg.buffer = (Msg.update m).buffer) :
    ∃ m', msg = .update m' ∧ m'.is_node = m.is_node := by
  have hhead : msg.buffer.headD 0 = ch 'U' := by
    rw [h]
    rfl
  cases msg with
  | update m' =>
    refine ⟨m', rfl, ?_⟩
    have hread' := readUpdate_parseNewUpdate (m := m') hmsg
    rw [show parseNewUpdate m' = parseNewUpdate m from h, readUpdate_parseNewUpdate hm] at hread'
    exact (congrArg (fun d => d.fields.is_node) (Except.ok.inj hread')).symm
  | node => exact absurd (show ch 'C' = ch 'U' from hhead) (by decide)
  | query => exact absurd (show ch 'R' = ch 'U' from hhead) (by decide)
  | delete => exact absurd (show ch 'D' = ch 'U' from hhead) (by decide)
  | response => exact absurd (show ch 'M' = ch 'U' from hhead) (by decide)
  | info => exact absurd (show ch 'I' = ch 'U' from hhead) (by decide)
  | register => exact absurd (show ch 'E' = ch 'U' from hhead) (by decide)

/-- A `D` with a given buffer is about the object that the buffer names. -/
theorem delete_of_buffer {m : DeleteMsg} (hm : m.Fits) {msg : Msg} (hmsg : msg.Fits)
    (h : msg.buffer = (Msg.delete m).buffer) :
    ∃ m', msg = .delete m' ∧ m'.object = m.object := by
  have hhead : msg.buffer.headD 0 = ch 'D' := by
    rw [h]
    rfl
  cases msg with
  | delete m' =>
    have hm' : m'.Fits := hmsg
    refine ⟨m', rfl, ?_⟩
    have hread' := readDelete_parseNewDelete hm'.name hm'.object hm'.attr_or_rel hm'.id
    rw [show parseNewDelete m' = parseNewDelete m from h,
      readDelete_parseNewDelete hm.name hm.object hm.attr_or_rel hm.id] at hread'
    exact (congrArg (fun d => d.fields.object) (Except.ok.inj hread')).symm
  | node => exact absurd (show ch 'C' = ch 'D' from hhead) (by decide)
  | query => exact absurd (show ch 'R' = ch 'D' from hhead) (by decide)
  | update => exact absurd (show ch 'U' = ch 'D' from hhead) (by decide)
  | response => exact absurd (show ch 'M' = ch 'D' from hhead) (by decide)
  | info => exact absurd (show ch 'I' = ch 'D' from hhead) (by decide)
  | register => exact absurd (show ch 'E' = ch 'D' from hhead) (by decide)

/-- What the decoder of a `U` returns for a message that fits, on either role. -/
def UpdateReadBack (m : UpdateMsg) : Prop :=
  ∃ d : Decoded UpdateMsg, readUpdate (parseNewUpdate m) = .ok d ∧
    d.fields.nameA = m.nameA ∧ d.fields.is_node = m.is_node ∧ d.fields.set_value = m.set_value ∧
    d.fields.attr = (if m.is_node then [] else m.attr) ∧ d.fields.request_id = m.request_id ∧
    parseNewUpdate d.fields = parseNewUpdate m ∧ (d.s_buffer.length : ℤ) = d.s ∧
    ∀ (throws : ℕ → Option Str) (db : Process) (from_addr : Host), db.cud_blocking = false →
      (db.server = true → runConnection throws db from_addr (Msg.update m).buffer =
        accept indexIncremented db from_addr d.s_buffer m.request_id none
          (.update { d.fields with request_id := db.current_request })) ∧
      (db.server = false → db.repository = true →
        runConnection throws db from_addr (Msg.update m).buffer =
          (do return (db, [⟨← hostAt db.repositories 0,
            .response ⟨updatedText, d.fields.request_id⟩⟩])))

theorem update_read_back {m : UpdateMsg} (hm : m.Fits) : UpdateReadBack m := by
  have hread := readUpdate_parseNewUpdate hm
  refine ⟨_, hread, rfl, rfl, rfl, rfl, rfl, ?_, rfl, ?_⟩
  · unfold parseNewUpdate
    cases m.is_node <;> rfl
  · intro throws db from_addr hfree
    rw [runConnection_update]
    unfold updateBranch
    rw [if_neg (by simp [hfree]), hread, ok_bind]
    constructor
    · intro hserver
      rw [if_pos hserver]
    · intro hserver hrepository
      rw [if_neg (by simp [hserver]), if_pos hrepository]

/-- What the decoder of a `D` returns for a message that fits, on either role. -/
def DeleteReadBack (m : DeleteMsg) : Prop :=
  ∃ d : Decoded DeleteMsg, readDelete (parseNewDelete m) = .ok d ∧
    d.fields.nameA = m.nameA ∧ d.fields.object = m.object ∧
    d.fields.attr_or_rel = (if 0 < m.object then m.attr_or_rel else []) ∧
    d.fields.request_id = m.request_id ∧
    parseNewDelete { d.fields with master_repos := m.master_repos } = parseNewDelete m ∧
    (∃ rest : Str, takeHosts d.s d.s_buffer = .ok (m.master_repos, rest) ∧
      (rest.length : ℤ) = d.s) ∧
    ∀ (throws : ℕ → Option Str) (db : Process) (from_addr : Host), db.cud_blocking = false →
      (db.server = true → runConnection throws db from_addr (Msg.delete m).buffer =
        accept indexIncremented db from_addr d.s_buffer m.request_id none (.delete { d.fields with
          request_id := db.current_request, master_repos := db.repositories })) ∧
      (db.server = false → db.repository = true →
        runConnection throws db from_addr (Msg.delete m).buffer = (do
          let out ← reverseDelete d.fields m.master_repos
          let reply ← replyTo db d.fields.request_id (deletedText d.fields.object)
          return (db, out ++ reply)))

theorem delete_read_back {m : DeleteMsg} (hm : m.Fits) : DeleteReadBack m := by
  have hread := readDelete_parseNewDelete hm.name hm.object hm.attr_or_rel hm.id
  have hhosts : takeHosts m.nameA.length (m.nameA ++ hostListText m.master_repos) =
      .ok (m.master_repos, m.nameA) := by
    have hname : m.nameA.length ≤ 999 := hm.name
    exact takeHosts_text rfl (by omega) hm.hosts_length hm.hosts
  refine ⟨_, hread, rfl, rfl, rfl, rfl, ?_, ⟨_, hhosts, rfl⟩, ?_⟩
  · unfold parseNewDelete
    split_ifs with hobject
    · rfl
    · rfl
  · intro throws db from_addr hfree
    rw [runConnection_delete]
    unfold deleteBranch
    rw [if_neg (by simp [hfree]), hread, ok_bind]
    constructor
    · intro hserver
      rw [if_pos hserver]
    · intro hserver hrepository
      rw [if_neg (by simp [hserver]), if_pos hrepository, hhosts, ok_bind]

/-- **Updates and deletes are read back.** The decoders return every field of a `U` and a `D` that
fit, the optional one exactly when it has been written, and whatever message is written as one of
these has its kind and its flag. -/
theorem update_delete_round_trip {u : UpdateMsg} (hu : u.Fits) {d : DeleteMsg} (hd : d.Fits) :
    UpdateReadBack u ∧ DeleteReadBack d ∧
      ∀ msg : Msg, msg.Fits →
        (msg.buffer = (Msg.update u).buffer → ∃ u', msg = .update u' ∧ u'.is_node = u.is_node) ∧
        (msg.buffer = (Msg.delete d).buffer → ∃ d', msg = .delete d' ∧ d'.object = d.object) :=
  ⟨update_read_back hu, delete_read_back hd,
    fun _ hmsg => ⟨update_of_buffer hu hmsg, delete_of_buffer hd hmsg⟩⟩

/-- A rename to a text that looks like an attribute, and a delete without the field that follows. -/
theorem update_delete_round_trip_tricky :
    UpdateReadBack ⟨str "a", true, str "001x001y", str "k", 12⟩ ∧
      DeleteReadBack ⟨str "001x", 0, str "b", 0, [⟨str "10.0.0.1", 50000⟩]⟩ := by
  have h := update_delete_round_trip (u := ⟨str "a", true, str "001x001y", str "k", 12⟩)
    (by decide) (d := ⟨str "001x", 0, str "b", 0, [⟨str "10.0.0.1", 50000⟩]⟩) (by decide)
  exact ⟨h.1, h.2.1⟩

end DGDB
