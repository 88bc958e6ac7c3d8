import Mathlib
import DGDB.Routing

/-!
# The turns of a repository

What a repository does with a well-formed message: the rows it stores and the messages it sends.
-/

namespace DGDB

/-- A process that runs as a repository of the server `main`. -/
structure IsRepository (main : Host) (db : Process) : Prop where
  server : db.server = false
  repository : db.repository = true
  repositories : db.repositories = [main]
  free : db.cud_blocking = false

/-! ## `C` -/

/-- The rows a `C` adds. -/
def stored (st : Storage) (m : NodeMsg) : Storage :=
  m.relations.foldl (fun st rel => (st.insertNode rel).insertRelation ⟨m.nameA, rel⟩)
    (storeAttributes m.nameA m.attributes (st.insertNode m.nameA))

/-- The secondary `C`s for the reverse relations. -/
def reverses (m : NodeMsg) : List Send :=
  if m.master_repos = [] then []
  else m.relations.map fun rel =>
    ⟨owner m.master_repos rel, .node ⟨rel, [], [m.nameA], 0, []⟩⟩

/-- The text of the reply to a `C`. -/
def storedReply (st : Storage) (m : NodeMsg) : Str :=
  (if m.nameA ∈ st.nodes then existsText else []) ++ storedText

theorem relations_storeAttributes (name : Str) (attributes : List Attribute) (st : Storage) :
    (storeAttributes name attributes st).relations = st.relations := by
  unfold storeAttributes
  induction attributes generalizing st with
  | nil => rfl
  | cons a attributes ih => exact ih _

theorem nodes_storeAttributes (name : Str) (attributes : List Attribute) (st : Storage) :
    (storeAttributes name attributes st).nodes = st.nodes := by
  unfold storeAttributes
  induction attributes generalizing st with
  | nil => rfl
  | cons a attributes ih => exact ih _

theorem relations_stored (st : Storage) (m : NodeMsg) :
    (stored st m).relations = st.relations ++ m.relations.map fun rel => ⟨m.nameA, rel⟩ := by
  have hloop : ∀ (relations : List Str) (st : Storage),
      (relations.foldl (fun st rel => (st.insertNode rel).insertRelation ⟨m.nameA, rel⟩)
        st).relations = st.relations ++ relations.map fun rel => ⟨m.nameA, rel⟩ := by
    intro relations
    induction relations with
    | nil => simp
    | cons rel relations ih =>
      intro st
      rw [List.foldl_cons, ih]
      simp
  rw [stored, hloop, relations_storeAttributes, Storage.relations_insertNode]

theorem attributes_storeAttributes (name : Str) (attributes : List Attribute) (st : Storage) :
    (storeAttributes name attributes st).attributes =
      st.attributes ++ attributes.map fun a => { a with node_name := name } := by
  unfold storeAttributes
  induction attributes generalizing st with
  | nil => simp
  | cons a attributes ih =>
    rw [List.foldl_cons, ih, Storage.insertAttribute, List.append_assoc]
    rfl

theorem attributes_stored (st : Storage) (m : NodeMsg) : (stored st m).attributes =
    st.attributes ++ m.attributes.map fun a => { a with node_name := m.nameA } := by
  have hloop : ∀ (relations : List Str) (st : Storage),
      (relations.foldl (fun st rel => (st.insertNode rel).insertRelation ⟨m.nameA, rel⟩)
        st).attributes = st.attributes := by
    intro relations
    induction relations with
    | nil => exact fun _ => rfl
    | cons rel relations ih =>
      intro st
      rw [List.foldl_cons, ih, Storage.insertRelation, Storage.attributes_insertNode]
  rw [stored, hloop, attributes_storeAttributes, Storage.attributes_insertNode]

theorem mem_nodes_stored {st : Storage} {m : NodeMsg} {x : Str} :
    x ∈ (stored st m).nodes ↔ x ∈ st.nodes ∨ x = m.nameA ∨ x ∈ m.relations := by
  have hloop : ∀ (relations : List Str) (st : Storage),
      x ∈ (relations.foldl (fun st rel => (st.insertNode rel).insertRelation ⟨m.nameA, rel⟩)
        st).nodes ↔ x ∈ st.nodes ∨ x ∈ relations := by
    intro relations
    induction relations with
    | nil => simp
    | cons rel relations ih =>
      intro st
      have hrow : ((st.insertNode rel).insertRelation ⟨m.nameA, rel⟩).nodes =
          (st.insertNode rel).nodes := rfl
      rw [List.foldl_cons, ih, hrow, Storage.mem_insertNode, List.mem_cons, or_assoc]
  rw [stored, hloop, nodes_storeAttributes, Storage.mem_insertNode, or_assoc]

section Loop

variable {from_addr : Host} {request_id : ℤ} {master_repos : List Host} {node_name : Str}

theorem reverseNode_ascii (h2 : 2 ≤ master_repos.length) {rel : Str} (hrel : AsciiName rel) :
    reverseNode node_name rel master_repos =
      .ok [⟨owner master_repos rel, .node ⟨rel, [], [node_name], 0, []⟩⟩] := by
  unfold reverseNode
  rw [if_neg (by omega), charAt_zero_ok, ok_bind, indexOfRelation_ascii hrel h2, ok_bind,
    hostAt_ownerIndex h2, ok_bind]
  rfl

/-- The relation loop, for any choice of the reverse messages that it sends. -/
theorem storeRelations_noThrow {reverse : Str → List Send} {relations : List Str}
    (h : ∀ rel ∈ relations, reverseNode node_name rel master_repos = .ok (reverse rel)) (k : ℕ)
    (st : Storage) (message : Str) :
    storeRelations noThrow from_addr node_name request_id master_repos k relations st message =
      .ok (relations.foldl (fun st rel => (st.insertNode rel).insertRelation ⟨node_name, rel⟩) st,
        message, relations.flatMap reverse) := by
  induction relations generalizing k st with
  | nil => rfl
  | cons rel relations ih =>
    have hrest := ih (fun r hr => h r (List.mem_cons_of_mem _ hr)) (k + 1)
      ((st.insertNode rel).insertRelation ⟨node_name, rel⟩)
    rw [storeRelations]
    simp only [noThrow] at hrest ⊢
    rw [h rel List.mem_cons_self, ok_bind, hrest, ok_bind]
    rfl

end Loop

section Forward

variable {main : Host} (from_addr : Host) {db : Process}

theorem replyTo_repository (hdb : IsRepository main db) (request_id : ℤ) (message : Str) :
    replyTo db request_id message =
      .ok (if request_id = 0 then [] else [⟨main, .response ⟨message, request_id⟩⟩]) := by
  unfold replyTo
  rw [hdb.repositories]
  split_ifs <;> rfl

/-- A host list as a message carries it: empty, or of a server with a repository. -/
def HostList (master_repos : List Host) : Prop := master_repos = [] ∨ 2 ≤ master_repos.length

theorem storeNode_ok (hdb : IsRepository main db) {m : NodeMsg} (hhosts : HostList m.master_repos)
    (hascii : ∀ rel ∈ m.relations, AsciiName rel) :
    storeNode noThrow db from_addr m m.master_repos =
      .ok ({ db with storage := stored db.storage m }, reverses m ++
        if m.request_id = 0 then []
        else [⟨main, .response ⟨storedReply db.storage m, m.request_id⟩⟩]) := by
  have hloop : ∀ st message, storeRelations noThrow from_addr m.nameA m.request_id m.master_repos 1
      m.relations st message = .ok (m.relations.foldl
        (fun st rel => (st.insertNode rel).insertRelation ⟨m.nameA, rel⟩) st, message,
        reverses m) := by
    intro st message
    rcases hhosts with hnil | h2
    · have hrev : reverses m = m.relations.flatMap fun _ => [] := by
        simp [reverses, hnil]
      rw [hrev]
      refine storeRelations_noThrow (fun rel _ => ?_) 1 st message
      rw [hnil]
      rfl
    · have hne : m.master_repos ≠ [] := by
        intro h
        rw [h] at h2
        simp at h2
      have hrev : reverses m = m.relations.flatMap fun rel =>
          [⟨owner m.master_repos rel, .node ⟨rel, [], [m.nameA], 0, []⟩⟩] := by
        rw [reverses, if_neg hne, List.map_eq_flatMap]
      rw [hrev]
      exact storeRelations_noThrow (fun rel hrel => reverseNode_ascii h2 (hascii rel hrel)) 1 st
        message
  unfold storeNode
  simp only [noThrow] at hloop ⊢
  rw [hloop, ok_bind]
  simp only
  rw [replyTo_repository hdb, ok_bind]
  rfl

/-- The message as the repository decodes it. -/
def NodeMsg.wire (m : NodeMsg) : NodeMsg := { m with attributes := m.attributes.map Attribute.wire }

theorem repository_node (hdb : IsRepository main db) {m : NodeMsg} (hm : m.Fits)
    (hhosts : HostList m.master_repos) (hascii : ∀ rel ∈ m.relations, AsciiName rel) :
    runConnection noThrow db from_addr (Msg.node m).buffer =
      .ok ({ db with storage := stored db.storage m.wire }, reverses m ++
        if m.request_id = 0 then []
        else [⟨main, .response ⟨storedReply db.storage m, m.request_id⟩⟩]) := by
  have hread := readNode_parseNewNode hm.name hm.relations_length hm.relations hm.attributes_length
    hm.attributes hm.id
  have hs : (m.nameA.length : ℤ) + 2 = (listHeader m.nameA m.relations m.attributes).length := by
    rw [length_listHeader]
    rfl
  have hpre : (listHeader m.nameA m.relations m.attributes).length < 2 ^ 32 := by
    have : m.nameA.length ≤ 999 := hm.name
    rw [length_listHeader]
    omega
  rw [runConnection_node]
  unfold nodeBranch
  rw [if_neg (by simp [hdb.free]), hread, ok_bind, if_neg (by simp [hdb.server]),
    if_pos hdb.repository]
  simp only
  rw [takeHosts_text hs hpre hm.hosts_length hm.hosts, ok_bind]
  exact storeNode_ok from_addr hdb (m := m.wire) hhosts hascii

/-! ## `R` -/

/-- The message as the server decodes it. -/
def InfoMsg.wire (i : InfoMsg) : InfoMsg := { i with attributes := i.attributes.map Attribute.wire }

@[simp] theorem InfoMsg.wire_request_id (i : InfoMsg) : i.wire.request_id = i.request_id := rfl
@[simp] theorem InfoMsg.wire_nameA (i : InfoMsg) : i.wire.nameA = i.nameA := rfl
@[simp] theorem InfoMsg.wire_relations (i : InfoMsg) : i.wire.relations = i.relations := rfl

/-- The reply to an `R`. -/
def queryReply (st : Storage) (q : QueryMsg) : InfoMsg where
  nameA := q.nameA
  attributes := st.attributesOf q.nameA
  relations := st.relationsOf q.nameA
  request_id := q.request_id
  valid_node := validNode q.depth q.leaf q.conditions (st.attributesOf q.nameA)

theorem repository_query (hdb : IsRepository main db) {m : QueryMsg} (hm : m.Fits) :
    runConnection noThrow db from_addr (Msg.query m).buffer =
      .ok (db, [⟨main, .info (queryReply db.storage m)⟩]) := by
  obtain ⟨header, -, hread⟩ := readQuery_parseNewQuery hm
  rw [runConnection_query]
  unfold queryBranch
  rw [hread, ok_bind, if_neg (by simp [hdb.server]), if_pos hdb.repository]
  unfold answerQuery
  rw [hdb.repositories]
  rfl

/-! ## `U` and `D` -/

theorem repository_update (hdb : IsRepository main db) {m : UpdateMsg} (hm : m.Fits) :
    runConnection noThrow db from_addr (Msg.update m).buffer =
      .ok (db, [⟨main, .response ⟨updatedText, m.request_id⟩⟩]) := by
  rw [runConnection_update]
  unfold updateBranch
  rw [if_neg (by simp [hdb.free]), readUpdate_parseNewUpdate hm, ok_bind,
    if_neg (by simp [hdb.server]), if_pos hdb.repository, hdb.repositories]
  rfl

/-- The secondary `D` for the reverse of a relation. -/
def reversesDelete (m : DeleteMsg) : List Send :=
  if m.object = 2 ∧ m.master_repos ≠ [] then
    [⟨owner m.master_repos m.attr_or_rel, .delete ⟨m.attr_or_rel, m.object, m.nameA, 0, []⟩⟩]
  else []

theorem reverseDelete_ok {m : DeleteMsg} (hhosts : HostList m.master_repos)
    (hascii : m.object = 2 → AsciiName m.attr_or_rel) (d : DeleteMsg)
    (hd : d.nameA = m.nameA ∧ d.object = m.object ∧
      (m.object = 2 → d.attr_or_rel = m.attr_or_rel)) :
    reverseDelete d m.master_repos = .ok (reversesDelete m) := by
  obtain ⟨hname, hobj, hattr⟩ := hd
  unfold reverseDelete reversesDelete
  by_cases h2 : m.object = 2
  · rcases hhosts with hnil | hlen
    · rw [hnil, if_neg (fun h => h.2 rfl), if_neg (fun h => h.2 rfl)]
      rfl
    · have hne : m.master_repos ≠ [] := by
        intro h
        rw [h] at hlen
        simp at hlen
      rw [if_pos ⟨hobj.trans h2, by omega⟩, if_pos ⟨h2, hne⟩, hattr h2, charAt_zero_ok, ok_bind,
        indexOfRelation_ascii (hascii h2) hlen, ok_bind, hostAt_ownerIndex hlen, ok_bind, hname,
        hobj]
      rfl
  · rw [if_neg (fun h => h2 (hobj ▸ h.1)), if_neg (fun h => h2 h.1)]
    rfl

theorem repository_delete (hdb : IsRepository main db) {m : DeleteMsg} (hm : m.Fits)
    (hhosts : HostList m.master_repos) (hascii : m.object = 2 → AsciiName m.attr_or_rel) :
    runConnection noThrow db from_addr (Msg.delete m).buffer =
      .ok (db, reversesDelete m ++
        if m.request_id = 0 then []
        else [⟨main, .response ⟨deletedText m.object, m.request_id⟩⟩]) := by
  have hpre : m.nameA.length < 2 ^ 32 := by
    have : m.nameA.length ≤ 999 := hm.name
    omega
  rw [runConnection_delete]
  unfold deleteBranch
  rw [if_neg (by simp [hdb.free]),
    readDelete_parseNewDelete hm.name hm.object hm.attr_or_rel hm.id, ok_bind,
    if_neg (by simp [hdb.server]), if_pos hdb.repository]
  simp only
  rw [takeHosts_text rfl hpre hm.hosts_length hm.hosts, ok_bind]
  have hreverse := reverseDelete_ok (m := m) hhosts hascii
    ⟨m.nameA, m.object, if 0 < m.object then m.attr_or_rel else [], m.request_id, []⟩
    ⟨rfl, rfl, fun h2 => if_pos (by omega)⟩
  simp only
  rw [hreverse, ok_bind, replyTo_repository hdb, ok_bind]
  rfl

end Forward

end DGDB
