import Mathlib
import DGDB.Existing
import DGDB.Writing

/-!
# Tables under any traffic

Whatever strings reach a process, from whom and in what order, and whatever its storage throws: the
tables of a repository are what the creates among the strings have written, in the order in which
they have been received. A name is a node once, and rows are about nodes. A server stores nothing.
-/

namespace DGDB

open EventSystem

/-! ## Tables with integrity -/

/-- Tables in which a name is a node once and the rows are about nodes. -/
structure Records where
  storage : Storage
  nodup : storage.nodes.Nodup
  attributes : ∀ r ∈ storage.attributes, r.node_name ∈ storage.nodes
  relations : ∀ r ∈ storage.relations, r.node_name1 ∈ storage.nodes ∧ r.node_name2 ∈ storage.nodes

theorem Storage.nodup_insertNode {st : Storage} (h : st.nodes.Nodup) (name : Str) :
    (st.insertNode name).nodes.Nodup := by
  unfold Storage.insertNode
  split_ifs with hmem
  · exact h
  · exact List.nodup_append'.mpr ⟨h, List.nodup_singleton name, by simpa using hmem⟩

theorem Storage.nodes_insertNode_start (st : Storage) (name : Str) :
    st.nodes <+: (st.insertNode name).nodes := by
  unfold Storage.insertNode
  split_ifs with hmem
  · exact List.prefix_rfl
  · exact List.prefix_append _ _

/-- The nodes of a create: their table grows at its end, and no name comes twice. -/
theorem nodes_stored (st : Storage) (m : NodeMsg) :
    st.nodes <+: (stored st m).nodes ∧ (st.nodes.Nodup → (stored st m).nodes.Nodup) := by
  have hloop : ∀ (relations : List Str) (st : Storage),
      st.nodes <+: (relations.foldl (fun st rel =>
        (st.insertNode rel).insertRelation ⟨m.nameA, rel⟩) st).nodes ∧
      (st.nodes.Nodup → (relations.foldl (fun st rel =>
        (st.insertNode rel).insertRelation ⟨m.nameA, rel⟩) st).nodes.Nodup) := by
    intro relations
    induction relations with
    | nil => exact fun st => ⟨List.prefix_rfl, id⟩
    | cons rel relations ih =>
      intro st
      obtain ⟨hstart, hnodup⟩ := ih ((st.insertNode rel).insertRelation ⟨m.nameA, rel⟩)
      exact ⟨(st.nodes_insertNode_start rel).trans hstart,
        fun h => hnodup (Storage.nodup_insertNode h rel)⟩
  obtain ⟨hstart, hnodup⟩ := hloop m.relations
    (storeAttributes m.nameA m.attributes (st.insertNode m.nameA))
  rw [nodes_storeAttributes] at hstart hnodup
  exact ⟨(st.nodes_insertNode_start m.nameA).trans hstart,
    fun h => hnodup (Storage.nodup_insertNode h m.nameA)⟩

namespace Records

def empty : Records := ⟨Storage.empty, List.nodup_nil, nofun, nofun⟩

/-- A create is written. -/
def write (r : Records) (m : NodeMsg) : Records where
  storage := stored r.storage m
  nodup := (nodes_stored r.storage m).2 r.nodup
  attributes := OwnRows.stored r.attributes
  relations := by
    intro row hrow
    rw [relations_stored] at hrow
    rw [mem_nodes_stored, mem_nodes_stored]
    rcases List.mem_append.mp hrow with hrow | hrow
    · exact (r.relations row hrow).imp Or.inl Or.inl
    · obtain ⟨rel, hrel, rfl⟩ := List.mem_map.mp hrow
      exact ⟨Or.inr (Or.inl rfl), Or.inr (Or.inr hrel)⟩

/-- The tables of `r` are the first rows of those of `r'`. -/
structure Le (r r' : Records) : Prop where
  nodes : r.storage.nodes <+: r'.storage.nodes
  attributes : r.storage.attributes <+: r'.storage.attributes
  relations : r.storage.relations <+: r'.storage.relations

instance : Preorder Records where
  le := Le
  le_refl _ := ⟨List.prefix_rfl, List.prefix_rfl, List.prefix_rfl⟩
  le_trans _ _ _ h h' := ⟨h.nodes.trans h'.nodes, h.attributes.trans h'.attributes,
    h.relations.trans h'.relations⟩

theorem le_write (r : Records) (m : NodeMsg) : r ≤ r.write m :=
  ⟨(nodes_stored r.storage m).1, ⟨_, (attributes_stored r.storage m).symm⟩,
    ⟨_, (relations_stored r.storage m).symm⟩⟩

theorem le_foldl_write (creates : List NodeMsg) (r : Records) : r ≤ creates.foldl write r := by
  induction creates generalizing r with
  | nil => exact le_rfl
  | cons m creates ih => exact (r.le_write m).trans (ih (r.write m))

end Records

/-! ## Runs of a process -/

/-- The create that a repository writes when it has received a string: a `C` that it can read, if
the storage does not throw at the node, with the relations at which it does not throw. -/
def Received.create (e : Received) : Option NodeMsg :=
  if e.s_buffer.headD 0 = ch 'C' ∧ e.throws 0 = none then
    match readNode e.s_buffer with
    | .ok d => some { d.fields with relations := kept e.throws 1 d.fields.relations }
    | .error _ => none
  else none

/-- A process that takes part as a repository, and refuses no writes. -/
structure Process.StoresFor (db : Process) (r : Records) : Prop where
  server : db.server = false
  repository : db.repository = true
  free : db.cud_blocking = false
  storage : db.storage = r.storage

section Turns

variable {db db' : Process} {e : Received} {es : List Received}

theorem receive_eq_some (h : db.receive e = some db') :
    ∃ out, runConnection e.throws db e.from_addr e.s_buffer = .ok (db', out) := by
  unfold Process.receive at h
  split at h
  · rename_i out hrun
    cases h
    exact ⟨out, hrun⟩
  · cases h

theorem RepositoryStep.free {from_addr : Host} {s_buffer : Str} {out : List Send}
    (h : RepositoryStep db from_addr s_buffer db' out) (hfree : db.cud_blocking = false) :
    db'.cud_blocking = false := by
  cases h with
  | info _ _ hstep =>
    cases hstep with
    | next => exact hfree
    | complete => rfl
    | mismatch => rfl
  | node _ _ _ hstep => cases hstep <;> exact hfree
  | _ => exact hfree

/-- **One turn of a repository**: it writes the create it has received, if it has. -/
theorem Process.StoresFor.receive {r : Records} (h : db.StoresFor r)
    (hstep : db.receive e = some db') :
    db'.StoresFor (e.create.elim r r.write) := by
  obtain ⟨out, hrun⟩ := receive_eq_some hstep
  obtain ⟨hserver, hrepository, hstorage⟩ := tables_of_turn h.server h.repository hrun
  have hfree := (repositoryStep_of_runConnection h.server h.repository hrun).free h.free
  have hwritten : written e.throws db e.s_buffer = e.create := by
    unfold written Received.create
    exact if_congr (by simp [h.free]) rfl rfl
  refine ⟨hserver, hrepository, hfree, ?_⟩
  rw [hstorage, hwritten, h.storage]
  cases e.create with
  | none => rfl
  | some m => rfl

theorem ServerStep.storage {from_addr : Host} {s_buffer : Str} {out : List Send}
    (h : ServerStep db from_addr s_buffer db' out) : db'.server = db.server ∧
      db'.storage = db.storage := by
  cases h with
  | info _ _ hstep => cases hstep <;> exact ⟨rfl, rfl⟩
  | _ => exact ⟨rfl, rfl⟩

/-- **Tables under any traffic.** Let any strings reach a process, from any hosts, with any
exceptions of its storage, and let every turn end. The tables of a repository are then the ones it
had with the creates among the strings written behind them in order, so they keep their rows, no
name is a node twice, and every row is about nodes. The tables of a server are the ones it had. -/
theorem tables_of_traffic (hrun : run Process.receive db es = some db') :
    (∀ r : Records, db.StoresFor r →
      db'.StoresFor ((es.filterMap Received.create).foldl Records.write r) ∧
        r ≤ (es.filterMap Received.create).foldl Records.write r) ∧
    (db.server = true → db'.storage = db.storage) := by
  refine ⟨fun r h => ⟨?_, Records.le_foldl_write _ r⟩, fun hserver => ?_⟩
  · induction es generalizing db r with
    | nil =>
      cases hrun
      exact h
    | cons e es ih =>
      obtain ⟨db₁, hstep, hrun⟩ := run_cons.mp hrun
      have h₁ := ih hrun _ (h.receive hstep)
      cases hcreate : e.create with
      | none =>
        rw [hcreate] at h₁
        rwa [List.filterMap_cons_none hcreate]
      | some m =>
        rw [hcreate] at h₁
        rwa [List.filterMap_cons_some hcreate]
  · have hkeep := (Along.of_preserved (I := fun db₁ => db₁.server = true ∧ db₁.storage = db.storage)
      (fun db₁ e db₂ hI hstep => ?_) ⟨hserver, rfl⟩ es).last hrun
    · exact hkeep.2
    · obtain ⟨out, hturn⟩ := receive_eq_some hstep
      obtain ⟨hserver', hstorage⟩ := (serverStep_of_runConnection hI.1 hturn).storage
      exact ⟨hserver'.trans hI.1, hstorage.trans hI.2⟩

end Turns

/-- A string that is no message, a create of a with a relation to b whose storage throws at the
relation, the same again without, and a query. -/
def mixedTraffic : List Received :=
  let server := oneRepository.address
  [⟨clientHost 7, str "hello", noThrow⟩, ⟨server, (Msg.node (createAB 3)).buffer, failing 1⟩,
    ⟨server, (Msg.node (createAB 4)).buffer, noThrow⟩,
    ⟨server, (lookup (str "b") 5).buffer, noThrow⟩]

/-- The node is written once, and its relation. -/
theorem tables_of_mixed_traffic : ∃ db' r,
    run Process.receive (Process.newRepository oneRepository) mixedTraffic = some db' ∧
      db'.StoresFor r ∧ Records.empty ≤ r ∧
      r.storage = ⟨[str "a", str "b"], [], [⟨str "a", str "b"⟩]⟩ := by
  have hrun : ∃ db', run Process.receive (Process.newRepository oneRepository) mixedTraffic =
      some db' ∧ db'.storage = ⟨[str "a", str "b"], [], [⟨str "a", str "b"⟩]⟩ :=
    exists_of_check (by decide +kernel)
  obtain ⟨db', hdb', hstorage⟩ := hrun
  obtain ⟨hstores, hle⟩ := (tables_of_traffic hdb').1 Records.empty ⟨rfl, rfl, rfl, rfl⟩
  exact ⟨db', _, hdb', hstores, hle, hstores.storage.symm.trans hstorage⟩

end DGDB
