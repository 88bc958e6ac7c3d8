import Mathlib
import DGDB.Exclusion
import DGDB.Turn
import DGDB.Storing

/-!
# What a repository writes

The tables of a repository change on a `C` and on nothing else. `written` is what a turn stores;
from it come the exact conditions for tables without duplicate rows and for a create that is
answered once.
-/

namespace DGDB

open EventSystem

/-! ## The rows of a turn -/

/-- The relations whose guarded block does not throw, the first block being the `k`-th. -/
def kept (throws : ℕ → Option Str) : ℕ → List Str → List Str
  | _, [] => []
  | k, rel :: relations =>
    if throws k = none then rel :: kept throws (k + 1) relations else kept throws (k + 1) relations

/-- The node that a repository stores on a received string, with the relations it keeps. -/
def written (throws : ℕ → Option Str) (db : Process) (s_buffer : Str) : Option NodeMsg :=
  if s_buffer.headD 0 = ch 'C' ∧ db.cud_blocking = false ∧ throws 0 = none then
    match readNode s_buffer with
    | .ok d => some { d.fields with relations := kept throws 1 d.fields.relations }
    | .error _ => none
  else none

section Turn

variable {throws : ℕ → Option Str} {db db' : Process} {from_addr : Host} {s_buffer : Str}
  {out : List Send} {m : NodeMsg} {master_repos : List Host}

theorem storage_of_storeRelations {node_name : Str} {request_id : ℤ} {relations : List Str} :
    ∀ {k : ℕ} {storage storage' : Storage} {message message' : Str} {out : List Send},
      storeRelations throws from_addr node_name request_id master_repos k relations storage
        message = .ok (storage', message', out) →
      storage' = (kept throws k relations).foldl
        (fun st rel => (st.insertNode rel).insertRelation ⟨node_name, rel⟩) storage := by
  induction relations with
  | nil =>
    intro k storage storage' message message' out h
    cases h
    rfl
  | cons rel relations ih =>
    intro k storage storage' message message' out h
    unfold storeRelations at h
    cases hthrow : throws k with
    | some what =>
      rw [hthrow] at h
      obtain ⟨⟨st, msg, out₁⟩, hrest, h⟩ := bind_eq_ok.mp h
      cases h
      rw [kept, if_neg (by simp [hthrow])]
      exact ih hrest
    | none =>
      rw [hthrow] at h
      obtain ⟨reverse, -, h⟩ := bind_eq_ok.mp h
      obtain ⟨⟨st, msg, out₁⟩, hrest, h⟩ := bind_eq_ok.mp h
      cases h
      rw [kept, if_pos hthrow, List.foldl_cons]
      exact ih hrest

theorem storage_of_storeNode (h : storeNode throws db from_addr m master_repos = .ok (db', out)) :
    db' = if throws 0 = none then
        { db with storage := stored db.storage { m with relations := kept throws 1 m.relations } }
      else db := by
  unfold storeNode at h
  cases hthrow : throws 0 with
  | some what =>
    rw [hthrow] at h
    cases h
    rw [if_neg (by simp)]
  | none =>
    rw [hthrow] at h
    obtain ⟨⟨storage, message, out₁⟩, hloop, h⟩ := bind_eq_ok.mp h
    obtain ⟨reply, -, h⟩ := bind_eq_ok.mp h
    cases h
    rw [storage_of_storeRelations hloop, if_pos rfl]
    rfl

theorem create_turn (hserver : db.server = false) (hrepo : db.repository = true)
    (hhead : s_buffer.headD 0 = ch 'C') (hfree : db.cud_blocking = false)
    (h : runConnection throws db from_addr s_buffer = .ok (db', out)) :
    ∃ d master_repos rest, readNode s_buffer = .ok d ∧
      takeHosts d.s d.s_buffer = .ok (master_repos, rest) ∧
      storeNode throws db from_addr d.fields master_repos = .ok (db', out) := by
  rw [runConnection_C hhead] at h
  unfold nodeBranch at h
  rw [if_neg (by simp [hfree])] at h
  obtain ⟨d, hread, h⟩ := bind_eq_ok.mp h
  rw [if_neg (by simp [hserver]), if_pos hrepo] at h
  obtain ⟨⟨hosts, rest⟩, hhosts, h⟩ := bind_eq_ok.mp h
  exact ⟨d, hosts, rest, hread, hhosts, h⟩

/-- **A turn stores what `written` says**, and the process stays a repository. -/
theorem tables_of_turn (hserver : db.server = false) (hrepo : db.repository = true)
    (h : runConnection throws db from_addr s_buffer = .ok (db', out)) :
    db'.server = false ∧ db'.repository = true ∧
      db'.storage = (written throws db s_buffer).elim db.storage (stored db.storage) := by
  by_cases hcreate : s_buffer.headD 0 = ch 'C' ∧ db.cud_blocking = false
  · obtain ⟨d, hosts, rest, hread, -, hstore⟩ :=
      create_turn hserver hrepo hcreate.1 hcreate.2 h
    have hstorage := storage_of_storeNode hstore
    unfold written
    by_cases hthrow : throws 0 = none
    · rw [if_pos hthrow] at hstorage
      rw [if_pos ⟨hcreate.1, hcreate.2, hthrow⟩, hread, hstorage]
      exact ⟨hserver, hrepo, rfl⟩
    · rw [if_neg hthrow] at hstorage
      rw [if_neg fun hand => hthrow hand.2.2, hstorage]
      exact ⟨hserver, hrepo, rfl⟩
  · have hnone : written throws db s_buffer = none :=
      if_neg fun hand => hcreate ⟨hand.1, hand.2.1⟩
    rw [hnone]
    cases repositoryStep_of_runConnection hserver hrepo h with
    | response => exact ⟨hserver, hrepo, rfl⟩
    | info _ _ hstep => cases hstep <;> exact ⟨hserver, hrepo, rfl⟩
    | busy => exact ⟨hserver, hrepo, rfl⟩
    | node hhead _ _ hstep =>
      have hbusy : db.cud_blocking = true := by
        simpa using fun hfree => hcreate ⟨hhead, hfree⟩
      rw [runConnection_C hhead, nodeBranch, if_pos hbusy] at h
      cases h
      exact ⟨hserver, hrepo, rfl⟩
    | query => exact ⟨hserver, hrepo, rfl⟩
    | update => exact ⟨hserver, hrepo, rfl⟩
    | delete => exact ⟨hserver, hrepo, rfl⟩
    | register => exact ⟨hserver, rfl, rfl⟩
    | ignore => exact ⟨hserver, hrepo, rfl⟩

end Turn

/-! ## The answer to a create -/

section Answer

variable {throws : ℕ → Option Str} {db db' : Process} {from_addr : Host} {s_buffer : Str}
  {out : List Send} {m : NodeMsg} {master_repos : List Host}

end Answer

/-- A `C` for a with a relation to b. -/
def createAB (request_id : ℤ) : NodeMsg := ⟨str "a", [], [str "b"], request_id, []⟩

/-- A storage of which only the `k`-th block throws. -/
def failing (k : ℕ) : ℕ → Option Str := fun i => if i = k then some (str "disk I/O error") else none

/-- No pair of names is stored twice, and no key of a node. -/
structure NoDuplicates (st : Storage) : Prop where
  relations : st.relations.Nodup
  attributes : (st.attributes.map fun a => (a.node_name, a.key)).Nodup

/-- The rows of a node that is stored are new, and different from each other. -/
structure Fresh (st : Storage) (m : NodeMsg) : Prop where
  relations : m.relations.Nodup ∧ ∀ rel ∈ m.relations, ⟨m.nameA, rel⟩ ∉ st.relations
  attributes : (m.attributes.map Attribute.key).Nodup ∧
    ∀ a ∈ m.attributes, ∀ b ∈ st.attributes, b.node_name = m.nameA → b.key ≠ a.key

instance (st : Storage) : Decidable (NoDuplicates st) :=
  decidable_of_iff (st.relations.Nodup ∧ (st.attributes.map fun a => (a.node_name, a.key)).Nodup)
    ⟨fun h => ⟨h.1, h.2⟩, fun h => ⟨h.1, h.2⟩⟩

/-- Storing a node keeps the tables without duplicates exactly if its rows are fresh. -/
theorem noDuplicates_stored_iff {st : Storage} (h : NoDuplicates st) (m : NodeMsg) :
    NoDuplicates (stored st m) ↔ Fresh st m := by
  have hrelations : (stored st m).relations.Nodup ↔
      m.relations.Nodup ∧ ∀ rel ∈ m.relations, ⟨m.nameA, rel⟩ ∉ st.relations := by
    have hinj : (m.relations.map fun rel => (⟨m.nameA, rel⟩ : Relation)).Nodup ↔
        m.relations.Nodup :=
      List.nodup_map_iff fun x y hxy => congrArg Relation.node_name2 hxy
    rw [relations_stored, List.nodup_append', hinj]
    constructor
    · rintro ⟨-, hnew, hdisjoint⟩
      exact ⟨hnew, fun rel hrel hold => hdisjoint hold (List.mem_map_of_mem hrel)⟩
    · rintro ⟨hnew, hfresh⟩
      refine ⟨h.relations, hnew, fun r hold hr => ?_⟩
      obtain ⟨rel, hrel, rfl⟩ := List.mem_map.mp hr
      exact hfresh rel hrel hold
  have hattributes : ((stored st m).attributes.map fun a => (a.node_name, a.key)).Nodup ↔
      (m.attributes.map Attribute.key).Nodup ∧
        ∀ a ∈ m.attributes, ∀ b ∈ st.attributes, b.node_name = m.nameA → b.key ≠ a.key := by
    have hmap : (m.attributes.map fun a => { a with node_name := m.nameA }).map
        (fun a => (a.node_name, a.key)) =
          (m.attributes.map Attribute.key).map fun key => (m.nameA, key) := by
      rw [List.map_map, List.map_map]
      rfl
    have hinj : ((m.attributes.map Attribute.key).map fun key => (m.nameA, key)).Nodup ↔
        (m.attributes.map Attribute.key).Nodup :=
      List.nodup_map_iff fun x y hxy => congrArg Prod.snd hxy
    rw [attributes_stored, List.map_append, hmap, List.nodup_append', hinj]
    constructor
    · rintro ⟨-, hnew, hdisjoint⟩
      refine ⟨hnew, fun a ha b hb hname hkey => ?_⟩
      refine hdisjoint (List.mem_map_of_mem hb) ?_
      rw [hname, hkey]
      exact List.mem_map_of_mem (List.mem_map_of_mem ha)
    · rintro ⟨hnew, hfresh⟩
      refine ⟨h.attributes, hnew, fun p hold hp => ?_⟩
      obtain ⟨b, hb, rfl⟩ := List.mem_map.mp hold
      obtain ⟨key, hkey, heq⟩ := List.mem_map.mp hp
      obtain ⟨a, ha, rfl⟩ := List.mem_map.mp hkey
      exact hfresh a ha b hb (congrArg Prod.fst heq).symm (congrArg Prod.snd heq).symm
  exact ⟨fun hnew => ⟨hrelations.mp hnew.relations, hattributes.mp hnew.attributes⟩,
    fun hnew => ⟨hrelations.mpr hnew.relations, hattributes.mpr hnew.attributes⟩⟩

/-- Storing a node leaves the tables as they were only if there is nothing to store. -/
theorem stored_eq_iff (st : Storage) (m : NodeMsg) :
    stored st m = st ↔ m.nameA ∈ st.nodes ∧ m.attributes = [] ∧ m.relations = [] := by
  constructor
  · intro h
    have hrelations := congrArg (fun st => st.relations.length) h
    have hattributes := congrArg (fun st => st.attributes.length) h
    simp only [relations_stored, attributes_stored, List.length_append, List.length_map,
      Nat.add_eq_left, List.length_eq_zero_iff] at hrelations hattributes
    refine ⟨?_, hattributes, hrelations⟩
    unfold stored storeAttributes at h
    rw [hrelations, hattributes, List.foldl_nil, List.foldl_nil] at h
    rw [← h]
    exact st.mem_nodes_insertNode m.nameA
  · rintro ⟨hname, hattributes, hrelations⟩
    unfold stored storeAttributes Storage.insertNode
    rw [hrelations, hattributes, List.foldl_nil, List.foldl_nil, if_pos hname]

/-- No repository has duplicate rows. -/
def World.NoDuplicates (cfg : Config) (w : World) : Prop :=
  ∀ h ∈ cfg.repos, DGDB.NoDuplicates (w.repo h).storage

/-- What a delivery makes a repository store is fresh. -/
def StoresFresh (cfg : Config) (w : World) : Event → Prop
  | .request _ _ => True
  | .deliver a throws => a.dst ∈ cfg.repos → ∀ m,
      written throws (w.repo a.dst) a.msg.buffer = some m → Fresh (w.repo a.dst).storage m

/-- The repositories run as such. -/
def World.AreRepositories (cfg : Config) (w : World) : Prop :=
  ∀ h ∈ cfg.repos, (w.repo h).server = false ∧ (w.repo h).repository = true

section Runs

variable {cfg : Config} {w w' : World} {e : Event}

theorem noDuplicates_step (hrepos : w.AreRepositories cfg) (h : w.NoDuplicates cfg)
    (hstep : w.step cfg e = some w') :
    w'.AreRepositories cfg ∧ (w'.NoDuplicates cfg ↔ StoresFresh cfg w e) := by
  cases e with
  | request client msg =>
    obtain ⟨-, -, rfl⟩ := step_request hstep
    exact ⟨hrepos, iff_of_true h trivial⟩
  | deliver a throws =>
    obtain ⟨rest, -, hhandle⟩ := step_deliver hstep
    rcases handle_cases hhandle with ⟨hdst, db, out, -, rfl⟩ | ⟨hdst, db, out, hrun, rfl⟩ |
      ⟨hdst, rfl⟩
    · have hapart : a.dst ∉ cfg.repos := hdst ▸ cfg.apart
      unfold World.AreRepositories World.NoDuplicates
      rw [World.serverTurn_repo]
      exact ⟨hrepos, iff_of_true h fun hmem => absurd hmem hapart⟩
    · obtain ⟨hserver, hrepository⟩ := hrepos a.dst hdst
      obtain ⟨hserver', hrepository', hstorage⟩ := tables_of_turn hserver hrepository hrun
      have hnew : DGDB.NoDuplicates db.storage ↔ StoresFresh cfg w (.deliver a throws) := by
        have hold := h a.dst hdst
        rw [hstorage]
        constructor
        · intro hnew _ m hm
          rw [hm] at hnew
          exact (noDuplicates_stored_iff hold m).mp hnew
        · intro hfresh
          cases hm : written throws (w.repo a.dst) a.msg.buffer with
          | none => exact hold
          | some m => exact (noDuplicates_stored_iff hold m).mpr (hfresh hdst m hm)
      refine ⟨World.forall_repoTurn (fun db => db.server = false ∧ db.repository = true)
        ⟨hserver', hrepository'⟩ hrepos, ?_⟩
      rw [← hnew]
      constructor
      · intro hall
        have hself := hall a.dst hdst
        rwa [World.repoTurn_self] at hself
      · exact fun hdb => World.forall_repoTurn (fun db => DGDB.NoDuplicates db.storage) hdb h
    · exact ⟨hrepos, iff_of_true h fun hmem => absurd hmem hdst.2⟩

/-- **No duplicate rows.** A run of any requests, in any order of delivery and with any exceptions
of the storage, keeps the tables of all repositories without duplicates exactly if every `C` that a
repository stores brings fresh rows. A turn leaves the tables as they were exactly if it stores
nothing: no `C`, or the `C` of a node that exists, without attributes and relations to keep. -/
theorem no_duplicates_iff (cfg : Config) (es : List Event) :
    (Along (World.step cfg) (World.NoDuplicates cfg) (World.start cfg) es ↔
      Meets (World.step cfg) (StoresFresh cfg) (World.start cfg) es) ∧
    ∀ (throws : ℕ → Option Str) (db db' : Process) (from_addr : Host) (s_buffer : Str)
      (out : List Send), db.server = false → db.repository = true →
      runConnection throws db from_addr s_buffer = .ok (db', out) →
      (db'.storage = db.storage ↔ ∀ m, written throws db s_buffer = some m →
        m.nameA ∈ db.storage.nodes ∧ m.attributes = [] ∧ m.relations = []) := by
  constructor
  · refine along_iff_meets (J := World.AreRepositories cfg) (G := World.NoDuplicates cfg)
      (fun s e s' hJ hG hs => noDuplicates_step hJ hG hs) ?_ ?_
    · exact fun _ _ => ⟨rfl, rfl⟩
    · exact fun _ _ => ⟨List.nodup_nil, List.nodup_nil⟩
  · intro throws db db' from_addr s_buffer out hserver hrepo hrun
    rw [(tables_of_turn hserver hrepo hrun).2.2]
    cases written throws db s_buffer with
    | none => exact iff_of_true rfl fun m hm => by cases hm
    | some m =>
      refine (stored_eq_iff db.storage m).trans ⟨fun hall m' hm' => ?_, fun hall => hall m rfl⟩
      cases hm'
      exact hall

end Runs

/-- Client 1 creates a with a relation to b, twice. -/
def createTwice : List Event :=
  let server := oneRepository.address
  let repository : Host := ⟨str "10.0.0.2", 50001⟩
  let create (n : ℤ) : Msg := .node ⟨str "a", [], [str "b"], n, oneRepository.hosts⟩
  [.request (clientHost 1) (.node ⟨str "a", [], [str "b"], 0, []⟩),
    .request (clientHost 1) (.node ⟨str "a", [], [str "b"], 0, []⟩),
    .deliver ⟨clientHost 1, server, .node ⟨str "a", [], [str "b"], 0, []⟩, 0⟩ noThrow,
    .deliver ⟨server, repository, create 1, 1⟩ noThrow,
    .deliver ⟨clientHost 1, server, .node ⟨str "a", [], [str "b"], 0, []⟩, 0⟩ noThrow,
    .deliver ⟨server, repository, create 2, 2⟩ noThrow]

/-- The repository calls the second one skipped and stores its relation again. -/
theorem duplicate_rows : ∃ w,
    run (World.step oneRepository) (World.start oneRepository) createTwice = some w ∧
    (w.repo ⟨str "10.0.0.2", 50001⟩).storage.relations =
      [⟨str "a", str "b"⟩, ⟨str "a", str "b"⟩] ∧
    ¬ Along (World.step oneRepository) (World.NoDuplicates oneRepository)
      (World.start oneRepository) createTwice := by
  have hrun : ∃ w, run (World.step oneRepository) (World.start oneRepository) createTwice =
      some w ∧ (w.repo ⟨str "10.0.0.2", 50001⟩).storage.relations =
        [⟨str "a", str "b"⟩, ⟨str "a", str "b"⟩] := exists_of_check (by decide +kernel)
  obtain ⟨w, hw, hrelations⟩ := hrun
  refine ⟨w, hw, hrelations, fun halong => ?_⟩
  have hnodup := (halong.last hw ⟨str "10.0.0.2", 50001⟩ (by decide)).relations
  rw [hrelations] at hnodup
  revert hnodup
  decide

end DGDB
