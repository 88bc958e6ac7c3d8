import Mathlib
import DGDB.Overlap

/-!
# The graph store

What the database is for: a graph with attributes, which creates extend in both directions of their
relations and which queries search breadth first. `Follows` relates it to the tables of the
repositories when messages with reverse relations are still on their way.
-/

namespace DGDB

open EventSystem GraphSearch

/-! ## The store -/

/-- Nodes with the rows of their relations and attributes. -/
structure GraphStore where
  nodes : Finset Str
  tables : Tables

namespace GraphStore

def empty : GraphStore := ⟨∅, fun _ => [], fun _ => []⟩

/-- A create adds its node and those related to it, each relation in both directions, and the
attributes. -/
def create (g : GraphStore) (m : NodeMsg) : GraphStore where
  nodes := g.nodes ∪ (m.nameA :: m.relations).toFinset
  tables :=
    { relations := fun x => g.tables.relations x ++ ((if m.nameA = x then m.relations else []) ++
        List.replicate (m.relations.count x) m.nameA)
      attributes := fun x => g.tables.attributes x ++
        if m.nameA = x then m.attributes.map fun a => { a with node_name := m.nameA } else [] }

/-- Only creates have an effect: an update or a delete is acknowledged and that is all. -/
def apply (g : GraphStore) : Msg → GraphStore
  | .node m => g.create m
  | _ => g

/-- The names a query visits, in breadth-first order and with the depth that is left for them. -/
def visits (g : GraphStore) (m : QueryMsg) : List (Str × ℕ) :=
  order g.tables.relations (ball g.tables.relations m.depth.toNat m.nameA).length
    [(m.nameA, m.depth.toNat)] {m.nameA}

/-- Whether the query `m` lists the name `x` with the depth `t` left. -/
def valid (g : GraphStore) (m : QueryMsg) (x : Str) (t : ℤ) : Bool :=
  validNode t m.leaf m.conditions (g.tables.attributes x)

/-- The lines of the query `m` for the names of `log`. -/
def lines (g : GraphStore) (m : QueryMsg) (log : List (Str × ℕ)) : Str :=
  listing (g.valid m) g.tables.attributes m.attr m.depth.toNat log

/-- The text that a request is answered with. -/
def answer (g : GraphStore) : Msg → Str
  | .node m => (if m.nameA ∈ g.nodes then existsText else []) ++ storedText
  | .query m => completeText (g.lines m (g.visits m))
  | .update _ => updatedText
  | .delete m => deletedText m.object
  | _ => []

/-- The store after a list of requests. -/
def after (requests : List Msg) : GraphStore := requests.foldl apply empty

theorem after_append (requests : List Msg) (m : Msg) :
    after (requests ++ [m]) = (after requests).apply m := by
  rw [after, after, List.foldl_append]
  rfl

theorem apply_of_not_node {m : Msg} (h : ∀ c, m ≠ .node c) (g : GraphStore) : g.apply m = g := by
  cases m with
  | node c => exact absurd rfl (h c)
  | _ => rfl

theorem create_congr (g : GraphStore) {m m' : NodeMsg} (hname : m'.nameA = m.nameA)
    (hrelations : m'.relations = m.relations)
    (hattributes : m'.attributes = m.attributes.map Attribute.wire) : g.create m' = g.create m := by
  have hrows : (m.attributes.map Attribute.wire).map (fun a => { a with node_name := m.nameA }) =
      m.attributes.map fun a => { a with node_name := m.nameA } := by
    rw [List.map_map]
    rfl
  unfold create
  rw [hname, hrelations, hattributes, hrows]

end GraphStore

/-- The requests that have been accepted, in their order. -/
def World.requests (w : World) : List Msg := w.accepted.map fun p => p.2.msg

/-! ## Rows of a repository -/

theorem relationsOf_stored (st : Storage) (m : NodeMsg) (x : Str) :
    (stored st m).relationsOf x = st.relationsOf x ++ if m.nameA = x then m.relations else [] := by
  unfold Storage.relationsOf
  rw [relations_stored, List.filter_append, List.map_append, List.filter_map]
  congr 1
  split_ifs with h
  · simp [Function.comp_def, h]
  · simp [Function.comp_def, h]

theorem attributesOf_stored (st : Storage) (m : NodeMsg) (x : Str) :
    (stored st m).attributesOf x = st.attributesOf x ++
      if m.nameA = x then m.attributes.map fun a => { a with node_name := m.nameA } else [] := by
  unfold Storage.attributesOf
  rw [attributes_stored, List.filter_append, List.filter_map]
  congr 1
  split_ifs with h
  · simp [Function.comp_def, h]
  · simp [Function.comp_def, h]

/-! ## The store and the repositories -/

/-- The `C` for a reverse relation that `a` brings to a repository. -/
def reverseMsg (cfg : Config) (a : Envelope) : Option NodeMsg :=
  match a.msg with
  | .node m => if a.dst ∈ cfg.repos ∧ m.master_repos = [] then some m else none
  | _ => none

/-- The reverse relations on their way, oldest first. -/
def coming (cfg : Config) (l : List Envelope) : List NodeMsg := l.filterMap (reverseMsg cfg)

/-- The repositories have the rows of the store `g`, but for the reverse relations in `coming`. -/
structure Follows (cfg : Config) (g : GraphStore) (repo : Host → Process) (coming : List NodeMsg) :
    Prop where
  relations : ∀ x, g.tables.relations x = (repo (owner cfg.hosts x)).storage.relationsOf x ++
    coming.flatMap fun m => if m.nameA = x then m.relations else []
  attributes : ∀ x, g.tables.attributes x = (repo (owner cfg.hosts x)).storage.attributesOf x
  nodes : ∀ x, x ∈ g.nodes ↔ x ∈ (repo (owner cfg.hosts x)).storage.nodes ∨
    ∃ m ∈ coming, m.nameA = x
  reverse : ∀ m ∈ coming, m.attributes = [] ∧ ∀ y ∈ m.relations, y ∈ g.nodes

section Store

variable {cfg : Config} {g : GraphStore} {repo : Host → Process} {m : NodeMsg} {host : Host}
  {l₁ l₂ : List NodeMsg} {x : Str}

/-- What a repository stores changes the rows of one name only. -/
theorem relationsOf_store (hhost : host = owner cfg.hosts m.nameA) (x : Str) :
    (Function.update repo host ((repo host).store m) (owner cfg.hosts x)).storage.relationsOf x =
      (repo (owner cfg.hosts x)).storage.relationsOf x ++
        if m.nameA = x then m.relations else [] := by
  by_cases heq : owner cfg.hosts x = host
  · rw [heq, Function.update_self]
    exact relationsOf_stored _ m.wire x
  · rw [Function.update_of_ne heq, if_neg, List.append_nil]
    rintro rfl
    exact heq hhost.symm

theorem attributesOf_store (hhost : host = owner cfg.hosts m.nameA) (x : Str) :
    (Function.update repo host ((repo host).store m) (owner cfg.hosts x)).storage.attributesOf x =
      (repo (owner cfg.hosts x)).storage.attributesOf x ++
        if m.nameA = x then m.attributes.map fun a => { a with node_name := m.nameA } else [] := by
  by_cases heq : owner cfg.hosts x = host
  · rw [heq, Function.update_self]
    have hrows : (m.attributes.map Attribute.wire).map (fun a => { a with node_name := m.nameA }) =
        m.attributes.map fun a => { a with node_name := m.nameA } := by
      rw [List.map_map]
      rfl
    rw [← hrows]
    exact attributesOf_stored _ m.wire x
  · rw [Function.update_of_ne heq, if_neg, List.append_nil]
    rintro rfl
    exact heq hhost.symm

theorem mem_nodes_store :
    x ∈ (Function.update repo host ((repo host).store m) (owner cfg.hosts x)).storage.nodes ↔
      x ∈ (repo (owner cfg.hosts x)).storage.nodes ∨
        owner cfg.hosts x = host ∧ (x = m.nameA ∨ x ∈ m.relations) := by
  by_cases heq : owner cfg.hosts x = host
  · rw [heq, Function.update_self]
    have hstored : x ∈ ((repo host).store m).storage.nodes ↔
        x ∈ (repo host).storage.nodes ∨ x = m.nameA ∨ x ∈ m.relations :=
      mem_nodes_stored (m := m.wire)
    simpa using hstored
  · rw [Function.update_of_ne heq]
    simp [heq]

/-- **A repository stores a reverse relation**, the oldest one for its name. -/
theorem Follows.store_reverse (h : Follows cfg g repo (l₁ ++ m :: l₂))
    (hhost : host = owner cfg.hosts m.nameA) (holdest : ∀ m' ∈ l₁, m'.nameA ≠ m.nameA) :
    Follows cfg g (Function.update repo host ((repo host).store m)) (l₁ ++ l₂) where
  relations := by
    intro x
    rw [h.relations x, relationsOf_store hhost, List.flatMap_append, List.flatMap_append,
      List.flatMap_cons, List.append_assoc]
    by_cases hx : m.nameA = x
    · -- none of the older ones is for the name
      have hnil : l₁.flatMap (fun m' => if m'.nameA = x then m'.relations else []) = [] := by
        rw [List.flatMap_eq_nil_iff]
        intro m' hm'
        exact if_neg (hx ▸ holdest m' hm')
      rw [hnil, List.nil_append, List.nil_append]
    · rw [if_neg hx, List.nil_append, List.nil_append]
  attributes := by
    intro x
    have hnil := (h.reverse m (by simp)).1
    rw [attributesOf_store hhost, hnil, h.attributes x]
    simp
  nodes := by
    intro x
    have hnames := (h.reverse m (by simp)).2
    rw [mem_nodes_store]
    constructor
    · intro hx
      rcases (h.nodes x).mp hx with hx | ⟨m', hm', rfl⟩
      · exact Or.inl (Or.inl hx)
      · rcases List.mem_append.mp hm' with hm' | hm'
        · exact Or.inr ⟨m', List.mem_append_left _ hm', rfl⟩
        · rcases List.mem_cons.mp hm' with rfl | hm'
          · exact Or.inl (Or.inr ⟨hhost.symm, Or.inl rfl⟩)
          · exact Or.inr ⟨m', List.mem_append_right _ hm', rfl⟩
    · rintro ((hx | ⟨-, rfl | hx⟩) | ⟨m', hm', rfl⟩)
      · exact (h.nodes x).mpr (Or.inl hx)
      · exact (h.nodes _).mpr (Or.inr ⟨m, by simp, rfl⟩)
      · exact hnames x hx
      · refine (h.nodes _).mpr (Or.inr ⟨m', ?_, rfl⟩)
        rcases List.mem_append.mp hm' with hm' | hm'
        · exact List.mem_append_left _ hm'
        · exact List.mem_append_right _ (List.mem_cons_of_mem _ hm')
  reverse := by
    intro m' hm'
    refine h.reverse m' ?_
    rcases List.mem_append.mp hm' with hm' | hm'
    · exact List.mem_append_left _ hm'
    · exact List.mem_append_right _ (List.mem_cons_of_mem _ hm')

/-- The reverse relations that a `C` spreads. -/
def spread (m : NodeMsg) : List NodeMsg := m.relations.map fun rel => ⟨rel, [], [m.nameA], 0, []⟩

theorem flatMap_spread (m : NodeMsg) (x : Str) :
    (spread m).flatMap (fun m' => if m'.nameA = x then m'.relations else []) =
      List.replicate (m.relations.count x) m.nameA := by
  unfold spread
  induction m.relations with
  | nil => rfl
  | cons rel relations ih =>
    rw [List.map_cons, List.flatMap_cons, ih, List.count_cons]
    by_cases h : rel = x
    · simp [h, List.replicate_succ]
    · simp [h]

/-- **A repository stores the node of a create**, when no reverse relation is coming for it. -/
theorem Follows.store_create (h : Follows cfg g repo l₁) (hhost : host = owner cfg.hosts m.nameA)
    (hnone : ∀ m' ∈ l₁, m'.nameA ≠ m.nameA) :
    Follows cfg (g.create m) (Function.update repo host ((repo host).store m))
      (l₁ ++ spread m) where
  relations := by
    intro x
    rw [relationsOf_store hhost, List.flatMap_append, flatMap_spread]
    show g.tables.relations x ++ _ = _
    rw [h.relations x]
    by_cases hx : m.nameA = x
    · have hnil : l₁.flatMap (fun m' => if m'.nameA = x then m'.relations else []) = [] := by
        rw [List.flatMap_eq_nil_iff]
        intro m' hm'
        exact if_neg (hx ▸ hnone m' hm')
      rw [hnil, List.append_nil, List.nil_append, List.append_assoc]
    · rw [if_neg hx, List.append_nil, List.nil_append, List.append_assoc]
  attributes := by
    intro x
    rw [attributesOf_store hhost, ← h.attributes x]
    rfl
  nodes := by
    intro x
    have hnodes : x ∈ (g.create m).nodes ↔ x ∈ g.nodes ∨ x = m.nameA ∨ x ∈ m.relations := by
      simp [GraphStore.create, or_left_comm]
    rw [hnodes, mem_nodes_store, h.nodes x]
    constructor
    · rintro ((hx | ⟨m', hm', rfl⟩) | rfl | hx)
      · exact Or.inl (Or.inl hx)
      · exact Or.inr ⟨m', List.mem_append_left _ hm', rfl⟩
      · exact Or.inl (Or.inr ⟨hhost.symm, Or.inl rfl⟩)
      · exact Or.inr ⟨_, List.mem_append_right _ (List.mem_map_of_mem hx), rfl⟩
    · rintro ((hx | ⟨-, hx⟩) | ⟨m', hm', rfl⟩)
      · exact Or.inl (Or.inl hx)
      · exact Or.inr hx
      · rcases List.mem_append.mp hm' with hm' | hm'
        · exact Or.inl (Or.inr ⟨m', hm', rfl⟩)
        · obtain ⟨rel, hrel, rfl⟩ := List.mem_map.mp hm'
          exact Or.inr (Or.inr hrel)
  reverse := by
    intro m' hm'
    rcases List.mem_append.mp hm' with hm' | hm'
    · refine ⟨(h.reverse m' hm').1, fun y hy => Finset.mem_union_left _ ?_⟩
      exact (h.reverse m' hm').2 y hy
    · obtain ⟨rel, hrel, rfl⟩ := List.mem_map.mp hm'
      refine ⟨rfl, fun y hy => Finset.mem_union_right _ ?_⟩
      rw [List.mem_singleton.mp hy]
      exact List.mem_toFinset.mpr List.mem_cons_self

end Store

end DGDB
