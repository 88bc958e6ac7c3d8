import Mathlib
import DGDB.GraphStore
import DGDB.Symmetry

/-!
# Creates converge

Whatever the order in which the server takes requests and the messages are delivered, nothing that a
create brings is lost, stored twice or made up: what the repositories have and what is on its way to
them is, up to the order of the rows, what the store has after the accepted requests in any order.
-/

namespace DGDB

open EventSystem

/-! ## Stores with the same rows -/

namespace GraphStore

variable {g g' g'' : GraphStore} {m m' : Msg}

/-- The same nodes, and the same rows in some order. -/
structure Same (g g' : GraphStore) : Prop where
  nodes : g.nodes = g'.nodes
  relations : ∀ x, (g.tables.relations x).Perm (g'.tables.relations x)
  attributes : ∀ x, (g.tables.attributes x).Perm (g'.tables.attributes x)

theorem Same.refl (g : GraphStore) : Same g g :=
  ⟨rfl, fun _ => List.Perm.refl _, fun _ => List.Perm.refl _⟩

theorem Same.trans (h : Same g g') (h' : Same g' g'') : Same g g'' :=
  ⟨h.nodes.trans h'.nodes, fun x => (h.relations x).trans (h'.relations x),
    fun x => (h.attributes x).trans (h'.attributes x)⟩

theorem Same.apply (h : Same g g') (m : Msg) : Same (g.apply m) (g'.apply m) := by
  cases m with
  | node c =>
    refine ⟨?_, fun x => (h.relations x).append_right _, fun x => (h.attributes x).append_right _⟩
    show g.nodes ∪ _ = g'.nodes ∪ _
    rw [h.nodes]
  | _ => exact h

/-- The order of two requests does not matter. -/
theorem apply_comm (g : GraphStore) (m m' : Msg) :
    Same ((g.apply m).apply m') ((g.apply m').apply m) := by
  have hrows : ∀ {α : Type} (rows new new' : List α),
      (rows ++ new ++ new').Perm (rows ++ new' ++ new) := by
    intro α rows new new'
    rw [List.append_assoc, List.append_assoc]
    exact List.perm_append_comm.append_left rows
  cases m with
  | node c =>
    cases m' with
    | node c' =>
      exact ⟨Finset.union_right_comm _ _ _, fun x => hrows _ _ _, fun x => hrows _ _ _⟩
    | _ => exact Same.refl _
  | _ => exact Same.refl _

theorem same_foldl {requests requests' : List Msg} (h : requests.Perm requests') :
    ∀ {g g' : GraphStore},
      Same g g' → Same (requests.foldl apply g) (requests'.foldl apply g') := by
  have hcongr : ∀ (requests : List Msg) {g g' : GraphStore}, Same g g' →
      Same (requests.foldl apply g) (requests.foldl apply g') := by
    intro requests
    induction requests with
    | nil => exact fun hg => hg
    | cons m _ ih => exact fun hg => ih (hg.apply m)
  induction h with
  | nil => exact fun hg => hg
  | cons m _ ih => exact fun hg => ih (hg.apply m)
  | swap m m' requests =>
    intro g g' hg
    exact hcongr requests ((apply_comm g m' m).trans ((hg.apply m).apply m'))
  | trans _ _ ih ih' => exact fun hg => (ih hg).trans (ih' (Same.refl _))

theorem after_perm {requests requests' : List Msg} (h : requests.Perm requests') :
    Same (after requests) (after requests') :=
  same_foldl h (Same.refl _)

end GraphStore

/-! ## Attributes stored and attributes on their way -/

/-- The attributes of `x` that a `C` on its way to a repository brings. -/
def attributesBrought (cfg : Config) (x : Str) (a : Envelope) : Multiset Attribute :=
  if a.dst ∈ cfg.repos then
    match a.msg with
    | .node m =>
      if m.nameA = x then ↑(m.attributes.map fun b => { b with node_name := m.nameA }) else 0
    | _ => 0
  else 0

/-- All the attributes of `x` there will be once everything in transit has been handled. -/
def attributesDue (cfg : Config) (repo : Host → Process) (transit : Multiset Envelope) (x : Str) :
    Multiset Attribute :=
  ↑((repo (owner cfg.hosts x)).storage.attributesOf x) +
    (transit.map (attributesBrought cfg x)).sum

theorem count_relationsOf (st : Storage) (x y : Str) :
    (st.relationsOf x).count y = st.relations.count ⟨x, y⟩ := by
  unfold Storage.relationsOf
  induction st.relations with
  | nil => rfl
  | cons r relations ih =>
    obtain ⟨u, v⟩ := r
    by_cases hu : u = x
    · subst hu
      rw [List.filter_cons_of_pos (by simp), List.map_cons, List.count_cons, List.count_cons, ih]
      simp
    · rw [List.filter_cons_of_neg (by simpa using hu), ih, List.count_cons_of_ne]
      simp [hu]

section Counting

variable {cfg : Config} {repo : Host → Process} {a : Envelope} {rest : Multiset Envelope}
  {es : List Envelope} {x : Str}

theorem attributesBrought_eq_zero (h : a.dst ∈ cfg.repos → ∀ m, a.msg ≠ .node m) :
    attributesBrought cfg x a = 0 := by
  unfold attributesBrought
  split_ifs with hdst
  · cases hmsg : a.msg with
    | node m => exact absurd hmsg (h hdst m)
    | _ => rfl
  · rfl

theorem attributesBrought_reverse (h : ∀ m, a.msg = .node m → m.attributes = []) :
    attributesBrought cfg x a = 0 := by
  unfold attributesBrought
  split_ifs with hdst
  · cases hmsg : a.msg with
    | node m => simp [h m hmsg]
    | _ => rfl
  · rfl

theorem attributesDue_cons : attributesDue cfg repo (a ::ₘ rest) x =
    attributesDue cfg repo rest x + attributesBrought cfg x a := by
  unfold attributesDue
  rw [Multiset.map_cons, Multiset.sum_cons, add_comm (attributesBrought cfg x a), add_assoc]

theorem attributesDue_add (h : ∀ b ∈ es, attributesBrought cfg x b = 0) :
    attributesDue cfg repo (rest + es) x = attributesDue cfg repo rest x := by
  have hzero : ((es : Multiset Envelope).map (attributesBrought cfg x)).sum = 0 := by
    refine Multiset.sum_eq_zero fun n hn => ?_
    obtain ⟨b, hb, rfl⟩ := Multiset.mem_map.mp hn
    exact h b hb
  unfold attributesDue
  rw [Multiset.map_add, Multiset.sum_add, hzero, add_zero]

end Counting

/-! ## The invariant -/

/-- What the repositories have and what is on its way to them is what the store `g` has. -/
structure Converging (cfg : Config) (g : GraphStore) (repo : Host → Process)
    (transit : Multiset Envelope) : Prop where
  relations : ∀ x y, rowsDue cfg repo transit x y = (g.tables.relations x).count y
  attributes : ∀ x, attributesDue cfg repo transit x = ↑(g.tables.attributes x)
  sound : ∀ x, x ∈ (repo (owner cfg.hosts x)).storage.nodes → x ∈ g.nodes
  carried : ∀ a ∈ transit, a.dst ∈ cfg.repos → ∀ m, a.msg = .node m →
    ∀ x ∈ m.nameA :: m.relations, x ∈ g.nodes
  complete : ∀ x ∈ g.nodes, x ∈ (repo (owner cfg.hosts x)).storage.nodes ∨
    ∃ a ∈ transit, a.dst ∈ cfg.repos ∧ ∃ m, a.msg = .node m ∧
      (x = m.nameA ∨ m.master_repos ≠ [] ∧ x ∈ m.relations)

namespace Converging

variable {cfg : Config} {g : GraphStore} {repo : Host → Process} {a : Envelope}
  {rest : Multiset Envelope} {es : List Envelope}

theorem start : Converging cfg GraphStore.empty (fun _ => Process.newRepository cfg) 0 := by
  constructor <;>
    simp [Process.newRepository, Storage.empty, rowsDue, rowsHeld, attributesDue,
      Storage.attributesOf, GraphStore.empty]

theorem count_create (g : GraphStore) (m : NodeMsg) (x y : Str) :
    ((g.create m).tables.relations x).count y = (g.tables.relations x).count y +
      ((if m.nameA = x then m.relations.count y else 0) +
        if m.nameA = y then m.relations.count x else 0) := by
  show (g.tables.relations x ++ (_ ++ _)).count y = _
  rw [List.count_append, List.count_append, List.count_replicate]
  congr 2
  · split_ifs <;> rfl
  · simp

theorem post (h : Converging cfg g repo rest)
    (hes : ∀ b ∈ es, b.dst ∈ cfg.repos → ∀ m, b.msg ≠ .node m) :
    Converging cfg g repo (rest + es) where
  relations := by
    intro x y
    rw [rowsDue_add, sum_rowsBrought_eq_zero hes]
    exact h.relations x y
  attributes := by
    intro x
    rw [attributesDue_add fun b hb => attributesBrought_eq_zero (hes b hb)]
    exact h.attributes x
  sound := h.sound
  carried := by
    intro b hb hdst m hmsg
    rcases Multiset.mem_add.mp hb with hb | hb
    · exact h.carried b hb hdst m hmsg
    · exact absurd hmsg (hes b hb hdst m)
  complete := fun x hx => (h.complete x hx).imp_right fun ⟨b, hb, hbrings⟩ =>
    ⟨b, Multiset.mem_add.mpr (Or.inl hb), hbrings⟩

theorem take (h : Converging cfg g repo (a ::ₘ rest))
    (ha : a.dst ∈ cfg.repos → ∀ m, a.msg ≠ .node m) : Converging cfg g repo rest where
  relations := by
    intro x y
    have hdue := h.relations x y
    rwa [rowsDue_cons, rowsBrought_eq_zero ha] at hdue
  attributes := by
    intro x
    have hdue := h.attributes x
    rwa [attributesDue_cons, attributesBrought_eq_zero ha, add_zero] at hdue
  sound := h.sound
  carried := fun b hb => h.carried b (Multiset.mem_cons_of_mem hb)
  complete := by
    intro x hx
    refine (h.complete x hx).imp_right ?_
    rintro ⟨b, hb, hdst, m, hmsg, hbrings⟩
    rcases Multiset.mem_cons.mp hb with rfl | hb
    · exact absurd hmsg (ha hdst m)
    · exact ⟨b, hb, hdst, m, hmsg, hbrings⟩

theorem create (h : Converging cfg g repo rest) (hne : cfg.repos ≠ []) (m : NodeMsg) (k : ℕ) :
    Converging cfg (g.create m) repo (rest + ([⟨cfg.address, owner cfg.hosts m.nameA,
      (Msg.node m).forwarded cfg.hosts k, k⟩] : List Envelope)) := by
  have howner : owner cfg.hosts m.nameA ∈ cfg.repos := owner_mem cfg.self hne m.nameA
  have hadd : ∀ b : Envelope, rest + (([b] : List Envelope) : Multiset Envelope) = b ::ₘ rest := by
    intro b
    rw [Multiset.coe_singleton, add_comm, Multiset.singleton_add]
  have hnodes : ∀ x, x ∈ (g.create m).nodes ↔ x ∈ g.nodes ∨ x ∈ m.nameA :: m.relations := by
    intro x
    show x ∈ g.nodes ∪ (m.nameA :: m.relations).toFinset ↔ _
    rw [Finset.mem_union, List.mem_toFinset]
  rw [hadd]
  refine ⟨fun x y => ?_, fun x => ?_, fun x hx => ?_, fun b hb hdst c hmsg x hx => ?_,
    fun x hx => ?_⟩
  · rw [rowsDue_cons, h.relations, count_create]
    congr 1
    have hhosts : cfg.hosts ≠ [] := List.cons_ne_nil _ _
    simp only [rowsBrought, if_pos howner, Msg.forwarded, if_neg hhosts]
  · rw [attributesDue_cons, h.attributes]
    show _ = ((g.tables.attributes x ++ _ : List Attribute) : Multiset Attribute)
    rw [← Multiset.coe_add]
    congr 1
    unfold attributesBrought
    rw [if_pos howner]
    simp only [Msg.forwarded, List.map_map]
    split_ifs <;> rfl
  · exact (hnodes x).mpr (Or.inl (h.sound x hx))
  · rcases Multiset.mem_cons.mp hb with rfl | hb
    · cases hmsg
      exact (hnodes x).mpr (Or.inr hx)
    · exact (hnodes x).mpr (Or.inl (h.carried b hb hdst c hmsg x hx))
  · rcases (hnodes x).mp hx with hx | hx
    · rcases h.complete x hx with hx | ⟨b, hb, hbrings⟩
      · exact Or.inl hx
      · exact Or.inr ⟨b, Multiset.mem_cons_of_mem hb, hbrings⟩
    · refine Or.inr ⟨_, Multiset.mem_cons_self _ _, howner, _, rfl, ?_⟩
      refine (List.mem_cons.mp hx).imp_right fun hx => ⟨List.cons_ne_nil _ _, hx⟩

theorem accept (h : Converging cfg g repo (a ::ₘ rest)) (hne : cfg.repos ≠ [])
    (hdst : a.dst = cfg.address) (k : ℕ) :
    Converging cfg (g.apply a.msg) repo (rest + ([⟨cfg.address, owner cfg.hosts a.msg.name,
      a.msg.forwarded cfg.hosts k, k⟩] : List Envelope)) := by
  have hrepo : a.dst ∈ cfg.repos → ∀ m, a.msg ≠ .node m := fun hd => absurd hd (hdst ▸ cfg.apart)
  cases hmsg : a.msg with
  | node m => exact (h.take hrepo).create hne m k
  | _ =>
    refine (h.take hrepo).post fun b hb _ m hm => ?_
    rw [List.mem_singleton.mp hb] at hm
    cases hm

theorem mem_reverses {m : NodeMsg} (hhosts : m.master_repos = [] ∨ m.master_repos = cfg.hosts)
    {tail : List Send} (htail : ∀ s ∈ tail, s.host ∉ cfg.repos) {src : Host} {req : ℕ}
    {b : Envelope} (hb : b ∈ World.stamp src req (reverses m ++ tail)) (hdst : b.dst ∈ cfg.repos) :
    m.master_repos ≠ [] ∧ ∃ rel ∈ m.relations, b.dst = owner cfg.hosts rel ∧
      b.msg = .node ⟨rel, [], [m.nameA], 0, []⟩ := by
  obtain ⟨s, hs, rfl⟩ := List.mem_map.mp hb
  rcases List.mem_append.mp hs with hs | hs
  · unfold reverses at hs
    split_ifs at hs with hnil
    · exact absurd hs List.not_mem_nil
    · obtain ⟨rel, hrel, rfl⟩ := List.mem_map.mp hs
      rw [hhosts.resolve_left hnil]
      exact ⟨List.cons_ne_nil _ _, rel, hrel, rfl, rfl⟩
  · exact absurd hdst (htail s hs)

theorem store (h : Converging cfg g repo (a ::ₘ rest)) (hne : cfg.repos ≠ [])
    (hdst : a.dst ∈ cfg.repos) {m : NodeMsg} (hmsg : a.msg = .node m)
    (howner : a.dst = owner cfg.hosts m.nameA)
    (hhosts : m.master_repos = [] ∨ m.master_repos = cfg.hosts) {tail : List Send}
    (htail : ∀ s ∈ tail, s.host ∉ cfg.repos) :
    Converging cfg g (Function.update repo a.dst ((repo a.dst).store m))
      (rest + World.stamp a.dst a.req (reverses m ++ tail)) where
  relations := by
    intro x y
    rw [Balanced.rowsDue_store hne hdst hmsg howner hhosts htail]
    exact h.relations x y
  attributes := by
    intro x
    have hdue := h.attributes x
    have hbrought : attributesBrought cfg x a =
        ↑(if m.nameA = x then m.attributes.map fun b => { b with node_name := m.nameA }
          else []) := by
      unfold attributesBrought
      simp only [if_pos hdst, hmsg]
      split_ifs <;> rfl
    rw [attributesDue_cons, hbrought] at hdue
    rw [attributesDue_add, ← hdue]
    · unfold attributesDue
      rw [attributesOf_store howner, ← Multiset.coe_add, add_right_comm]
    · intro b hb
      by_cases hbdst : b.dst ∈ cfg.repos
      · obtain ⟨-, rel, -, -, hb'⟩ := mem_reverses hhosts htail hb hbdst
        refine attributesBrought_reverse fun c hc => ?_
        rw [hb'] at hc
        cases hc
        rfl
      · exact attributesBrought_eq_zero fun hd => absurd hd hbdst
  sound := by
    intro x hx
    rcases mem_nodes_store.mp hx with hx | ⟨-, hx⟩
    · exact h.sound x hx
    · exact h.carried a (Multiset.mem_cons_self a rest) hdst m hmsg x (List.mem_cons.mpr hx)
  carried := by
    have hcarried := h.carried a (Multiset.mem_cons_self a rest) hdst m hmsg
    intro b hb hbdst c hc x hx
    rcases Multiset.mem_add.mp hb with hb | hb
    · exact h.carried b (Multiset.mem_cons_of_mem hb) hbdst c hc x hx
    · obtain ⟨-, rel, hrel, -, hb'⟩ := mem_reverses hhosts htail hb hbdst
      rw [hb'] at hc
      cases hc
      rcases List.mem_cons.mp hx with rfl | hx
      · exact hcarried x (List.mem_cons_of_mem _ hrel)
      · rw [List.mem_singleton.mp hx]
        exact hcarried m.nameA List.mem_cons_self
  complete := by
    intro x hx
    rcases h.complete x hx with hx | ⟨b, hb, hbdst, c, hc, hbrings⟩
    · exact Or.inl (mem_nodes_store.mpr (Or.inl hx))
    · rcases Multiset.mem_cons.mp hb with rfl | hb
      · rw [hmsg] at hc
        cases hc
        rcases hbrings with rfl | ⟨hnil, hrel⟩
        · exact Or.inl (mem_nodes_store.mpr (Or.inr ⟨howner.symm, Or.inl rfl⟩))
        · -- the reverse relation of `x` is sent
          have hsend : (⟨owner cfg.hosts x, .node ⟨x, [], [m.nameA], 0, []⟩⟩ : Send) ∈
              reverses m := by
            rw [reverses, if_neg hnil, hhosts.resolve_left hnil]
            exact List.mem_map_of_mem hrel
          refine Or.inr ⟨_, Multiset.mem_add.mpr (Or.inr
            (List.mem_map_of_mem (List.mem_append_left _ hsend))), ?_⟩
          exact ⟨owner_mem cfg.self hne x, _, rfl, Or.inl rfl⟩
      · exact Or.inr ⟨b, Multiset.mem_add.mpr (Or.inl hb), hbdst, c, hc, hbrings⟩

end Converging

theorem Turn.converging {cfg : Config} {w w' : World} {a : Envelope} {rest : Multiset Envelope}
    (hturn : Turn cfg { w with transit := rest } a w') (hinv : w.Inv cfg) (hne : cfg.repos ≠ [])
    (htransit : w.transit = a ::ₘ rest) (hrows : Rows cfg w.repo w.accepted w.transit)
    (h : Converging cfg (GraphStore.after w.requests) w.repo w.transit) :
    Converging cfg (GraphStore.after w'.requests) w'.repo w'.transit := by
  rw [htransit] at h
  unfold World.requests
  cases hturn.creates hinv with
  | accept hdst hrepo haccepted ht =>
    rw [hrepo, haccepted, ht, List.map_append, List.map_singleton, GraphStore.after_append]
    exact h.accept hne hdst _
  | @stored m _ hdst hmsg hhosts htail hrepo haccepted ht =>
    have howner : a.dst = owner cfg.hosts m.nameA := by
      have := hrows.routed a (by simp [htransit]) hdst
      rwa [hmsg] at this
    rw [hrepo, haccepted, ht]
    exact h.store hne hdst hmsg howner hhosts htail
  | other ha hes hrepo haccepted ht =>
    rw [hrepo, haccepted, ht]
    exact (h.take ha).post fun b hb hbdst => (hes b hb hbdst).2

/-! ## Whole runs -/

section Runs

variable {cfg : Config} {es : List Event} {w : World}

theorem along_converging (hne : cfg.repos ≠ []) (hsteady : ∀ e ∈ es, e.Steady)
    (hadm : Along (World.step cfg) World.Admissible (World.start cfg) es) :
    Along (World.step cfg) (fun w => Converging cfg (GraphStore.after w.requests) w.repo w.transit)
      (World.start cfg) es := by
  refine (along_turns hne (I := fun w => Rows cfg w.repo w.accepted w.transit ∧
    Converging cfg (GraphStore.after w.requests) w.repo w.transit) ?_ ?_ (World.Inv.start cfg)
    ⟨Rows.start, Converging.start⟩ hsteady hadm).mono fun w h => h.2.2
  · rintro w client msg ⟨hrows, hconverging⟩ - -
    have hserver : ∀ b ∈ ([⟨client, cfg.address, msg, 0⟩] : List Envelope), b.dst ∈ cfg.repos →
        ∀ m, b.msg ≠ .node m := by
      intro b hb hdst
      rw [List.mem_singleton.mp hb] at hdst
      exact absurd hdst cfg.apart
    exact ⟨hrows.request client msg, hconverging.post hserver⟩
  · rintro w a rest w' hinv hadm ⟨hrows, hconverging⟩ htransit hturn
    exact ⟨hturn.rows hinv hne htransit hrows, hturn.converging hinv hne htransit hrows hconverging⟩

/-- **Creates converge.** In every steady run in which the messages fit the wire and names start
with an ASCII byte, as soon as nothing is in transit the repositories have the nodes, relations and
attributes that the store has after the accepted requests in any order: none is lost, none is stored
twice, and none is made up, only the order of the rows depends on the run. -/
theorem creates_converge (hne : cfg.repos ≠ []) (hsteady : ∀ e ∈ es, e.Steady)
    (hadm : Along (World.step cfg) World.Admissible (World.start cfg) es)
    (hrun : run (World.step cfg) (World.start cfg) es = some w) (hzero : w.transit = 0)
    {requests : List Msg} (hperm : requests.Perm w.requests) (x : Str) :
    ((w.tables cfg).relations x).Perm ((GraphStore.after requests).tables.relations x) ∧
      ((w.tables cfg).attributes x).Perm ((GraphStore.after requests).tables.attributes x) ∧
      (x ∈ (w.repo (owner cfg.hosts x)).storage.nodes ↔ x ∈ (GraphStore.after requests).nodes) := by
  have h := (along_converging hne hsteady hadm).last hrun
  have hsame := GraphStore.after_perm hperm.symm
  refine ⟨List.Perm.trans ?_ (hsame.relations x), List.Perm.trans ?_ (hsame.attributes x), ?_⟩
  · rw [List.perm_iff_count]
    intro y
    have hdue := h.relations x y
    rw [hzero, rowsDue, Multiset.map_zero, Multiset.sum_zero, Nat.add_zero] at hdue
    rw [← hdue]
    exact count_relationsOf _ x y
  · have hdue := h.attributes x
    rw [hzero, attributesDue, Multiset.map_zero, Multiset.sum_zero, add_zero] at hdue
    exact Multiset.coe_eq_coe.mp hdue
  · rw [← hsame.nodes]
    refine ⟨h.sound x, fun hx => (h.complete x hx).resolve_right ?_⟩
    rintro ⟨a, ha, -⟩
    rw [hzero] at ha
    exact absurd ha (Multiset.notMem_zero a)

end Runs

/-- Clients 7 and 8 create the same node with different relations, and the repository gets the
second create first. -/
def crossedCreates : List Event :=
  let server := oneRepository.address
  let repository : Host := ⟨str "10.0.0.2", 50001⟩
  let create (y : Str) (id : ℤ) (hosts : List Host) : Msg := .node ⟨str "a", [], [y], id, hosts⟩
  let reverse (x : Str) : Msg := .node ⟨x, [], [str "a"], 0, []⟩
  let first : Msg := .response ⟨existsText ++ storedText, 1⟩
  let second : Msg := .response ⟨storedText, 2⟩
  [.request (clientHost 7) (create (str "b") 0 []),
    .request (clientHost 8) (create (str "c") 0 []),
    .deliver ⟨clientHost 7, server, create (str "b") 0 [], 0⟩ noThrow,
    .deliver ⟨clientHost 8, server, create (str "c") 0 [], 0⟩ noThrow,
    .deliver ⟨server, repository, create (str "c") 2 oneRepository.hosts, 2⟩ noThrow,
    .deliver ⟨server, repository, create (str "b") 1 oneRepository.hosts, 1⟩ noThrow,
    .deliver ⟨repository, repository, reverse (str "b"), 1⟩ noThrow,
    .deliver ⟨repository, repository, reverse (str "c"), 2⟩ noThrow,
    .deliver ⟨repository, server, second, 2⟩ noThrow,
    .deliver ⟨repository, server, first, 1⟩ noThrow,
    .deliver ⟨server, clientHost 8, second, 2⟩ noThrow,
    .deliver ⟨server, clientHost 7, first, 1⟩ noThrow]

/-- The rows are those of the store, in the order in which the creates were delivered. -/
theorem creates_converge_two : ∃ w, run (World.step oneRepository) (World.start oneRepository)
    crossedCreates = some w ∧
    w.requests = [.node ⟨str "a", [], [str "b"], 0, []⟩, .node ⟨str "a", [], [str "c"], 0, []⟩] ∧
    (w.tables oneRepository).relations (str "a") = [str "c", str "b"] ∧
    ∀ x, ((w.tables oneRepository).relations x).Perm
      ((GraphStore.after w.requests).tables.relations x) := by
  have hrun : ∃ w,
      run (World.step oneRepository) (World.start oneRepository) crossedCreates = some w ∧
      w.transit = 0 ∧
      w.requests =
        [.node ⟨str "a", [], [str "b"], 0, []⟩, .node ⟨str "a", [], [str "c"], 0, []⟩] ∧
      (w.tables oneRepository).relations (str "a") = [str "c", str "b"] :=
    exists_of_check (by decide +kernel)
  obtain ⟨w, hw, hzero, hrequests, hrelations⟩ := hrun
  refine ⟨w, hw, hrequests, hrelations, fun x => ?_⟩
  exact (creates_converge (show oneRepository.repos ≠ [] by decide)
    (show ∀ e ∈ crossedCreates, e.Steady by simp [crossedCreates, Event.Steady])
    (by decide +kernel) hw hzero
    (List.Perm.refl _) x).1

end DGDB
