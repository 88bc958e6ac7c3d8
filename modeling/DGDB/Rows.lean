import Mathlib
import DGDB.Correlation

/-!
# Where the rows are

The graph that the accepted creates describe, and the invariant between it and the relation rows of
the repositories: every row is an edge, and every edge has its row at the repository of its first
name, unless a message that will store it there is still in transit.
-/

namespace DGDB

/-! ## The graph of the accepted creates -/

/-- The neighbours of `x` in the undirected graph of the accepted creates. -/
def neighbours (accepted : List (ℕ × Envelope)) (x : Str) : List Str :=
  accepted.flatMap fun p =>
    match p.2.msg with
    | .node m =>
      (if m.nameA = x then m.relations else []) ++ if x ∈ m.relations then [m.nameA] else []
    | _ => []

section Neighbours

variable {accepted : List (ℕ × Envelope)} {x y : Str}

theorem mem_neighbours : y ∈ neighbours accepted x ↔ ∃ p ∈ accepted, ∃ m, p.2.msg = .node m ∧
    (m.nameA = x ∧ y ∈ m.relations ∨ m.nameA = y ∧ x ∈ m.relations) := by
  unfold neighbours
  rw [List.mem_flatMap]
  refine exists_congr fun p => and_congr_right fun _ => ?_
  cases p.2.msg with
  | node m =>
    simp only [List.mem_append, Msg.node.injEq, exists_eq_left']
    refine or_congr ?_ ?_
    · split_ifs with h <;> simp [h]
    · split_ifs with h <;> simp [h, eq_comm]
  | _ => simp

theorem mem_neighbours_comm : y ∈ neighbours accepted x ↔ x ∈ neighbours accepted y := by
  rw [mem_neighbours, mem_neighbours]
  simp only [or_comm]

theorem mem_neighbours_append {p : ℕ × Envelope} :
    y ∈ neighbours (accepted ++ [p]) x ↔ y ∈ neighbours accepted x ∨ ∃ m, p.2.msg = .node m ∧
      (m.nameA = x ∧ y ∈ m.relations ∨ m.nameA = y ∧ x ∈ m.relations) := by
  simp only [mem_neighbours, List.mem_append, List.mem_singleton, or_and_right, exists_or,
    exists_eq_left]

end Neighbours

/-! ## The invariant -/

/-- `a` will store the row of `x` and `y` at the repository of `x`, itself or by the reverse message
it causes. -/
def Brings (cfg : Config) (x y : Str) (a : Envelope) : Prop :=
  a.dst ∈ cfg.repos ∧ ∃ m, a.msg = .node m ∧
    (m.nameA = x ∧ y ∈ m.relations ∨ m.master_repos ≠ [] ∧ m.nameA = y ∧ x ∈ m.relations)

/-- The relation rows and the graph of the accepted creates. -/
structure Rows (cfg : Config) (repo : Host → Process) (accepted : List (ℕ × Envelope))
    (transit : Multiset Envelope) : Prop where
  routed : ∀ a ∈ transit, a.dst ∈ cfg.repos → a.dst = owner cfg.hosts a.msg.name
  sound : ∀ h ∈ cfg.repos, ∀ r ∈ (repo h).storage.relations,
    r.node_name2 ∈ neighbours accepted r.node_name1
  carried : ∀ a ∈ transit, a.dst ∈ cfg.repos → ∀ m, a.msg = .node m →
    ∀ y ∈ m.relations, y ∈ neighbours accepted m.nameA
  complete : ∀ x y, y ∈ neighbours accepted x →
    ⟨x, y⟩ ∈ (repo (owner cfg.hosts x)).storage.relations ∨ ∃ a ∈ transit, Brings cfg x y a

namespace Rows

variable {cfg : Config} {repo : Host → Process} {accepted : List (ℕ × Envelope)} {a b : Envelope}
  {rest : Multiset Envelope} {es : List Envelope}

theorem start : Rows cfg (fun _ => Process.newRepository cfg) [] 0 := by
  constructor <;> simp [Process.newRepository, Storage.empty, neighbours]

/-- What neither takes nor sends a `C` between the server and a repository leaves the rows alone. -/
theorem frame (h : Rows cfg repo accepted (a ::ₘ rest))
    (ha : a.dst ∈ cfg.repos → ∀ m, a.msg ≠ .node m)
    (hes : ∀ b ∈ es, b.dst ∈ cfg.repos →
      b.dst = owner cfg.hosts b.msg.name ∧ ∀ m, b.msg ≠ .node m) :
    Rows cfg repo accepted (rest + es) where
  routed := by
    intro b hb hdst
    rcases Multiset.mem_add.mp hb with hb | hb
    · exact h.routed b (Multiset.mem_cons_of_mem hb) hdst
    · exact (hes b hb hdst).1
  sound := h.sound
  carried := by
    intro b hb hdst m hmsg
    rcases Multiset.mem_add.mp hb with hb | hb
    · exact h.carried b (Multiset.mem_cons_of_mem hb) hdst m hmsg
    · exact absurd hmsg ((hes b hb hdst).2 m)
  complete := by
    intro x y hxy
    rcases h.complete x y hxy with hrow | ⟨b, hb, hbrings⟩
    · exact Or.inl hrow
    · rcases Multiset.mem_cons.mp hb with rfl | hb
      · obtain ⟨hdst, m, hmsg, -⟩ := hbrings
        exact absurd hmsg (ha hdst m)
      · exact Or.inr ⟨b, Multiset.mem_add.mpr (Or.inl hb), hbrings⟩

theorem accept (h : Rows cfg repo accepted (a ::ₘ rest)) (hne : cfg.repos ≠ []) {k : ℕ}
    (hdst : a.dst = cfg.address) :
    Rows cfg repo (accepted ++ [(k, a)]) (rest + ([⟨cfg.address, owner cfg.hosts a.msg.name,
      a.msg.forwarded cfg.hosts k, k⟩] : List Envelope)) := by
  have howner := owner_mem cfg.self hne a.msg.name
  have hname : (a.msg.forwarded cfg.hosts k).name = a.msg.name := by
    cases a.msg <;> rfl
  have hnode : ∀ m, a.msg.forwarded cfg.hosts k = .node m →
      ∃ m', a.msg = .node m' ∧ m.nameA = m'.nameA ∧ m.relations = m'.relations := by
    intro m hm
    cases hmsg : a.msg with
    | node m' =>
      rw [hmsg] at hm
      cases hm
      exact ⟨m', rfl, rfl, rfl⟩
    | _ => rw [hmsg] at hm; cases hm
  refine ⟨?_, ?_, ?_, ?_⟩
  · intro b hb hbdst
    rcases Multiset.mem_add.mp hb with hb | hb
    · exact h.routed b (Multiset.mem_cons_of_mem hb) hbdst
    · rw [List.mem_singleton.mp hb, hname]
  · intro host hhost r hr
    exact mem_neighbours_append.mpr (Or.inl (h.sound host hhost r hr))
  · intro b hb hbdst m hmsg y hy
    rcases Multiset.mem_add.mp hb with hb | hb
    · exact mem_neighbours_append.mpr
        (Or.inl (h.carried b (Multiset.mem_cons_of_mem hb) hbdst m hmsg y hy))
    · rw [List.mem_singleton.mp hb] at hmsg
      obtain ⟨m', hm', hnm, hrel⟩ := hnode m hmsg
      rw [hrel] at hy
      exact mem_neighbours_append.mpr (Or.inr ⟨m', hm', Or.inl ⟨hnm.symm, hy⟩⟩)
  · intro x y hxy
    rcases mem_neighbours_append.mp hxy with hold | ⟨m, hm, hedge⟩
    · rcases h.complete x y hold with hrow | ⟨b, hb, hbrings⟩
      · exact Or.inl hrow
      · rcases Multiset.mem_cons.mp hb with rfl | hb
        · exact absurd (hdst ▸ hbrings.1) cfg.apart
        · exact Or.inr ⟨b, Multiset.mem_add.mpr (Or.inl hb), hbrings⟩
    · refine Or.inr ⟨_, Multiset.mem_add.mpr (Or.inr (List.mem_singleton_self _)), howner, ?_⟩
      have hm' : a.msg = .node m := hm
      rw [hm']
      refine ⟨_, rfl, hedge.imp id fun hrev => ⟨?_, hrev⟩⟩
      exact List.cons_ne_nil _ _

/-- A repository stores the node of a `C` and sends the reverse messages. -/
theorem store (h : Rows cfg repo accepted (a ::ₘ rest)) (hdst : a.dst ∈ cfg.repos) {m : NodeMsg}
    (hmsg : a.msg = .node m) (hhosts : m.master_repos = [] ∨ m.master_repos = cfg.hosts)
    {tail : List Send} (htail : ∀ s ∈ tail, s.host ∉ cfg.repos) :
    Rows cfg (Function.update repo a.dst ((repo a.dst).store m)) accepted
      (rest + World.stamp a.dst a.req (reverses m ++ tail)) := by
  have howner : a.dst = owner cfg.hosts m.nameA := by
    have := h.routed a (Multiset.mem_cons_self a rest) hdst
    rwa [hmsg] at this
  have hcarried := h.carried a (Multiset.mem_cons_self a rest) hdst m hmsg
  have hstored : ((repo a.dst).store m).storage.relations =
      (repo a.dst).storage.relations ++ m.relations.map fun rel => ⟨m.nameA, rel⟩ :=
    relations_stored _ m.wire
  have hkeep : ∀ host, ∀ r ∈ (repo host).storage.relations,
      r ∈ (Function.update repo a.dst ((repo a.dst).store m) host).storage.relations := by
    intro host r hr
    by_cases heq : host = a.dst
    · subst heq
      rw [Function.update_self, hstored]
      exact List.mem_append_left _ hr
    · rwa [Function.update_of_ne heq]
  have hreverses : ∀ b ∈ World.stamp a.dst a.req (reverses m ++ tail), b.dst ∈ cfg.repos →
      ∃ rel ∈ m.relations, b.dst = owner cfg.hosts rel ∧
        b.msg = .node ⟨rel, [], [m.nameA], 0, []⟩ := by
    intro b hb hbdst
    obtain ⟨s, hs, rfl⟩ := List.mem_map.mp hb
    rcases List.mem_append.mp hs with hs | hs
    · unfold reverses at hs
      split_ifs at hs with hnil
      · simp at hs
      · obtain ⟨rel, hrel, rfl⟩ := List.mem_map.mp hs
        rw [hhosts.resolve_left hnil]
        exact ⟨rel, hrel, rfl, rfl⟩
    · exact absurd hbdst (htail s hs)
  refine ⟨?_, ?_, ?_, ?_⟩
  · intro b hb hbdst
    rcases Multiset.mem_add.mp hb with hb | hb
    · exact h.routed b (Multiset.mem_cons_of_mem hb) hbdst
    · obtain ⟨rel, -, hown, hb'⟩ := hreverses b hb hbdst
      rw [hb', hown]
      rfl
  · intro host hhost r hr
    by_cases heq : host = a.dst
    · subst heq
      rw [Function.update_self, hstored] at hr
      rcases List.mem_append.mp hr with hr | hr
      · exact h.sound _ hhost r hr
      · obtain ⟨rel, hrel, rfl⟩ := List.mem_map.mp hr
        exact hcarried rel hrel
    · rw [Function.update_of_ne heq] at hr
      exact h.sound host hhost r hr
  · intro b hb hbdst m' hm' y hy
    rcases Multiset.mem_add.mp hb with hb | hb
    · exact h.carried b (Multiset.mem_cons_of_mem hb) hbdst m' hm' y hy
    · obtain ⟨rel, hrel, -, hb'⟩ := hreverses b hb hbdst
      rw [hb'] at hm'
      cases hm'
      rw [List.mem_singleton.mp hy]
      exact mem_neighbours_comm.mp (hcarried rel hrel)
  · intro x y hxy
    rcases h.complete x y hxy with hrow | ⟨b, hb, hbrings⟩
    · exact Or.inl (hkeep _ _ hrow)
    · rcases Multiset.mem_cons.mp hb with rfl | hb
      · -- the message just handled: its own row is stored, or the reverse message is sent
        obtain ⟨-, m', hm', hedge⟩ := hbrings
        rw [hmsg] at hm'
        cases hm'
        rcases hedge with ⟨rfl, hy⟩ | ⟨hnil, rfl, hx⟩
        · refine Or.inl ?_
          rw [← howner, Function.update_self, hstored]
          exact List.mem_append_right _ (List.mem_map_of_mem hy)
        · have hsend :
              (⟨owner cfg.hosts x, .node ⟨x, [], [m.nameA], 0, []⟩⟩ : Send) ∈ reverses m := by
            rw [reverses, if_neg hnil, hhosts.resolve_left hnil]
            exact List.mem_map_of_mem hx
          refine Or.inr ⟨_, Multiset.mem_add.mpr (Or.inr
            (List.mem_map_of_mem (List.mem_append_left _ hsend))), ?_⟩
          refine ⟨owner_mem cfg.self (List.ne_nil_of_mem hdst) x, _, rfl, Or.inl ⟨rfl, ?_⟩⟩
          exact List.mem_singleton_self _
      · exact Or.inr ⟨b, Multiset.mem_add.mpr (Or.inl hb), hbrings⟩

end Rows

/-! ## Every turn keeps the rows -/

theorem Rows.request {cfg : Config} {w : World} (h : Rows cfg w.repo w.accepted w.transit)
    (client : Host) (msg : Msg) :
    Rows cfg w.repo w.accepted (w.transit + ([⟨client, cfg.address, msg, 0⟩] : List Envelope)) where
  routed := by
    intro b hb hdst
    rcases Multiset.mem_add.mp hb with hb | hb
    · exact h.routed b hb hdst
    · rw [List.mem_singleton.mp hb] at hdst
      exact absurd hdst cfg.apart
  sound := h.sound
  carried := by
    intro b hb hdst m hmsg
    rcases Multiset.mem_add.mp hb with hb | hb
    · exact h.carried b hb hdst m hmsg
    · rw [List.mem_singleton.mp hb] at hdst
      exact absurd hdst cfg.apart
  complete := fun x y hxy => (h.complete x y hxy).imp_right fun ⟨b, hb, hbrings⟩ =>
    ⟨b, Multiset.mem_add.mpr (Or.inl hb), hbrings⟩

/-- What a turn does to the tables of the repositories and to the `C`s on their way to one. -/
inductive CreateStep (cfg : Config) (w : World) (a : Envelope) (rest : Multiset Envelope)
    (w' : World) : Prop
  | accept {k : ℕ} (hdst : a.dst = cfg.address) (hrepo : w'.repo = w.repo)
      (haccepted : w'.accepted = w.accepted ++ [(k, a)])
      (htransit : w'.transit = rest + ([⟨cfg.address, owner cfg.hosts a.msg.name,
        a.msg.forwarded cfg.hosts k, k⟩] : List Envelope))
  | stored {m : NodeMsg} {tail : List Send} (hdst : a.dst ∈ cfg.repos) (hmsg : a.msg = .node m)
      (hhosts : m.master_repos = [] ∨ m.master_repos = cfg.hosts)
      (htail : ∀ s ∈ tail, s.host ∉ cfg.repos)
      (hrepo : w'.repo = Function.update w.repo a.dst ((w.repo a.dst).store m))
      (haccepted : w'.accepted = w.accepted)
      (htransit : w'.transit = rest + World.stamp a.dst a.req (reverses m ++ tail))
  /-- No `C` is handled by a repository or sent to one. -/
  | other {es : List Envelope} (ha : a.dst ∈ cfg.repos → ∀ m, a.msg ≠ .node m)
      (hes : ∀ b ∈ es, b.dst ∈ cfg.repos →
        b.dst = owner cfg.hosts b.msg.name ∧ ∀ m, b.msg ≠ .node m)
      (hrepo : w'.repo = w.repo) (haccepted : w'.accepted = w.accepted)
      (htransit : w'.transit = rest + es)

theorem Turn.creates {cfg : Config} {w w' : World} {a : Envelope} {rest : Multiset Envelope}
    (hturn : Turn cfg { w with transit := rest } a w') (hinv : w.Inv cfg) :
    CreateStep cfg w a rest w' := by
  have hserver : a.dst = cfg.address → a.dst ∈ cfg.repos → ∀ m, a.msg ≠ .node m := by
    intro heq hdst
    exact absurd (heq ▸ hdst) cfg.apart
  cases hturn with
  | busy hdst hsrc hmsg hwrite hbusy =>
    refine CreateStep.other (hserver hdst) (fun b hb hbdst => ?_) rfl rfl rfl
    rw [List.mem_singleton.mp hb] at hbdst
    exact absurd hbdst hsrc.2
  | accept hdst hsrc hmsg hfree => exact CreateStep.accept hdst rfl rfl rfl
  | @response m client hdst hsrc hmsg hpending =>
    refine CreateStep.other (hserver hdst) (fun b hb hbdst => ?_) rfl rfl rfl
    rw [List.mem_singleton.mp hb] at hbdst ⊢
    exact ⟨absurd hbdst (hinv.client_of_pending hpending).2, fun _ hm => by cases hm⟩
  | @complete i client st t queue hdst hsrc hmsg hpending hqueue hempty =>
    refine CreateStep.other (hserver hdst) (fun b hb hbdst => ?_) rfl rfl rfl
    rw [List.mem_singleton.mp hb] at hbdst ⊢
    exact ⟨absurd hbdst (hinv.client_of_pending hpending).2, fun _ hm => by cases hm⟩
  | @next i client st t s queue queue' v hdst hsrc hmsg hpending hqueue hnext hv =>
    refine CreateStep.other (hserver hdst) (fun b hb hbdst => ?_) rfl rfl rfl
    rw [List.mem_singleton.mp hb]
    exact ⟨rfl, fun _ hm => by cases hm⟩
  | @stored m hdst hmsg hhosts hrels =>
    refine CreateStep.stored hdst hmsg hhosts (fun s hs => ?_) rfl rfl rfl
    split_ifs at hs
    · simp at hs
    · rw [List.mem_singleton.mp hs]
      exact cfg.apart
  | @asked m hdst hmsg =>
    refine CreateStep.other (fun _ m' hm' => by rw [hmsg] at hm'; cases hm')
      (fun b hb hbdst => ?_) rfl rfl rfl
    rw [List.mem_singleton.mp hb] at hbdst
    exact absurd hbdst cfg.apart
  | @updated m hdst hmsg =>
    refine CreateStep.other (fun _ m' hm' => by rw [hmsg] at hm'; cases hm')
      (fun b hb hbdst => ?_) rfl rfl rfl
    rw [List.mem_singleton.mp hb] at hbdst
    exact absurd hbdst cfg.apart
  | @deleted m hdst hmsg hhosts hrel =>
    refine CreateStep.other (fun _ m' hm' => by rw [hmsg] at hm'; cases hm')
      (fun b hb hbdst => ?_) rfl rfl rfl
    obtain ⟨s, hs, rfl⟩ := List.mem_map.mp hb
    rcases List.mem_append.mp hs with hs | hs
    · unfold reversesDelete at hs
      split_ifs at hs with hcond
      · rw [List.mem_singleton.mp hs, hhosts.resolve_left hcond.2]
        exact ⟨rfl, fun _ hm => by cases hm⟩
      · simp at hs
    · split_ifs at hs
      · simp at hs
      · rw [List.mem_singleton.mp hs] at hbdst
        exact absurd hbdst cfg.apart
  | taken hdst =>
    exact CreateStep.other (fun hd => absurd hd hdst.2) (fun b hb => absurd hb List.not_mem_nil)
      rfl rfl (by simp)

theorem Turn.rows {cfg : Config} {w w' : World} {a : Envelope} {rest : Multiset Envelope}
    (hturn : Turn cfg { w with transit := rest } a w') (hinv : w.Inv cfg) (hne : cfg.repos ≠ [])
    (htransit : w.transit = a ::ₘ rest) (h : Rows cfg w.repo w.accepted w.transit) :
    Rows cfg w'.repo w'.accepted w'.transit := by
  rw [htransit] at h
  cases hturn.creates hinv with
  | accept hdst hrepo haccepted ht =>
    rw [hrepo, haccepted, ht]
    exact h.accept hne hdst
  | stored hdst hmsg hhosts htail hrepo haccepted ht =>
    rw [hrepo, haccepted, ht]
    exact h.store hdst hmsg hhosts htail
  | other ha hes hrepo haccepted ht =>
    rw [hrepo, haccepted, ht]
    exact h.frame ha hes

end DGDB
