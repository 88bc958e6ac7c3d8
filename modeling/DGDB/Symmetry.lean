import Mathlib
import DGDB.Agreement
import DGDB.Rows

/-!
# Placement and symmetry of the stored rows

Every row about a node is stored at the repository that the server's `C` branch chooses for it. For
two names, the rows of one direction that are stored or on their way are as many as those of the
other direction: a `C` with a host list brings both, and when it is handled the reverse one goes on
in a `C` without.
-/

namespace DGDB

open EventSystem

/-! ## Rows stored and rows on their way -/

/-- The relation rows (x, y) at the repository of `x`. -/
def rowsHeld (cfg : Config) (repo : Host → Process) (x y : Str) : ℕ :=
  (repo (owner cfg.hosts x)).storage.relations.count ⟨x, y⟩

/-- The relation rows (x, y) that a `C` between the server and a repository will store there, itself
or by the reverse message it causes. -/
def rowsBrought (cfg : Config) (x y : Str) (a : Envelope) : ℕ :=
  if a.dst ∈ cfg.repos then
    match a.msg with
    | .node m => (if m.nameA = x then m.relations.count y else 0) +
        if m.master_repos = [] then 0 else if m.nameA = y then m.relations.count x else 0
    | _ => 0
  else 0

/-- All the relation rows (x, y) there will be once everything in transit has been handled. -/
def rowsDue (cfg : Config) (repo : Host → Process) (transit : Multiset Envelope) (x y : Str) : ℕ :=
  rowsHeld cfg repo x y + (transit.map (rowsBrought cfg x y)).sum

section Counting

variable {cfg : Config} {repo : Host → Process} {a : Envelope} {rest : Multiset Envelope}
  {es : List Envelope} {x y : Str}

theorem rowsBrought_eq_zero (h : a.dst ∈ cfg.repos → ∀ m, a.msg ≠ .node m) :
    rowsBrought cfg x y a = 0 := by
  unfold rowsBrought
  split_ifs with hdst
  · cases hmsg : a.msg with
    | node m => exact absurd hmsg (h hdst m)
    | _ => rfl
  · rfl

theorem sum_rowsBrought_eq_zero (h : ∀ b ∈ es, b.dst ∈ cfg.repos → ∀ m, b.msg ≠ .node m) :
    ((es : Multiset Envelope).map (rowsBrought cfg x y)).sum = 0 := by
  refine Multiset.sum_eq_zero fun n hn => ?_
  obtain ⟨b, hb, rfl⟩ := Multiset.mem_map.mp hn
  exact rowsBrought_eq_zero (h b hb)

/-- A message that carries a host list brings the rows of both directions. -/
theorem rowsBrought_symm {m : NodeMsg} (hmsg : a.msg = .node m) (hhosts : m.master_repos ≠ []) :
    rowsBrought cfg x y a = rowsBrought cfg y x a := by
  unfold rowsBrought
  rw [hmsg]
  simp only [if_neg hhosts]
  rw [Nat.add_comm]

theorem rowsDue_cons : rowsDue cfg repo (a ::ₘ rest) x y =
    rowsDue cfg repo rest x y + rowsBrought cfg x y a := by
  unfold rowsDue
  rw [Multiset.map_cons, Multiset.sum_cons]
  omega

theorem rowsDue_add : rowsDue cfg repo (rest + es) x y =
    rowsDue cfg repo rest x y + ((es : Multiset Envelope).map (rowsBrought cfg x y)).sum := by
  unfold rowsDue
  rw [Multiset.map_add, Multiset.sum_add, Nat.add_assoc]

theorem count_rows (name : Str) (relations : List Str) :
    (relations.map fun rel => (⟨name, rel⟩ : Relation)).count ⟨x, y⟩ =
      if name = x then relations.count y else 0 := by
  induction relations with
  | nil => simp
  | cons rel relations ih =>
    rw [List.map_cons, List.count_cons, ih, List.count_cons]
    by_cases hname : name = x
    · simp [hname]
    · simp [hname]

theorem sum_rowsBrought_reverses (hne : cfg.repos ≠ []) {m : NodeMsg}
    (hhosts : m.master_repos = [] ∨ m.master_repos = cfg.hosts) (src : Host) (req : ℕ) :
    ((World.stamp src req (reverses m)).map (rowsBrought cfg x y)).sum =
      if m.master_repos = [] then 0 else if m.nameA = y then m.relations.count x else 0 := by
  unfold reverses World.stamp
  split_ifs with hnil hname
  · rfl
  · rw [hhosts.resolve_left hnil]
    induction m.relations with
    | nil => rfl
    | cons rel relations ih =>
      rw [List.map_cons, List.map_cons, List.map_cons, List.sum_cons, ih, List.count_cons]
      simp [rowsBrought, Config.hosts, owner_mem cfg.self hne rel, hname]
      omega
  · rw [hhosts.resolve_left hnil]
    induction m.relations with
    | nil => rfl
    | cons rel relations ih =>
      rw [List.map_cons, List.map_cons, List.map_cons, List.sum_cons, ih]
      simp [rowsBrought, hname]

end Counting

/-! ## The invariant -/

/-- Rows are stored at the repository of their first name, and both directions are balanced. -/
structure Balanced (cfg : Config) (repo : Host → Process) (transit : Multiset Envelope) : Prop where
  attributes : ∀ h ∈ cfg.repos, ∀ r ∈ (repo h).storage.attributes,
    AsciiName r.node_name ∧ h = owner cfg.hosts r.node_name
  relations : ∀ h ∈ cfg.repos, ∀ r ∈ (repo h).storage.relations,
    AsciiName r.node_name1 ∧ AsciiName r.node_name2 ∧ h = owner cfg.hosts r.node_name1
  due : ∀ x y, rowsDue cfg repo transit x y = rowsDue cfg repo transit y x

namespace Balanced

variable {cfg : Config} {repo : Host → Process} {a : Envelope} {rest : Multiset Envelope}
  {es : List Envelope}

theorem start : Balanced cfg (fun _ => Process.newRepository cfg) 0 := by
  constructor <;> simp [Process.newRepository, Storage.empty, rowsDue, rowsHeld]

theorem frame (h : Balanced cfg repo (a ::ₘ rest)) (ha : a.dst ∈ cfg.repos → ∀ m, a.msg ≠ .node m)
    (hes : ∀ b ∈ es, b.dst ∈ cfg.repos → ∀ m, b.msg ≠ .node m) :
    Balanced cfg repo (rest + es) where
  attributes := h.attributes
  relations := h.relations
  due := by
    intro x y
    have hdue := h.due x y
    rw [rowsDue_cons, rowsDue_cons, rowsBrought_eq_zero ha, rowsBrought_eq_zero ha] at hdue
    rw [rowsDue_add, rowsDue_add, sum_rowsBrought_eq_zero hes, sum_rowsBrought_eq_zero hes]
    exact hdue

theorem accept (h : Balanced cfg repo (a ::ₘ rest)) (hdst : a.dst = cfg.address) (k : ℕ)
    (host : Host) :
    Balanced cfg repo (rest + ([⟨cfg.address, host, a.msg.forwarded cfg.hosts k, k⟩] :
      List Envelope)) where
  attributes := h.attributes
  relations := h.relations
  due := by
    intro x y
    have hdue := h.due x y
    have hrepo : a.dst ∉ cfg.repos := hdst ▸ cfg.apart
    rw [rowsDue_cons, rowsDue_cons, rowsBrought_eq_zero (fun hd => absurd hd hrepo),
      rowsBrought_eq_zero (fun hd => absurd hd hrepo)] at hdue
    have hsymm : rowsBrought cfg x y ⟨cfg.address, host, a.msg.forwarded cfg.hosts k, k⟩ =
        rowsBrought cfg y x ⟨cfg.address, host, a.msg.forwarded cfg.hosts k, k⟩ := by
      cases hmsg : a.msg with
      | node m => exact rowsBrought_symm rfl (List.cons_ne_nil _ _)
      | _ =>
        rw [rowsBrought_eq_zero (by intro _ m hm; cases hm),
          rowsBrought_eq_zero (by intro _ m hm; cases hm)]
    rw [rowsDue_add, rowsDue_add, Multiset.map_coe, Multiset.map_coe, Multiset.sum_coe,
      Multiset.sum_coe, List.map_singleton, List.map_singleton, List.sum_singleton,
      List.sum_singleton, hsymm]
    omega

/-- A repository stores the node of a `C`: its rows are stored, and those of the other direction are
on their way. -/
theorem rowsDue_store (hne : cfg.repos ≠ []) (hdst : a.dst ∈ cfg.repos) {m : NodeMsg}
    (hmsg : a.msg = .node m) (howner : a.dst = owner cfg.hosts m.nameA)
    (hhosts : m.master_repos = [] ∨ m.master_repos = cfg.hosts) {tail : List Send}
    (htail : ∀ s ∈ tail, s.host ∉ cfg.repos) (x y : Str) :
    rowsDue cfg (Function.update repo a.dst ((repo a.dst).store m))
      (rest + World.stamp a.dst a.req (reverses m ++ tail)) x y =
    rowsDue cfg repo (a ::ₘ rest) x y := by
  have hheld : rowsHeld cfg (Function.update repo a.dst ((repo a.dst).store m)) x y =
      rowsHeld cfg repo x y + if m.nameA = x then m.relations.count y else 0 := by
    have hstored : ((repo a.dst).store m).storage.relations =
        (repo a.dst).storage.relations ++ m.relations.map fun rel => ⟨m.nameA, rel⟩ :=
      relations_stored _ m.wire
    unfold rowsHeld
    by_cases hx : owner cfg.hosts x = a.dst
    · rw [hx, Function.update_self, hstored, List.count_append, count_rows]
    · have hname : m.nameA ≠ x := by
        rintro rfl
        exact hx howner.symm
      rw [Function.update_of_ne hx, if_neg hname, Nat.add_zero]
  have hbrought : rowsBrought cfg x y a = (if m.nameA = x then m.relations.count y else 0) +
      if m.master_repos = [] then 0 else if m.nameA = y then m.relations.count x else 0 := by
    unfold rowsBrought
    rw [if_pos hdst, hmsg]
  have hsent : ((World.stamp a.dst a.req (reverses m ++ tail) : Multiset Envelope).map
      (rowsBrought cfg x y)).sum =
      if m.master_repos = [] then 0 else if m.nameA = y then m.relations.count x else 0 := by
    have hzero : ((World.stamp a.dst a.req tail : Multiset Envelope).map
        (rowsBrought cfg x y)).sum = 0 := by
      refine sum_rowsBrought_eq_zero fun b hb hbdst => ?_
      obtain ⟨s, hs, rfl⟩ := List.mem_map.mp hb
      exact absurd hbdst (htail s hs)
    rw [← sum_rowsBrought_reverses hne hhosts a.dst a.req]
    rw [World.stamp, List.map_append, ← Multiset.coe_add, Multiset.map_add, Multiset.sum_add]
    rw [World.stamp] at hzero
    rw [hzero, Nat.add_zero, Multiset.map_coe, Multiset.sum_coe]
    rfl
  rw [rowsDue_cons, rowsDue_add, hsent, hbrought]
  unfold rowsDue
  rw [hheld]
  omega

theorem store (h : Balanced cfg repo (a ::ₘ rest)) (hne : cfg.repos ≠ []) (hdst : a.dst ∈ cfg.repos)
    {m : NodeMsg} (hmsg : a.msg = .node m) (howner : a.dst = owner cfg.hosts m.nameA)
    (hascii : AsciiName m.nameA ∧ ∀ rel ∈ m.relations, AsciiName rel)
    (hhosts : m.master_repos = [] ∨ m.master_repos = cfg.hosts) {tail : List Send}
    (htail : ∀ s ∈ tail, s.host ∉ cfg.repos) :
    Balanced cfg (Function.update repo a.dst ((repo a.dst).store m))
      (rest + World.stamp a.dst a.req (reverses m ++ tail)) where
  attributes := by
    intro host hhost r hr
    by_cases heq : host = a.dst
    · subst heq
      have hstored : ((repo a.dst).store m).storage.attributes = (repo a.dst).storage.attributes ++
          m.wire.attributes.map fun a => { a with node_name := m.nameA } :=
        attributes_stored _ m.wire
      rw [Function.update_self, hstored] at hr
      rcases List.mem_append.mp hr with hr | hr
      · exact h.attributes _ hhost r hr
      · obtain ⟨attr, -, rfl⟩ := List.mem_map.mp hr
        exact ⟨hascii.1, howner⟩
    · rw [Function.update_of_ne heq] at hr
      exact h.attributes host hhost r hr
  relations := by
    intro host hhost r hr
    by_cases heq : host = a.dst
    · subst heq
      have hstored : ((repo a.dst).store m).storage.relations =
          (repo a.dst).storage.relations ++ m.relations.map fun rel => ⟨m.nameA, rel⟩ :=
        relations_stored _ m.wire
      rw [Function.update_self, hstored] at hr
      rcases List.mem_append.mp hr with hr | hr
      · exact h.relations _ hhost r hr
      · obtain ⟨rel, hrel, rfl⟩ := List.mem_map.mp hr
        exact ⟨hascii.1, hascii.2 rel hrel, howner⟩
    · rw [Function.update_of_ne heq] at hr
      exact h.relations host hhost r hr
  due := by
    intro x y
    rw [rowsDue_store hne hdst hmsg howner hhosts htail,
      rowsDue_store hne hdst hmsg howner hhosts htail]
    exact h.due x y

end Balanced

/-! ## Every turn keeps the balance -/

theorem Turn.balanced {cfg : Config} {w w' : World} {a : Envelope} {rest : Multiset Envelope}
    (hturn : Turn cfg { w with transit := rest } a w') (hinv : w.Inv cfg) (hadm : w.Admissible)
    (hne : cfg.repos ≠ []) (htransit : w.transit = a ::ₘ rest)
    (hrows : Rows cfg w.repo w.accepted w.transit) (h : Balanced cfg w.repo w.transit) :
    Balanced cfg w'.repo w'.transit := by
  have hmem : a ∈ w.transit := by simp [htransit]
  rw [htransit] at h
  cases hturn.creates hinv with
  | accept hdst hrepo haccepted ht =>
    rw [hrepo, ht]
    exact h.accept hdst _ _
  | @stored m _ hdst hmsg hhosts htail hrepo haccepted ht =>
    have howner : a.dst = owner cfg.hosts m.nameA := by
      have := hrows.routed a hmem hdst
      rwa [hmsg] at this
    have hascii := hadm.ascii a hmem
    rw [hmsg] at hascii
    rw [hrepo, ht]
    exact h.store hne hdst hmsg howner hascii hhosts htail
  | other ha hes hrepo haccepted ht =>
    rw [hrepo, ht]
    exact h.frame ha fun b hb hbdst => (hes b hb hbdst).2

/-! ## Runs whose messages fit -/

theorem Msg.Fits.request_id_le {m : Msg} (h : m.Fits) : m.request_id ≤ 999 := by
  cases m with
  | node m => exact h.id.2
  | query m => exact h.id.2
  | update m => exact h.id.2
  | delete m => exact h.id.2
  | response m => exact h.id.2
  | info m => exact h.id.2
  | register => exact (by decide : (0 : ℤ) ≤ 999)

theorem Turn.few {cfg : Config} {w w' : World} {a : Envelope} (hturn : Turn cfg w a w')
    (hfew : w.server.current_request ≤ 1000) (hfits : ∀ b ∈ w'.transit, b.msg.Fits) :
    w'.server.current_request ≤ 1000 := by
  cases hturn with
  | accept hdst hsrc hmsg hfree =>
    have hfwd := (hfits _ (Multiset.mem_add.mpr (Or.inr (List.mem_singleton_self _)))).request_id_le
    simp only [(hmsg.forwarded cfg.hosts w.server.current_request).2.1] at hfwd
    show w.server.current_request + 1 ≤ 1000
    omega
  | _ => exact hfew

section Runs

variable {cfg : Config} {es : List Event}

/-- Admissible runs are those whose messages fit and name nodes that start with an ASCII byte. -/
theorem along_admissible (hne : cfg.repos ≠ []) (hsteady : ∀ e ∈ es, e.Steady)
    (hfits : Along (World.step cfg) (fun w => ∀ a ∈ w.transit, a.msg.Fits) (World.start cfg) es)
    (hascii : Along (World.step cfg) (fun w => ∀ a ∈ w.transit, a.msg.Ascii) (World.start cfg) es) :
    Along (World.step cfg) World.Admissible (World.start cfg) es := by
  have hrun := Along.of_step (I := fun w => w.Inv cfg ∧ w.server.current_request ≤ 1000)
    (C := fun _ e => e.Steady) (fun w e w' hA hA' hC hI hstep => ?_)
    ⟨World.Inv.start cfg, show 1 ≤ 1000 by decide⟩ (hfits.and hascii) (meets_of_forall hsteady _)
  · exact (hrun.and (hfits.and hascii)).mono fun w h => ⟨h.2.1, h.2.2, h.1.2⟩
  · have hadm : w.Admissible := ⟨hA.1, hA.2, hI.2⟩
    refine ⟨hI.1.step hne hadm hC hstep, ?_⟩
    cases e with
    | request client msg =>
      obtain ⟨-, -, rfl⟩ := step_request hstep
      exact hI.2
    | deliver a throws =>
      obtain ⟨rest, -, hturn⟩ := hI.1.turn_of_step hne hadm hC hstep
      exact hturn.few hI.2 hA'.1

/-- The stored rows of a state: each at the repository that the server's `C` branch chooses for its
node, and, with nothing in transit, as many in one direction as in the other. -/
structure Symmetric (cfg : Config) (w : World) : Prop where
  attributes : ∀ h ∈ cfg.repos, ∀ r ∈ (w.repo h).storage.attributes,
    Place.create.host w.server.repositories r.node_name = .ok h
  relations : ∀ h ∈ cfg.repos, ∀ r ∈ (w.repo h).storage.relations,
    Place.create.host w.server.repositories r.node_name1 = .ok h
  paired : w.transit = 0 → ∀ x y hx hy, Place.create.host w.server.repositories x = .ok hx →
    Place.create.host w.server.repositories y = .ok hy →
    (w.repo hx).storage.relations.count ⟨x, y⟩ = (w.repo hy).storage.relations.count ⟨y, x⟩

theorem create_host_ascii {hosts : List Host} (h2 : 2 ≤ hosts.length) {name : Str}
    (hname : AsciiName name) : Place.create.host hosts name = .ok (owner hosts name) := by
  unfold Place.host
  rw [Place.index_eq, if_neg (by decide), indexPlusOne_ascii hname h2, ok_bind,
    hostAt_ownerIndex h2]

theorem Balanced.symmetric {w : World} (h : Balanced cfg w.repo w.transit) (hne : cfg.repos ≠ [])
    (hhosts : w.server.repositories = cfg.hosts) : Symmetric cfg w where
  attributes := by
    intro host hhost r hr
    obtain ⟨hname, rfl⟩ := h.attributes host hhost r hr
    rw [hhosts]
    exact create_host_ascii (two_le_hosts hne) hname
  relations := by
    intro host hhost r hr
    obtain ⟨hname, -, rfl⟩ := h.relations host hhost r hr
    rw [hhosts]
    exact create_host_ascii (two_le_hosts hne) hname
  paired := by
    intro hzero x y hx hy hxhost hyhost
    rw [hhosts] at hxhost hyhost
    have hrepo : ∀ {name : Str} {host : Host},
        Place.create.host cfg.hosts name = .ok host → host ∈ cfg.repos := by
      intro name host hhost
      unfold Place.host at hhost
      obtain ⟨r, hr, hhost⟩ := bind_eq_ok.mp hhost
      rw [Place.index_eq, if_neg (by decide)] at hr
      obtain ⟨hlow, -⟩ := indexPlusOne_range hr
      obtain ⟨-, hget⟩ := hostAt_eq_ok.mp hhost
      obtain ⟨k, rfl⟩ : ∃ k : ℕ, r = (k : ℤ) + 1 := ⟨(r - 1).toNat, by omega⟩
      exact List.mem_of_getElem? hget
    by_cases hascii : AsciiName x ∧ AsciiName y
    · obtain ⟨hxname, hyname⟩ := hascii
      rw [create_host_ascii (two_le_hosts hne) hxname] at hxhost
      rw [create_host_ascii (two_le_hosts hne) hyname] at hyhost
      injection hxhost with hxhost
      injection hyhost with hyhost
      have hdue := h.due x y
      simpa [rowsDue, rowsHeld, hzero, hxhost, hyhost] using hdue
    · -- no row names such a node, so there are none in either direction
      rw [List.count_eq_zero.mpr, List.count_eq_zero.mpr]
      · intro hmem
        obtain ⟨h₁, h₂, -⟩ := h.relations hy (hrepo hyhost) _ hmem
        exact hascii ⟨h₂, h₁⟩
      · intro hmem
        obtain ⟨h₁, h₂, -⟩ := h.relations hx (hrepo hxhost) _ hmem
        exact hascii ⟨h₁, h₂⟩

/-- **Placement and symmetry.** In every run of a deployment with a repository, in which the
messages fit the wire, names start with an ASCII byte and the storage does not throw, every state is
`Symmetric`. -/
theorem rows_symmetric (hne : cfg.repos ≠ []) (hsteady : ∀ e ∈ es, e.Steady)
    (hfits : Along (World.step cfg) (fun w => ∀ a ∈ w.transit, a.msg.Fits) (World.start cfg) es)
    (hascii : Along (World.step cfg) (fun w => ∀ a ∈ w.transit, a.msg.Ascii) (World.start cfg) es) :
    Along (World.step cfg) (Symmetric cfg) (World.start cfg) es := by
  refine (along_turns hne (I := fun w => Rows cfg w.repo w.accepted w.transit ∧
      Balanced cfg w.repo w.transit) ?_ ?_ (World.Inv.start cfg) ⟨Rows.start, Balanced.start⟩
      hsteady (along_admissible hne hsteady hfits hascii)).mono
    fun w h => h.2.2.symmetric hne h.1.1.hosts
  · rintro w client msg ⟨hrows, hbalanced⟩ - -
    refine ⟨hrows.request client msg, hbalanced.attributes, hbalanced.relations, fun x y => ?_⟩
    have hserver : ∀ b ∈ ([⟨client, cfg.address, msg, 0⟩] : List Envelope), b.dst ∈ cfg.repos →
        ∀ m, b.msg ≠ .node m := by
      intro b hb hdst
      rw [List.mem_singleton.mp hb] at hdst
      exact absurd hdst cfg.apart
    rw [World.post_transit, rowsDue_add, rowsDue_add, sum_rowsBrought_eq_zero hserver,
      sum_rowsBrought_eq_zero hserver]
    exact hbalanced.due x y
  · rintro w a rest w' hinv hadm ⟨hrows, hbalanced⟩ htransit hturn
    exact ⟨hturn.rows hinv hne htransit hrows,
      hturn.balanced hinv hadm hne htransit hrows hbalanced⟩

end Runs

/-- After the create of a with a relation to b, each direction has its row. -/
theorem rows_symmetric_create :
    ∃ w, run (World.step oneRepository) (World.start oneRepository) oneCreate = some w ∧
      w.transit = 0 ∧ Symmetric oneRepository w ∧
      (w.repo ⟨str "10.0.0.2", 50001⟩).storage.relations =
        [⟨str "a", str "b"⟩, ⟨str "b", str "a"⟩] := by
  have halong := rows_symmetric (show oneRepository.repos ≠ [] by decide)
    (show ∀ e ∈ oneCreate, e.Steady by simp [oneCreate, Event.Steady]) (by decide +kernel)
    (by decide +kernel)
  have hrun : ∃ w, run (World.step oneRepository) (World.start oneRepository) oneCreate = some w ∧
      w.transit = 0 ∧ (w.repo ⟨str "10.0.0.2", 50001⟩).storage.relations =
        [⟨str "a", str "b"⟩, ⟨str "b", str "a"⟩] := exists_of_check (by decide +kernel)
  obtain ⟨w, hw, hzero, hrelations⟩ := hrun
  exact ⟨w, hw, hzero, halong.last hw, hrelations⟩

end DGDB
