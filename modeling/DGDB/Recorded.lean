import Mathlib
import DGDB.Storing
import DGDB.Symmetry

/-!
# Which nodes the tables have

The names that the accepted creates mention are the nodes of the repositories, unless a message that
will store one is still in transit, and a query asks for its root and for such names only.
-/

namespace DGDB

open EventSystem

/-! ## The names of the accepted creates -/

/-- Some accepted create creates `x` or relates its node to it. -/
def Mentioned (accepted : List (ℕ × Envelope)) (x : Str) : Prop :=
  ∃ p ∈ accepted, ∃ m, p.2.msg = .node m ∧ (m.nameA = x ∨ x ∈ m.relations)

section Mentioned

variable {accepted new : List (ℕ × Envelope)} {x y : Str}

theorem Mentioned.append (h : Mentioned accepted x) : Mentioned (accepted ++ new) x := by
  obtain ⟨p, hp, hmsg⟩ := h
  exact ⟨p, List.mem_append_left _ hp, hmsg⟩

theorem mentioned_of_neighbours (h : y ∈ neighbours accepted x) : Mentioned accepted y := by
  obtain ⟨p, hp, m, hmsg, ⟨-, hy⟩ | ⟨hname, -⟩⟩ := mem_neighbours.mp h
  · exact ⟨p, hp, m, hmsg, Or.inr hy⟩
  · exact ⟨p, hp, m, hmsg, Or.inl hname⟩

end Mentioned

/-! ## The nodes of the repositories -/

/-- The tables `Nodes` and the accepted creates. Of the nodes without relations the rows say
nothing, so the names that are created are followed on their own. -/
structure Recorded (cfg : Config) (repo : Host → Process) (accepted : List (ℕ × Envelope))
    (transit : Multiset Envelope) : Prop where
  sound : ∀ h ∈ cfg.repos, ∀ x ∈ (repo h).storage.nodes, Mentioned accepted x
  carried : ∀ a ∈ transit, a.dst ∈ cfg.repos → ∀ m, a.msg = .node m → Mentioned accepted m.nameA
  created : ∀ p ∈ accepted, ∀ m, p.2.msg = .node m →
    m.nameA ∈ (repo (owner cfg.hosts m.nameA)).storage.nodes ∨
      ∃ a ∈ transit, a.dst ∈ cfg.repos ∧ ∃ m', a.msg = .node m' ∧ m'.nameA = m.nameA
  rows : ∀ h ∈ cfg.repos, ∀ r ∈ (repo h).storage.relations, r.node_name1 ∈ (repo h).storage.nodes

namespace Recorded

variable {cfg : Config} {repo : Host → Process} {accepted : List (ℕ × Envelope)} {a : Envelope}
  {rest : Multiset Envelope} {es : List Envelope}

theorem start : Recorded cfg (fun _ => Process.newRepository cfg) [] 0 := by
  constructor <;> simp [Process.newRepository, Storage.empty]

theorem frame (h : Recorded cfg repo accepted (a ::ₘ rest))
    (ha : a.dst ∈ cfg.repos → ∀ m, a.msg ≠ .node m)
    (hes : ∀ b ∈ es, b.dst ∈ cfg.repos → ∀ m, b.msg ≠ .node m) :
    Recorded cfg repo accepted (rest + es) where
  sound := h.sound
  carried := by
    intro b hb hdst m hmsg
    rcases Multiset.mem_add.mp hb with hb | hb
    · exact h.carried b (Multiset.mem_cons_of_mem hb) hdst m hmsg
    · exact absurd hmsg (hes b hb hdst m)
  created := by
    intro p hp m hmsg
    rcases h.created p hp m hmsg with hnode | ⟨b, hb, hdst, m', hmsg', hname⟩
    · exact Or.inl hnode
    · rcases Multiset.mem_cons.mp hb with rfl | hb
      · exact absurd hmsg' (ha hdst m')
      · exact Or.inr ⟨b, Multiset.mem_add.mpr (Or.inl hb), hdst, m', hmsg', hname⟩
  rows := h.rows

theorem accept (h : Recorded cfg repo accepted (a ::ₘ rest)) (hne : cfg.repos ≠ []) {k : ℕ}
    (hdst : a.dst = cfg.address) :
    Recorded cfg repo (accepted ++ [(k, a)]) (rest + ([⟨cfg.address, owner cfg.hosts a.msg.name,
      a.msg.forwarded cfg.hosts k, k⟩] : List Envelope)) where
  sound := fun host hhost x hx => (h.sound host hhost x hx).append
  carried := by
    intro b hb hbdst m hmsg
    rcases Multiset.mem_add.mp hb with hb | hb
    · exact (h.carried b (Multiset.mem_cons_of_mem hb) hbdst m hmsg).append
    · rw [List.mem_singleton.mp hb] at hmsg
      cases hrequest : a.msg with
      | node m' =>
        simp only [hrequest, Msg.forwarded, Msg.node.injEq] at hmsg
        subst hmsg
        exact ⟨(k, a), List.mem_append_right _ (List.mem_singleton_self _), m', hrequest,
          Or.inl rfl⟩
      | _ =>
        rw [hrequest] at hmsg
        cases hmsg
  created := by
    intro p hp m hmsg
    rcases List.mem_append.mp hp with hp | hp
    · rcases h.created p hp m hmsg with hnode | ⟨b, hb, hbdst, hname⟩
      · exact Or.inl hnode
      · rcases Multiset.mem_cons.mp hb with rfl | hb
        · exact absurd (hdst ▸ hbdst) cfg.apart
        · exact Or.inr ⟨b, Multiset.mem_add.mpr (Or.inl hb), hbdst, hname⟩
    · obtain rfl := List.mem_singleton.mp hp
      have hrequest : a.msg = .node m := hmsg
      refine Or.inr ⟨_, Multiset.mem_add.mpr (Or.inr (List.mem_singleton_self _)),
        owner_mem cfg.self hne _, ?_⟩
      rw [hrequest]
      exact ⟨_, rfl, rfl⟩
  rows := h.rows

theorem store (h : Recorded cfg repo accepted (a ::ₘ rest)) (hdst : a.dst ∈ cfg.repos)
    {m : NodeMsg} (hmsg : a.msg = .node m) (howner : a.dst = owner cfg.hosts m.nameA)
    (hrelations : ∀ y ∈ m.relations, Mentioned accepted y) {tail : List Send}
    (htail : ∀ s ∈ tail, s.host ∉ cfg.repos) :
    Recorded cfg (Function.update repo a.dst ((repo a.dst).store m)) accepted
      (rest + World.stamp a.dst a.req (reverses m ++ tail)) := by
  have hname := h.carried a (Multiset.mem_cons_self a rest) hdst m hmsg
  have hnodes : ∀ x, x ∈ ((repo a.dst).store m).storage.nodes ↔
      x ∈ (repo a.dst).storage.nodes ∨ x = m.nameA ∨ x ∈ m.relations :=
    fun x => mem_nodes_stored
  have hkeep : ∀ host, (repo host).storage.nodes ⊆
      (Function.update repo a.dst ((repo a.dst).store m) host).storage.nodes := by
    intro host x hx
    by_cases heq : host = a.dst
    · subst heq
      rw [Function.update_self]
      exact (hnodes x).mpr (Or.inl hx)
    · rwa [Function.update_of_ne heq]
  constructor
  · intro host hhost x hx
    by_cases heq : host = a.dst
    · subst heq
      rw [Function.update_self] at hx
      rcases (hnodes x).mp hx with hx | rfl | hx
      · exact h.sound _ hhost x hx
      · exact hname
      · exact hrelations x hx
    · rw [Function.update_of_ne heq] at hx
      exact h.sound host hhost x hx
  · intro b hb hbdst m' hm'
    rcases Multiset.mem_add.mp hb with hb | hb
    · exact h.carried b (Multiset.mem_cons_of_mem hb) hbdst m' hm'
    · obtain ⟨s, hs, rfl⟩ := List.mem_map.mp hb
      rcases List.mem_append.mp hs with hs | hs
      · unfold reverses at hs
        split_ifs at hs
        · exact absurd hs List.not_mem_nil
        · obtain ⟨rel, hrel, rfl⟩ := List.mem_map.mp hs
          cases hm'
          exact hrelations rel hrel
      · exact absurd hbdst (htail s hs)
  · intro p hp m₁ hm₁
    rcases h.created p hp m₁ hm₁ with hnode | ⟨b, hb, hbdst, m', hm', heq⟩
    · exact Or.inl (hkeep _ hnode)
    · rcases Multiset.mem_cons.mp hb with rfl | hb
      · -- the message just handled is the one that was on its way
        rw [hmsg] at hm'
        cases hm'
        refine Or.inl ?_
        rw [← heq, ← howner, Function.update_self]
        exact (hnodes _).mpr (Or.inr (Or.inl rfl))
      · exact Or.inr ⟨b, Multiset.mem_add.mpr (Or.inl hb), hbdst, m', hm', heq⟩
  · intro host hhost r hr
    by_cases heq : host = a.dst
    · subst heq
      have hstored : ((repo a.dst).store m).storage.relations =
          (repo a.dst).storage.relations ++ m.relations.map fun rel => ⟨m.nameA, rel⟩ :=
        relations_stored _ m.wire
      rw [Function.update_self] at hr ⊢
      rw [hstored] at hr
      rcases List.mem_append.mp hr with hr | hr
      · exact (hnodes _).mpr (Or.inl (h.rows _ hhost r hr))
      · obtain ⟨rel, -, rfl⟩ := List.mem_map.mp hr
        exact (hnodes _).mpr (Or.inr (Or.inl rfl))
    · rw [Function.update_of_ne heq] at hr ⊢
      exact h.rows host hhost r hr

/-- With no `C` on its way to a repository the nodes of a repository are the mentioned names that it
owns. -/
theorem mentioned_iff (h : Recorded cfg repo accepted rest) (hrows : Rows cfg repo accepted rest)
    (hne : cfg.repos ≠ [])
    (hquiet : ∀ b ∈ rest, b.dst ∈ cfg.repos → ∀ m, b.msg ≠ .node m) (x : Str) :
    Mentioned accepted x ↔ x ∈ (repo (owner cfg.hosts x)).storage.nodes := by
  have howner := owner_mem cfg.self hne x
  constructor
  · rintro ⟨p, hp, m, hmsg, rfl | hx⟩
    · rcases h.created p hp m hmsg with hnode | ⟨b, hb, hdst, m', hm', -⟩
      · exact hnode
      · exact absurd hm' (hquiet b hb hdst m')
    · -- a name that is related to has a row of its own, for the other direction
      have hedge : m.nameA ∈ neighbours accepted x :=
        mem_neighbours.mpr ⟨p, hp, m, hmsg, Or.inr ⟨rfl, hx⟩⟩
      rcases hrows.complete x m.nameA hedge with hrow | ⟨b, hb, hdst, m', hm', -⟩
      · exact h.rows _ howner _ hrow
      · exact absurd hm' (hquiet b hb hdst m')
  · exact fun hx => h.sound _ howner x hx

end Recorded

theorem Recorded.request {cfg : Config} {w : World} (h : Recorded cfg w.repo w.accepted w.transit)
    (client : Host) (msg : Msg) :
    Recorded cfg w.repo w.accepted
      (w.transit + ([⟨client, cfg.address, msg, 0⟩] : List Envelope)) where
  sound := h.sound
  carried := by
    intro b hb hdst m hmsg
    rcases Multiset.mem_add.mp hb with hb | hb
    · exact h.carried b hb hdst m hmsg
    · rw [List.mem_singleton.mp hb] at hdst
      exact absurd hdst cfg.apart
  created := fun p hp m hmsg => (h.created p hp m hmsg).imp_right fun ⟨b, hb, hname⟩ =>
    ⟨b, Multiset.mem_add.mpr (Or.inl hb), hname⟩
  rows := h.rows

theorem Turn.recorded {cfg : Config} {w w' : World} {a : Envelope} {rest : Multiset Envelope}
    (hturn : Turn cfg { w with transit := rest } a w') (hinv : w.Inv cfg) (hne : cfg.repos ≠ [])
    (htransit : w.transit = a ::ₘ rest) (hrows : Rows cfg w.repo w.accepted w.transit)
    (h : Recorded cfg w.repo w.accepted w.transit) :
    Recorded cfg w'.repo w'.accepted w'.transit := by
  have hmem : a ∈ w.transit := by simp [htransit]
  rw [htransit] at h
  cases hturn.creates hinv with
  | accept hdst hrepo haccepted ht =>
    rw [hrepo, haccepted, ht]
    exact h.accept hne hdst
  | @stored m _ hdst hmsg hhosts htail hrepo haccepted ht =>
    have howner : a.dst = owner cfg.hosts m.nameA := by
      have := hrows.routed a hmem hdst
      rwa [hmsg] at this
    rw [hrepo, haccepted, ht]
    exact h.store hdst hmsg howner
      (fun y hy => mentioned_of_neighbours (hrows.carried a hmem hdst m hmsg y hy)) htail
  | other ha hes hrepo haccepted ht =>
    rw [hrepo, haccepted, ht]
    exact h.frame ha fun b hb hbdst => (hes b hb hbdst).2

/-! ## The names that queries ask for -/

/-- `x` is the root of the query accepted as request `id`. -/
def IsRoot (accepted : List (ℕ × Envelope)) (id : ℤ) (x : Str) : Prop :=
  ∃ p ∈ accepted, (p.1 : ℤ) = id ∧ ∃ q, p.2.msg = .query q ∧ q.nameA = x

/-- The names that the request `id` can ask for: its root, and names of creates. -/
def Sought (accepted : List (ℕ × Envelope)) (id : ℤ) (x : Str) : Prop :=
  IsRoot accepted id x ∨ Mentioned accepted x

theorem Sought.append {accepted new : List (ℕ × Envelope)} {id : ℤ} {x : Str}
    (h : Sought accepted id x) : Sought (accepted ++ new) id x := by
  rcases h with ⟨p, hp, hroot⟩ | h
  · exact Or.inl ⟨p, List.mem_append_left _ hp, hroot⟩
  · exact Or.inr h.append

/-- The names in the queues, in the `R`s to the repositories and in the `I`s to the server. -/
structure Searched (cfg : Config) (pending : ℤ → Option Pending) (accepted : List (ℕ × Envelope))
    (transit : Multiset Envelope) : Prop where
  queued : ∀ id client st, pending id = some ⟨client, some st⟩ →
    ∀ u ∈ st.node_queue, Sought accepted id u.1
  asked : ∀ a ∈ transit, a.dst ∈ cfg.repos → ∀ q, a.msg = .query q →
    Sought accepted q.request_id q.nameA
  replied : ∀ a ∈ transit, a.dst = cfg.address → ∀ i, a.msg = .info i →
    ∀ y ∈ i.relations, Mentioned accepted y

namespace Searched

variable {cfg : Config} {pending pending' : ℤ → Option Pending}
  {accepted new : List (ℕ × Envelope)} {a : Envelope} {rest : Multiset Envelope}
  {es : List Envelope}

theorem start : Searched cfg (fun _ => none) [] 0 := by
  constructor <;> simp

theorem frame (h : Searched cfg pending accepted (a ::ₘ rest))
    (hqueued : ∀ id client st, pending' id = some ⟨client, some st⟩ →
      pending id = some ⟨client, some st⟩ ∨
        ∀ u ∈ st.node_queue, Sought (accepted ++ new) id u.1)
    (hasked : ∀ b ∈ es, b.dst ∈ cfg.repos → ∀ q, b.msg = .query q →
      Sought (accepted ++ new) q.request_id q.nameA)
    (hreplied : ∀ b ∈ es, b.dst = cfg.address → ∀ i, b.msg = .info i →
      ∀ y ∈ i.relations, Mentioned (accepted ++ new) y) :
    Searched cfg pending' (accepted ++ new) (rest + es) where
  queued := by
    intro id client st hpending u hu
    rcases hqueued id client st hpending with hold | hnew
    · exact (h.queued id client st hold u hu).append
    · exact hnew u hu
  asked := by
    intro b hb hdst q hmsg
    rcases Multiset.mem_add.mp hb with hb | hb
    · exact (h.asked b (Multiset.mem_cons_of_mem hb) hdst q hmsg).append
    · exact hasked b hb hdst q hmsg
  replied := by
    intro b hb hdst i hmsg y hy
    rcases Multiset.mem_add.mp hb with hb | hb
    · exact (h.replied b (Multiset.mem_cons_of_mem hb) hdst i hmsg y hy).append
    · exact hreplied b hb hdst i hmsg y hy

theorem frame_writes (h : Searched cfg pending accepted (a ::ₘ rest))
    (hpending : ∀ id entry, pending' id = some entry → pending id = some entry)
    (hes : ∀ b ∈ es, (∀ q, b.msg ≠ .query q) ∧ ∀ i, b.msg ≠ .info i) :
    Searched cfg pending' accepted (rest + es) := by
  have hframe : Searched cfg pending' (accepted ++ []) (rest + es) :=
    h.frame (fun id client st hp => Or.inl (hpending id _ hp))
      (fun b hb _ q hmsg => absurd hmsg ((hes b hb).1 q))
      (fun b hb _ i hmsg => absurd hmsg ((hes b hb).2 i))
  rwa [List.append_nil] at hframe

theorem accept (h : Searched cfg pending accepted (a ::ₘ rest)) (hrequest : a.msg.IsRequest) (k : ℕ)
    (client host : Host) :
    Searched cfg (Function.update pending k (some ⟨client, a.msg.state⟩)) (accepted ++ [(k, a)])
      (rest + ([⟨cfg.address, host, a.msg.forwarded cfg.hosts k, k⟩] : List Envelope)) := by
  have hroot : ∀ q, a.msg = .query q → Sought (accepted ++ [(k, a)]) k q.nameA := fun q hq =>
    Or.inl ⟨(k, a), List.mem_append_right _ (List.mem_singleton_self _), rfl, q, hq, rfl⟩
  refine h.frame ?_ ?_ ?_
  · intro id client' st hpending
    by_cases heq : id = k
    · subst heq
      rw [Function.update_self] at hpending
      cases hmsg : a.msg with
      | query q =>
        simp only [hmsg, Msg.state, Option.some.injEq, Pending.mk.injEq] at hpending
        obtain ⟨-, rfl⟩ := hpending
        refine Or.inr fun u hu => ?_
        rw [List.mem_singleton.mp hu]
        exact hroot q hmsg
      | _ => simp [hmsg, Msg.state] at hpending
    · rw [Function.update_of_ne heq] at hpending
      exact Or.inl hpending
  · intro b hb _ q hq
    rw [List.mem_singleton.mp hb] at hq
    cases hmsg : a.msg with
    | query q' =>
      simp only [hmsg, Msg.forwarded, Msg.query.injEq] at hq
      subst hq
      exact hroot q' hmsg
    | _ => simp [hmsg, Msg.forwarded] at hq
  · intro b hb _ i hi
    rw [List.mem_singleton.mp hb] at hi
    cases hmsg : a.msg with
    | info i' =>
      rw [hmsg] at hrequest
      exact hrequest.elim
    | _ => simp [hmsg, Msg.forwarded] at hi

end Searched

theorem Searched.request {cfg : Config} {pending : ℤ → Option Pending}
    {accepted : List (ℕ × Envelope)} {transit : Multiset Envelope}
    (h : Searched cfg pending accepted transit) (client : Host) {msg : Msg} (hmsg : msg.IsRequest) :
    Searched cfg pending accepted
      (transit + ([⟨client, cfg.address, msg, 0⟩] : List Envelope)) where
  queued := h.queued
  asked := by
    intro b hb hdst q hq
    rcases Multiset.mem_add.mp hb with hb | hb
    · exact h.asked b hb hdst q hq
    · rw [List.mem_singleton.mp hb] at hdst
      exact absurd hdst cfg.apart
  replied := by
    intro b hb hdst i hi
    rcases Multiset.mem_add.mp hb with hb | hb
    · exact h.replied b hb hdst i hi
    · rw [List.mem_singleton.mp hb] at hi
      have hinfo : msg = .info i := hi
      rw [hinfo] at hmsg
      exact hmsg.elim

/-- A `C` or a `D` makes a repository send neither an `R` nor an `I`. -/
theorem stamp_reverses_ne {src address : Host} {req : ℕ} {out : List Send} {request_id : ℤ}
    {message : Str} (hout : ∀ s ∈ out, s.msg.spreads = true) :
    ∀ b ∈ World.stamp src req (out ++ if request_id = 0 then []
      else [⟨address, .response ⟨message, request_id⟩⟩]),
      (∀ q, b.msg ≠ .query q) ∧ ∀ i, b.msg ≠ .info i := by
  intro b hb
  obtain ⟨s, hs, rfl⟩ := List.mem_map.mp hb
  rcases List.mem_append.mp hs with hs | hs
  · have hspreads := hout s hs
    refine ⟨fun q hq => ?_, fun i hi => ?_⟩
    · rw [show s.msg = .query q from hq] at hspreads
      cases hspreads
    · rw [show s.msg = .info i from hi] at hspreads
      cases hspreads
  · split_ifs at hs
    · exact absurd hs List.not_mem_nil
    · rw [List.mem_singleton.mp hs]
      exact ⟨nofun, nofun⟩

theorem Turn.searched {cfg : Config} {w w' : World} {a : Envelope} {rest : Multiset Envelope}
    (hturn : Turn cfg { w with transit := rest } a w') (htransit : w.transit = a ::ₘ rest)
    (hrows : Rows cfg w.repo w.accepted w.transit)
    (h : Searched cfg w.server.pending w.accepted w.transit) :
    Searched cfg w'.server.pending w'.accepted w'.transit := by
  have hreply := h.replied a (by simp [htransit])
  rw [htransit] at h
  cases hturn with
  | busy hdst hsrc hmsg hwrite hbusy =>
    refine h.frame_writes (fun id entry hp => hp) fun b hb => ?_
    rw [List.mem_singleton.mp hb]
    exact ⟨nofun, nofun⟩
  | accept hdst hsrc hmsg hfree => exact h.accept hmsg _ _ _
  | @response m client hdst hsrc hmsg hpending =>
    refine h.frame_writes (fun id entry hp => Process.pending_of_close hp) fun b hb => ?_
    rw [List.mem_singleton.mp hb]
    exact ⟨nofun, nofun⟩
  | @complete i client st t queue hdst hsrc hmsg hpending hqueue hempty =>
    refine h.frame_writes (fun id entry hp => Process.pending_of_close hp) fun b hb => ?_
    rw [List.mem_singleton.mp hb]
    exact ⟨nofun, nofun⟩
  | @next i client st t s queue queue' v hdst hsrc hmsg hpending hqueue hnext hv =>
    -- the names of the new queue come from the old one and from the reply
    have hnew : ∀ u ∈ (st.advance (i.nameA, t) queue i.wire).node_queue,
        Sought w.accepted i.request_id u.1 := by
      intro u hu
      rcases mem_advance_queue hu with hu | ⟨hu, -⟩
      · exact h.queued _ _ _ hpending u (by rw [hqueue]; exact List.mem_cons_of_mem _ hu)
      · exact Or.inr (hreply hdst i hmsg u.1 hu)
    have hframe : Searched cfg (w.server.file i.request_id
        ⟨client, some (st.advance (i.nameA, t) queue i.wire)⟩).pending (w.accepted ++ [])
        (rest + ([⟨cfg.address, owner cfg.hosts v, .query ⟨v, toInt s, st.leaf, st.attr,
          st.conditions, i.request_id⟩, a.req⟩] : List Envelope)) := by
      refine h.frame ?_ ?_ ?_
      · intro id client' st' hp
        rcases Process.pending_of_file hp with ⟨rfl, heq⟩ | hp
        · cases heq
          exact Or.inr fun u hu => (hnew u hu).append
        · exact Or.inl hp
      · intro b hb _ q hq
        rw [List.mem_singleton.mp hb] at hq
        cases hq
        exact (hnew (v, s) (by rw [hnext]; exact List.mem_cons_self)).append
      · intro b hb _ i' hi'
        rw [List.mem_singleton.mp hb] at hi'
        cases hi'
    rwa [List.append_nil] at hframe
  | @stored m hdst hmsg hhosts hrels =>
    refine h.frame_writes (fun id entry hp => hp) (stamp_reverses_ne fun s hs => ?_)
    unfold reverses at hs
    split_ifs at hs
    · exact absurd hs List.not_mem_nil
    · obtain ⟨rel, -, rfl⟩ := List.mem_map.mp hs
      rfl
  | @asked m hdst hmsg =>
    have hframe : Searched cfg w.server.pending (w.accepted ++ []) (rest + ([⟨a.dst, cfg.address,
        .info (queryReply (w.repo a.dst).storage m), a.req⟩] : List Envelope)) := by
      refine h.frame (fun id client st hp => Or.inl hp) ?_ ?_
      · intro b hb _ q hq
        rw [List.mem_singleton.mp hb] at hq
        cases hq
      · intro b hb _ i hi y hy
        rw [List.mem_singleton.mp hb] at hi
        cases hi
        have hrow := hrows.sound a.dst hdst _ (Storage.mem_relationsOf.mp hy)
        exact (mentioned_of_neighbours hrow).append
    rwa [List.append_nil] at hframe
  | @updated m hdst hmsg =>
    refine h.frame_writes (fun id entry hp => hp) fun b hb => ?_
    rw [List.mem_singleton.mp hb]
    exact ⟨nofun, nofun⟩
  | @deleted m hdst hmsg hhosts hrel =>
    refine h.frame_writes (fun id entry hp => hp) (stamp_reverses_ne fun s hs => ?_)
    unfold reversesDelete at hs
    split_ifs at hs
    · rw [List.mem_singleton.mp hs]
      rfl
    · exact absurd hs List.not_mem_nil
  | taken hdst =>
    have hframe : Searched cfg w.server.pending w.accepted (rest + ([] : List Envelope)) :=
      h.frame_writes (fun id entry hp => hp) fun b hb => absurd hb List.not_mem_nil
    simpa using hframe

end DGDB
