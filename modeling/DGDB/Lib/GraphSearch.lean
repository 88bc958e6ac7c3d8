import Mathlib

/-!
# Breadth-first search with a remaining depth

A search keeps a queue of vertices with the depth that is left for them and the set of the
vertices ever queued. One round takes the head of the queue and queues its unvisited successors.
`Search` is what every round preserves (`Search.round`), whatever list of successors the round is
given; `Search.mem_iff_within` reads off the result when the queue is empty.
-/

namespace GraphSearch

variable {α : Type*}

/-! ## Walks and distances -/

/-- A walk of `n` steps of `R`. -/
inductive Walk (R : α → α → Prop) : ℕ → α → α → Prop
  | refl (x : α) : Walk R 0 x x
  | tail {n : ℕ} {x y z : α} : Walk R n x y → R y z → Walk R (n + 1) x z

/-- `y` is at most `n` steps away from `x`. -/
def Within (R : α → α → Prop) (n : ℕ) (x y : α) : Prop := ∃ k ≤ n, Walk R k x y

/-- `d` is the length of a shortest walk from `x` to `y`. -/
def IsDist (R : α → α → Prop) (x y : α) (d : ℕ) : Prop :=
  Walk R d x y ∧ ∀ k, Walk R k x y → d ≤ k

theorem isDist_self (R : α → α → Prop) (x : α) : IsDist R x x 0 :=
  ⟨Walk.refl x, fun k _ => Nat.zero_le k⟩

theorem Walk.mono {R S : α → α → Prop} (hle : ∀ x y, R x y → S x y) {n : ℕ} {x y : α}
    (h : Walk R n x y) : Walk S n x y := by
  induction h with
  | refl x => exact Walk.refl x
  | tail _ hyz ih => exact Walk.tail ih (hle _ _ hyz)

theorem Within.mono {R S : α → α → Prop} (hle : ∀ x y, R x y → S x y) {n : ℕ} {x y : α}
    (h : Within R n x y) : Within S n x y :=
  h.imp fun _ hk => ⟨hk.1, hk.2.mono hle⟩

/-- The vertices a walk of at most `n` steps can reach along the successor lists `rel`. -/
def ball (rel : α → List α) : ℕ → α → List α
  | 0, x => [x]
  | n + 1, x => ball rel n x ++ (ball rel n x).flatMap rel

theorem mem_ball_of_walk {rel : α → List α} {n : ℕ} {x y : α}
    (h : Walk (fun u v => v ∈ rel u) n x y) : y ∈ ball rel n x := by
  induction h with
  | refl x => exact List.mem_singleton_self x
  | tail _ hyz ih => exact List.mem_append_right _ (List.mem_flatMap.mpr ⟨_, ih, hyz⟩)

theorem ball_subset {rel : α → List α} {m n : ℕ} (h : m ≤ n) (x : α) :
    ball rel m x ⊆ ball rel n x := by
  induction h with
  | refl => exact List.Subset.refl _
  | step _ ih => exact fun y hy => List.mem_append_left _ (ih hy)

theorem mem_ball_of_within {rel : α → List α} {n : ℕ} {x y : α}
    (h : Within (fun u v => v ∈ rel u) n x y) : y ∈ ball rel n x := by
  obtain ⟨k, hk, hw⟩ := h
  exact ball_subset hk x (mem_ball_of_walk hw)

/-! ## One round -/

section Expand

variable [DecidableEq α]

/-- Queue the unvisited members of `ys`, one depth below `r`; none when no depth is left. -/
def expand (r : ℕ) : List α → List (α × ℕ) → Finset α → List (α × ℕ) × Finset α
  | [], queue, visited => (queue, visited)
  | y :: ys, queue, visited =>
    if y ∈ visited then expand r ys queue visited
    else if 0 < r then expand r ys (queue ++ [(y, r - 1)]) (insert y visited)
    else expand r ys queue visited

theorem expand_spec (r : ℕ) (ys : List α) (queue : List (α × ℕ)) (visited : Finset α) :
    ∃ new : List α,
      expand r ys queue visited = (queue ++ new.map (·, r - 1), visited ∪ new.toFinset) ∧
        new.Nodup ∧ ∀ y, y ∈ new ↔ 0 < r ∧ y ∈ ys ∧ y ∉ visited := by
  induction ys generalizing queue visited with
  | nil => exact ⟨[], by simp [expand], List.nodup_nil, by simp⟩
  | cons y ys ih =>
    by_cases hy : y ∈ visited
    · obtain ⟨new, heq, hnd, hmem⟩ := ih queue visited
      refine ⟨new, by rw [expand, if_pos hy, heq], hnd, fun z => ?_⟩
      rw [hmem z, List.mem_cons]
      constructor
      · rintro ⟨hr, hz, hv⟩
        exact ⟨hr, Or.inr hz, hv⟩
      · rintro ⟨hr, rfl | hz, hv⟩
        · exact absurd hy hv
        · exact ⟨hr, hz, hv⟩
    by_cases hr : 0 < r
    · obtain ⟨new, heq, hnd, hmem⟩ := ih (queue ++ [(y, r - 1)]) (insert y visited)
      refine ⟨y :: new, ?_, ?_, fun z => ?_⟩
      · rw [expand, if_neg hy, if_pos hr, heq]
        simp [Finset.insert_union, Finset.union_insert]
      · refine List.nodup_cons.mpr ⟨fun h => ?_, hnd⟩
        exact ((hmem y).mp h).2.2 (Finset.mem_insert_self y visited)
      · rw [List.mem_cons, hmem z, List.mem_cons, Finset.mem_insert]
        by_cases hzy : z = y
        · subst hzy
          simp [hr, hy]
        · simp [hzy]
    · obtain ⟨new, heq, hnd, hmem⟩ := ih queue visited
      refine ⟨new, by rw [expand, if_neg hy, if_neg hr, heq], hnd, fun z => ?_⟩
      rw [hmem z]
      simp [hr]

/-- What a round queues it takes from the unvisited members of `names`: the two together change by
the vertex at the head alone. -/
theorem card_expand {r : ℕ} {ys : List α} {queue : List (α × ℕ)} {visited names : Finset α}
    (h : ∀ y ∈ ys, y ∈ names) :
    (names \ (expand r ys queue visited).2).card + (expand r ys queue visited).1.length =
      (names \ visited).card + queue.length := by
  obtain ⟨new, heq, hnd, hmem⟩ := expand_spec r ys queue visited
  have hsub : new.toFinset ⊆ names \ visited := by
    intro y hy
    obtain ⟨-, hys, hv⟩ := (hmem y).mp (List.mem_toFinset.mp hy)
    exact Finset.mem_sdiff.mpr ⟨h y hys, hv⟩
  have hrest : names \ (visited ∪ new.toFinset) = (names \ visited) \ new.toFinset :=
    sdiff_sdiff_left.symm
  have hcard := Finset.card_sdiff_add_card_eq_card hsub
  rw [List.toFinset_card_of_nodup hnd] at hcard
  rw [heq, hrest, List.length_append, List.length_map]
  omega

end Expand

/-- The vertices that the next `n` rounds take from the queue. -/
def order [DecidableEq α] (rel : α → List α) :
    ℕ → List (α × ℕ) → Finset α → List (α × ℕ)
  | 0, _, _ => []
  | _ + 1, [], _ => []
  | n + 1, (u, t) :: queue, visited =>
    (u, t) :: order rel n (expand t (rel u) queue visited).1 (expand t (rel u) queue visited).2

/-! ## The invariant -/

/-- The state of a search from `root`: the vertices done, those in the queue, each with the depth
left for it, and the visited ones. -/
structure Search (R : α → α → Prop) (root : α) (depth : ℕ) (done queue : List (α × ℕ))
    (visited : Finset α) : Prop where
  mem_visited : ∀ x, x ∈ visited ↔ x ∈ (done ++ queue).map Prod.fst
  nodup : ((done ++ queue).map Prod.fst).Nodup
  sorted : (done ++ queue).Pairwise fun a b => b.2 ≤ a.2
  spread : ∀ a ∈ queue, ∀ b ∈ queue, a.2 ≤ b.2 + 1
  dist : ∀ a ∈ done ++ queue, a.2 ≤ depth ∧ IsDist R root a.1 (depth - a.2)
  closed : ∀ a ∈ done, 0 < a.2 → ∀ y, R a.1 y → y ∈ visited
  root_mem : root ∈ visited

namespace Search

variable {R : α → α → Prop} {root : α} {depth : ℕ} {done queue : List (α × ℕ)}
  {visited : Finset α}

theorem start [DecidableEq α] (R : α → α → Prop) (root : α) (depth : ℕ) :
    Search R root depth [] [(root, depth)] {root} where
  mem_visited := by simp
  nodup := by simp
  sorted := by simp
  spread := by simp
  dist := by
    intro a ha
    rw [List.nil_append, List.mem_singleton] at ha
    subst ha
    exact ⟨le_rfl, by rw [Nat.sub_self]; exact isDist_self R root⟩
  closed := by simp
  root_mem := Finset.mem_singleton_self root

/-- A vertex on a walk too short for the depth left at the head of the queue is visited. -/
theorem mem_visited_of_walk {t : ℕ} (h : Search R root depth done queue visited)
    (ht : ∀ a ∈ queue, a.2 ≤ t) {k : ℕ} {x : α} (hw : Walk R k root x) (hk : k + t ≤ depth) :
    x ∈ visited := by
  -- along the walk: the vertex before has more depth left than the queue offers, so it is done
  generalize hroot : root = r at hw
  induction hw with
  | refl => exact hroot ▸ h.root_mem
  | @tail n x y z hxy hyz ih =>
    subst hroot
    have hy := ih (by omega) rfl
    obtain ⟨a, ha, rfl⟩ := List.mem_map.mp ((h.mem_visited y).mp hy)
    obtain ⟨hle, hd⟩ := h.dist a ha
    have hn : depth - a.2 ≤ n := hd.2 n hxy
    rcases List.mem_append.mp ha with hdone | hq
    · exact h.closed a hdone (by omega) z hyz
    · have := ht a hq
      omega

/-- **One round.** Taking the head of the queue and queueing its unvisited successors keeps the
search correct. -/
theorem round [DecidableEq α] {u : α} {t : ℕ}
    (h : Search R root depth done ((u, t) :: queue) visited) (ys : List α)
    (hys : ∀ y, y ∈ ys ↔ R u y) :
    Search R root depth (done ++ [(u, t)]) (expand t ys queue visited).1
      (expand t ys queue visited).2 := by
  obtain ⟨new, heq, hnd, hmem⟩ := expand_spec t ys queue visited
  rw [heq]
  have hall : done ++ [(u, t)] ++ (queue ++ new.map (·, t - 1)) =
      (done ++ (u, t) :: queue) ++ new.map (·, t - 1) := by simp
  have hfst : (new.map (·, t - 1)).map Prod.fst = new := by simp [Function.comp_def]
  have hhead : ∀ a ∈ (u, t) :: queue, a.2 ≤ t := by
    have hs := (List.pairwise_append.mp h.sorted).2.1
    intro a ha
    rcases List.mem_cons.mp ha with rfl | ha
    · exact le_rfl
    · exact List.rel_of_pairwise_cons hs ha
  have hnew : ∀ a ∈ new.map (·, t - 1), 0 < t ∧ a.2 = t - 1 ∧ R u a.1 ∧ a.1 ∉ visited := by
    intro a ha
    obtain ⟨y, hy, rfl⟩ := List.mem_map.mp ha
    obtain ⟨ht, hyy, hv⟩ := (hmem y).mp hy
    exact ⟨ht, rfl, (hys y).mp hyy, hv⟩
  have hu := h.dist (u, t) (by simp)
  have hlow : ∀ b ∈ queue, t ≤ b.2 + 1 := fun b hb =>
    h.spread (u, t) List.mem_cons_self b (List.mem_cons_of_mem _ hb)
  refine ⟨fun x => ?_, ?_, ?_, ?_, ?_, ?_, ?_⟩
  · rw [hall, List.map_append, hfst, List.mem_append, Finset.mem_union, List.mem_toFinset,
      h.mem_visited x]
  · rw [hall, List.map_append, hfst]
    refine h.nodup.append hnd fun x hx hxn => ?_
    exact ((hmem x).mp hxn).2.2 ((h.mem_visited x).mpr hx)
  · rw [hall]
    refine List.pairwise_append.mpr ⟨h.sorted, ?_, fun a ha b hb => ?_⟩
    · exact List.pairwise_of_forall_mem_list fun a ha b hb =>
        ((hnew a ha).2.1.trans (hnew b hb).2.1.symm).ge
    · rw [(hnew b hb).2.1]
      rcases List.mem_append.mp ha with hd | hq
      · have := (List.pairwise_append.mp h.sorted).2.2 a hd (u, t) List.mem_cons_self
        simp only at this
        omega
      · rcases List.mem_cons.mp hq with rfl | hq
        · exact Nat.sub_le t 1
        · have := hlow a hq
          omega
  · intro a ha b hb
    have hbound : ∀ c ∈ queue ++ new.map (·, t - 1), c.2 ≤ t ∧ t ≤ c.2 + 1 := by
      intro c hc
      rcases List.mem_append.mp hc with hc | hc
      · exact ⟨hhead c (List.mem_cons_of_mem _ hc), hlow c hc⟩
      · have := hnew c hc
        omega
    have h1 := hbound a ha
    have h2 := hbound b hb
    omega
  · intro a ha
    rw [hall] at ha
    rcases List.mem_append.mp ha with ha | ha
    · exact h.dist a ha
    · obtain ⟨ht, hat, hR, hv⟩ := hnew a ha
      obtain ⟨hle, hd⟩ := hu
      simp only at hle hd
      have hstep : depth - a.2 = depth - t + 1 := by omega
      refine ⟨by omega, ?_, fun k hk => ?_⟩
      · rw [hstep]
        exact Walk.tail hd.1 hR
      · by_contra hlt
        exact hv (h.mem_visited_of_walk hhead hk (by omega))
  · intro a ha hpos y hy
    rw [Finset.mem_union, List.mem_toFinset]
    rcases List.mem_append.mp ha with ha | ha
    · exact Or.inl (h.closed a ha hpos y hy)
    · rw [List.mem_singleton] at ha
      subst ha
      by_cases hv : y ∈ visited
      · exact Or.inl hv
      · exact Or.inr ((hmem y).mpr ⟨hpos, (hys y).mpr hy, hv⟩)
  · exact Finset.mem_union_left _ h.root_mem

/-- **The result.** With the queue empty, the vertices done are those within `depth`. -/
theorem mem_iff_within (h : Search R root depth done [] visited) (x : α) :
    x ∈ done.map Prod.fst ↔ Within R depth root x := by
  constructor
  · intro hx
    obtain ⟨a, ha, rfl⟩ := List.mem_map.mp hx
    obtain ⟨_, hd⟩ := h.dist a (by simpa using ha)
    exact ⟨depth - a.2, Nat.sub_le _ _, hd.1⟩
  · rintro ⟨k, hk, hw⟩
    have hv : x ∈ visited := h.mem_visited_of_walk (t := 0) (by simp) hw (by simpa using hk)
    simpa using (h.mem_visited x).mp hv

theorem within (h : Search R root depth done queue visited) {a : α × ℕ}
    (ha : a ∈ done ++ queue) : Within R depth root a.1 :=
  ⟨depth - a.2, Nat.sub_le _ _, (h.dist a ha).2.1⟩

/-- A search along finite successor lists is no longer than the ball around its root. -/
theorem length_le_ball [DecidableEq α] {rel : α → List α}
    (h : Search (fun u v => v ∈ rel u) root depth done queue visited) :
    done.length + queue.length ≤ (ball rel depth root).length := by
  have hsub : (done ++ queue).map Prod.fst ⊆ ball rel depth root := by
    intro x hx
    obtain ⟨a, ha, rfl⟩ := List.mem_map.mp hx
    exact mem_ball_of_within (h.within ha)
  have hle := (List.subperm_of_subset h.nodup hsub).length_le
  simpa using hle

/-- **Termination.** As many rounds as the ball has members empty the queue. -/
theorem finish [DecidableEq α] {rel : α → List α} {n : ℕ}
    (h : Search (fun u v => v ∈ rel u) root depth done queue visited)
    (hn : (ball rel depth root).length ≤ done.length + n) :
    ∃ visited', Search (fun u v => v ∈ rel u) root depth (done ++ order rel n queue visited) []
      visited' := by
  induction n generalizing done queue visited with
  | zero =>
    have hlen := h.length_le_ball
    have hq : queue = [] := List.length_eq_zero_iff.mp (by omega)
    subst hq
    exact ⟨visited, by simpa [order] using h⟩
  | succ n ih =>
    cases queue with
    | nil => exact ⟨visited, by simpa [order] using h⟩
    | cons a queue =>
      obtain ⟨u, t⟩ := a
      have hround := h.round (rel u) fun y => Iff.rfl
      obtain ⟨visited', h'⟩ := ih hround (by
        rw [List.length_append, List.length_singleton]
        omega)
      exact ⟨visited', by simpa [order] using h'⟩

end Search

end GraphSearch
