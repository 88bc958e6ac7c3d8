import Mathlib
import DGDB.Lib.GraphSearch

/-!
# Breadth-first search along a relation that grows

The rounds of `GraphSearch` when the relation gains pairs while the search goes on. What is found
lies between what is within the depth in the relation the search began with and in the one it ends
with.
-/

namespace GraphSearch

/-- A search along a relation that grows: a vertex taken from the queue had at least the successors
of `lo`, and none but those of `hi`. -/
structure Grown {α : Type*} (lo hi : α → α → Prop) (root : α) (depth : ℕ)
    (done queue : List (α × ℕ))
    (visited : Finset α) : Prop where
  mem_visited : ∀ x, x ∈ visited ↔ x ∈ (done ++ queue).map Prod.fst
  nodup : ((done ++ queue).map Prod.fst).Nodup
  sorted : (done ++ queue).Pairwise fun a b => b.2 ≤ a.2
  spread : ∀ a ∈ queue, ∀ b ∈ queue, a.2 ≤ b.2 + 1
  upper : ∀ a ∈ done ++ queue, a.2 ≤ depth ∧ Walk hi (depth - a.2) root a.1
  lower : ∀ a ∈ done, 0 < a.2 → ∀ y, lo a.1 y → ∃ b ∈ done ++ queue, b.1 = y ∧ a.2 ≤ b.2 + 1
  root_mem : (root, depth) ∈ done ++ queue

namespace Grown

variable {α : Type*} {lo hi hi' : α → α → Prop} {root : α} {depth : ℕ} {done queue : List (α × ℕ)}
  {visited : Finset α}

theorem start [DecidableEq α] (lo hi : α → α → Prop) (root : α) (depth : ℕ) :
    Grown lo hi root depth [] [(root, depth)] {root} where
  mem_visited := by simp
  nodup := by simp
  sorted := by simp
  spread := by simp
  upper := by simpa using Walk.refl root
  lower := by simp
  root_mem := by simp

theorem mono (h : Grown lo hi root depth done queue visited) (hle : ∀ x y, hi x y → hi' x y) :
    Grown lo hi' root depth done queue visited :=
  { h with upper := fun a ha => ⟨(h.upper a ha).1, (h.upper a ha).2.mono hle⟩ }

/-- **One round**, on any list of successors between the two relations. -/
theorem round [DecidableEq α] {u : α} {t : ℕ}
    (h : Grown lo hi root depth done ((u, t) :: queue) visited) (ys : List α)
    (hlo : ∀ y, lo u y → y ∈ ys) (hhi : ∀ y ∈ ys, hi u y) :
    Grown lo hi root depth (done ++ [(u, t)]) (expand t ys queue visited).1
      (expand t ys queue visited).2 := by
  obtain ⟨new, heq, hnd, hmem⟩ := expand_spec t ys queue visited
  rw [heq]
  have hall : done ++ [(u, t)] ++ (queue ++ new.map (·, t - 1)) =
      (done ++ (u, t) :: queue) ++ new.map (·, t - 1) := by simp
  have hfst : (new.map (·, t - 1)).map Prod.fst = new := by simp [Function.comp_def]
  have hnew : ∀ a ∈ new.map (·, t - 1), 0 < t ∧ a.2 = t - 1 ∧ a.1 ∈ ys ∧ a.1 ∉ visited := by
    intro a ha
    obtain ⟨y, hy, rfl⟩ := List.mem_map.mp ha
    obtain ⟨ht, hyy, hv⟩ := (hmem y).mp hy
    exact ⟨ht, rfl, hyy, hv⟩
  have hsorted := List.pairwise_append.mp h.sorted
  have hhead : ∀ a ∈ queue, a.2 ≤ t := fun a ha => List.rel_of_pairwise_cons hsorted.2.1 ha
  have hlow : ∀ b ∈ queue, t ≤ b.2 + 1 := fun b hb =>
    h.spread (u, t) List.mem_cons_self b (List.mem_cons_of_mem _ hb)
  have habove : ∀ a ∈ done, t ≤ a.2 := fun a ha => hsorted.2.2 a ha (u, t) List.mem_cons_self
  have hu := h.upper (u, t) (by simp)
  constructor
  · intro x
    rw [hall, List.map_append, hfst, List.mem_append, Finset.mem_union, List.mem_toFinset,
      h.mem_visited x]
  · rw [hall, List.map_append, hfst]
    refine h.nodup.append hnd fun x hx hxn => ?_
    exact ((hmem x).mp hxn).2.2 ((h.mem_visited x).mpr hx)
  · rw [hall]
    refine List.pairwise_append.mpr ⟨h.sorted, ?_, fun a ha b hb => ?_⟩
    · exact List.pairwise_of_forall_mem_list fun a ha b hb =>
        ((hnew a ha).2.1.trans (hnew b hb).2.1.symm).ge
    · rw [(hnew b hb).2.1]
      rcases List.mem_append.mp ha with hd | hq
      · exact (Nat.sub_le t 1).trans (habove a hd)
      · rcases List.mem_cons.mp hq with rfl | hq
        · exact Nat.sub_le t 1
        · have := hlow a hq
          omega
  · intro a ha b hb
    have hbound : ∀ c ∈ queue ++ new.map (·, t - 1), c.2 ≤ t ∧ t ≤ c.2 + 1 := by
      intro c hc
      rcases List.mem_append.mp hc with hc | hc
      · exact ⟨hhead c hc, hlow c hc⟩
      · have := hnew c hc
        omega
    have h1 := hbound a ha
    have h2 := hbound b hb
    omega
  · intro a ha
    rw [hall] at ha
    rcases List.mem_append.mp ha with ha | ha
    · exact h.upper a ha
    · obtain ⟨ht, hat, hys, -⟩ := hnew a ha
      obtain ⟨hle, hwalk⟩ := hu
      simp only at hle hwalk
      have hstep : depth - a.2 = depth - t + 1 := by omega
      refine ⟨by omega, ?_⟩
      rw [hstep]
      exact Walk.tail hwalk (hhi _ hys)
  · intro a ha hpos y hy
    rw [hall]
    rcases List.mem_append.mp ha with ha | ha
    · obtain ⟨b, hb, hrest⟩ := h.lower a ha hpos y hy
      exact ⟨b, List.mem_append_left _ hb, hrest⟩
    · obtain rfl := List.mem_singleton.mp ha
      by_cases hv : y ∈ visited
      · -- whatever has been visited has at most one depth less left than the head
        obtain ⟨b, hb, rfl⟩ := List.mem_map.mp ((h.mem_visited y).mp hv)
        refine ⟨b, List.mem_append_left _ hb, rfl, ?_⟩
        rcases List.mem_append.mp hb with hb | hb
        · exact (habove b hb).trans (Nat.le_succ _)
        · exact h.spread (u, t) List.mem_cons_self b hb
      · refine ⟨(y, t - 1), List.mem_append_right _ (List.mem_map.mpr ⟨y, ?_, rfl⟩), rfl, ?_⟩
        · exact (hmem y).mpr ⟨hpos, hlo y hy, hv⟩
        · simp only
          omega
  · rw [hall]
    exact List.mem_append_left _ h.root_mem

/-- The end of a walk of `lo` is found with at least the depth left that the walk leaves. -/
theorem found_of_walk (h : Grown lo hi root depth done [] visited) {k : ℕ} {x : α}
    (hw : Walk lo k root x) (hk : k ≤ depth) : ∃ a ∈ done, a.1 = x ∧ depth - k ≤ a.2 := by
  generalize hroot : root = r at hw
  induction hw with
  | refl =>
    subst hroot
    exact ⟨(root, depth), by simpa using h.root_mem, rfl, Nat.sub_le _ _⟩
  | @tail n x y z hxy hyz ih =>
    subst hroot
    obtain ⟨a, ha, rfl, hle⟩ := ih (by omega) rfl
    obtain ⟨b, hb, rfl, hb2⟩ := h.lower a ha (by omega) z hyz
    exact ⟨b, by simpa using hb, rfl, by omega⟩

/-- **The result.** A search along a growing relation finds what is within its depth at first, and
nothing but what is within its depth at last. -/
theorem between (h : Grown lo hi root depth done [] visited) (x : α) :
    (Within lo depth root x → x ∈ done.map Prod.fst) ∧
      (x ∈ done.map Prod.fst → Within hi depth root x) := by
  constructor
  · rintro ⟨k, hk, hw⟩
    obtain ⟨a, ha, rfl, -⟩ := h.found_of_walk hw hk
    exact List.mem_map_of_mem ha
  · intro hx
    obtain ⟨a, ha, rfl⟩ := List.mem_map.mp hx
    exact ⟨depth - a.2, Nat.sub_le _ _, (h.upper a (by simpa using ha)).2⟩

theorem dist_between (h : Grown lo hi root depth done [] visited) {a : α × ℕ} (ha : a ∈ done) :
    Walk hi (depth - a.2) root a.1 ∧ ∀ k ≤ depth, Walk lo k root a.1 → depth - a.2 ≤ k := by
  refine ⟨(h.upper a (by simpa using ha)).2, fun k hk hw => ?_⟩
  obtain ⟨b, hb, hab, hle⟩ := h.found_of_walk hw hk
  have hnodup : (done.map Prod.fst).Nodup := by simpa using h.nodup
  obtain rfl := List.inj_on_of_nodup_map hnodup ha hb hab.symm
  omega

end Grown

end GraphSearch
