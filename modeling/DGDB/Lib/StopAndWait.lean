import Mathlib

/-!
# Stop and wait over order-preserving channels

The sender is at item `cur`; the receiver has taken `got` items. A copy of item `i` in transit
carries the label `i + 1`, an acknowledgement the number of items taken when it was sent. Read from
the oldest acknowledgement to the newest copy, the labels never decrease and stay in
`[cur, cur + 1]` (`Window`), whatever the channels lose or repeat in place. This is why one
alternating bit tells the labels apart.
-/

namespace StopAndWait

/-! ## Channels -/

/-- The channel in which the datagram at position `j` has been repeated in place. -/
def repeatAt {α : Type*} (j : ℕ) (l : List α) : List α := l.take (j + 1) ++ l.drop j

theorem map_repeatAt {α β : Type*} (f : α → β) (j : ℕ) (l : List α) :
    (repeatAt j l).map f = repeatAt j (l.map f) := by
  simp [repeatAt, List.map_take, List.map_drop]

theorem mem_of_mem_repeatAt {α : Type*} {j : ℕ} {l : List α} {a : α} (h : a ∈ repeatAt j l) :
    a ∈ l := by
  rcases List.mem_append.mp h with h | h
  · exact List.mem_of_mem_take h
  · exact List.mem_of_mem_drop h

theorem pairwise_repeatAt {l : List ℕ} (h : l.Pairwise (· ≤ ·)) :
    ∀ j, (repeatAt j l).Pairwise (· ≤ ·) := by
  induction l with
  | nil => simp [repeatAt]
  | cons a l ih =>
    obtain ⟨ha, hl⟩ := List.pairwise_cons.mp h
    intro j
    cases j with
    | zero =>
      refine List.pairwise_cons.mpr ⟨fun b hb => ?_, h⟩
      rcases List.mem_cons.mp hb with rfl | hb
      · exact le_rfl
      · exact ha b hb
    | succ j =>
      exact List.pairwise_cons.mpr ⟨fun b hb => ha b (mem_of_mem_repeatAt hb), ih hl j⟩

/-! ## The window -/

/-- The labels in transit, with the receiver's count between acknowledgements and copies. -/
structure Window (cur got : ℕ) (acks sent : List ℕ) : Prop where
  sorted_acks : acks.Pairwise (· ≤ ·)
  sorted_sent : sent.Pairwise (· ≤ ·)
  acks_mem : ∀ a ∈ acks, cur ≤ a ∧ a ≤ got
  sent_mem : ∀ f ∈ sent, got ≤ f ∧ f ≤ cur + 1
  got_mem : cur ≤ got ∧ got ≤ cur + 1

namespace Window

variable {cur got : ℕ} {acks sent : List ℕ}

theorem start : Window 0 0 [] [] := by
  constructor <;> simp

theorem send (h : Window cur got acks sent) : Window cur got acks (sent ++ [cur + 1]) where
  sorted_acks := h.sorted_acks
  sorted_sent := List.pairwise_append.mpr ⟨h.sorted_sent, List.pairwise_singleton _ _,
    fun a ha b hb => by
      rw [List.mem_singleton.mp hb]
      exact (h.sent_mem a ha).2⟩
  acks_mem := h.acks_mem
  sent_mem := by
    intro f hf
    rcases List.mem_append.mp hf with hf | hf
    · exact h.sent_mem f hf
    · rw [List.mem_singleton.mp hf]
      exact ⟨h.got_mem.2, le_rfl⟩
  got_mem := h.got_mem

/-- What reaches the receiver is the item it waits for or the one it took last. -/
theorem label_cases {f : ℕ} (h : Window cur got acks (f :: sent)) : f = got ∨ f = got + 1 := by
  have hf := h.sent_mem f List.mem_cons_self
  have hg := h.got_mem
  omega

/-- The receiver answers a copy with its label, having taken the item if it was new. -/
theorem receive {f : ℕ} (h : Window cur got acks (f :: sent)) :
    Window cur f (acks ++ [f]) sent := by
  obtain ⟨hf, hsent⟩ := List.pairwise_cons.mp h.sorted_sent
  have hfm := h.sent_mem f List.mem_cons_self
  refine ⟨?_, hsent, fun a ha => ?_, fun b hb => ?_, ?_⟩
  · refine List.pairwise_append.mpr
      ⟨h.sorted_acks, List.pairwise_singleton _ _, fun a ha b hb => ?_⟩
    rw [List.mem_singleton.mp hb]
    exact (h.acks_mem a ha).2.trans hfm.1
  · rcases List.mem_append.mp ha with ha | ha
    · exact ⟨(h.acks_mem a ha).1, (h.acks_mem a ha).2.trans hfm.1⟩
    · rw [List.mem_singleton.mp ha]
      exact ⟨h.got_mem.1.trans hfm.1, le_rfl⟩
  · exact ⟨hf b hb, (h.sent_mem b (List.mem_cons_of_mem _ hb)).2⟩
  · exact ⟨h.got_mem.1.trans hfm.1, hfm.2⟩

/-- What reaches the sender acknowledges its current item or the one before. -/
theorem ack_cases {a : ℕ} (h : Window cur got (a :: acks) sent) : a = cur ∨ a = cur + 1 := by
  have ha := h.acks_mem a List.mem_cons_self
  have hg := h.got_mem
  omega

theorem drop_ack {a : ℕ} (h : Window cur got (a :: acks) sent) : Window cur got acks sent where
  sorted_acks := (List.pairwise_cons.mp h.sorted_acks).2
  sorted_sent := h.sorted_sent
  acks_mem := fun b hb => h.acks_mem b (List.mem_cons_of_mem _ hb)
  sent_mem := h.sent_mem
  got_mem := h.got_mem

theorem advance (h : Window cur got ((cur + 1) :: acks) sent) :
    got = cur + 1 ∧ Window (cur + 1) got acks sent := by
  obtain ⟨hle, hacks⟩ := List.pairwise_cons.mp h.sorted_acks
  have hgot : got = cur + 1 :=
    le_antisymm h.got_mem.2 (h.acks_mem (cur + 1) List.mem_cons_self).2
  refine ⟨hgot, hacks, h.sorted_sent, fun a ha => ?_, fun f hf => ?_, ?_⟩
  · exact ⟨hle a ha, (h.acks_mem a (List.mem_cons_of_mem _ ha)).2⟩
  · have := h.sent_mem f hf
    omega
  · omega

theorem lose {acks' sent' : List ℕ} (h : Window cur got acks sent) (ha : acks'.Sublist acks)
    (hs : sent'.Sublist sent) : Window cur got acks' sent' where
  sorted_acks := h.sorted_acks.sublist ha
  sorted_sent := h.sorted_sent.sublist hs
  acks_mem := fun a h' => h.acks_mem a (ha.subset h')
  sent_mem := fun f h' => h.sent_mem f (hs.subset h')
  got_mem := h.got_mem

theorem repeat_acks (h : Window cur got acks sent) (j : ℕ) :
    Window cur got (repeatAt j acks) sent where
  sorted_acks := pairwise_repeatAt h.sorted_acks j
  sorted_sent := h.sorted_sent
  acks_mem := fun a ha => h.acks_mem a (mem_of_mem_repeatAt ha)
  sent_mem := h.sent_mem
  got_mem := h.got_mem

theorem repeat_sent (h : Window cur got acks sent) (j : ℕ) :
    Window cur got acks (repeatAt j sent) where
  sorted_acks := h.sorted_acks
  sorted_sent := pairwise_repeatAt h.sorted_sent j
  acks_mem := h.acks_mem
  sent_mem := fun f hf => h.sent_mem f (mem_of_mem_repeatAt hf)
  got_mem := h.got_mem

end Window

/-! ## The alternating bit -/

/-- The bit of item `i`. -/
def bit (i : ℕ) : Bool := i % 2 == 1

@[simp] theorem bit_zero : bit 0 = false := rfl

@[simp] theorem bit_succ (i : ℕ) : bit (i + 1) = !bit i := by
  unfold bit
  rcases Nat.mod_two_eq_zero_or_one i with h | h <;> simp [Nat.add_mod, h]

end StopAndWait
