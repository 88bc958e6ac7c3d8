import Mathlib
import DGDB.Rdt.ExactlyOnce

/-!
# Successive strings over a perfect channel

When nothing is lost or repeated, what the calls of `RecvFrom` return is a function of the packets
alone (`feed`), and the end of a string is seen only by a last packet of less than ten bytes.
-/

namespace DGDB.Rdt

open EventSystem StopAndWait

/-! ## The receiver of a sequence of packets -/

/-- The variables of the running call and the strings returned so far, after one more packet. -/
def feed (r : Receiving × List Return) (p : Packet) : Receiving × List Return :=
  let out := r.1.accept ⟨[], 0⟩ p
  if out.2.2 then (Receiving.start, r.2 ++ [⟨out.1.data, false⟩]) else (out.1, r.2)

/-- The strings that are not empty, the one of the running call last. -/
def nonempty (r : Receiving × List Return) : List Str :=
  (r.2.map Return.data ++ [r.1.data]).filter (· ≠ [])

/-- The last packet of the string has less than ten bytes. -/
def Short (data : Str) : Prop :=
  1 ≤ data.length % kMaxPacketLength ∧ data.length % kMaxPacketLength ≤ 9

instance : DecidablePred Short := fun _ => inferInstanceAs (Decidable (_ ∧ _))

section Feed

variable {data : Str} {k : ℕ}

theorem makePackets_eq (data : Str) :
    makePackets data = (List.range (chunkCount data)).map (packet data) := by
  apply List.ext_getElem?
  intro k
  rw [List.getElem?_map]
  by_cases h : k < chunkCount data
  · rw [getElem?_makePackets h, List.getElem?_range h]
    rfl
  · rw [getElem?_makePackets_none (not_lt.mp h), List.getElem?_eq_none (by simpa using h)]
    rfl

theorem short_iff (h : k + 1 = chunkCount data) : (chunk data k).length < 10 ↔ Short data := by
  rw [length_chunk]
  unfold Short
  unfold chunkCount kMaxPacketLength at *
  omega

theorem feed_packet (r : Receiving × List Return) (data : Str) (k : ℕ) :
    feed r (packet data k) = if (chunk data k).length < 10
      then (Receiving.start, r.2 ++ [⟨(r.1.accept ⟨[], 0⟩ (packet data k)).1.data, false⟩])
      else ((r.1.accept ⟨[], 0⟩ (packet data k)).1, r.2) := by
  have hack := Receiving.accept_ack r.1 ⟨[], 0⟩ data k
  unfold feed
  simp only [hack, decide_eq_true_eq]

theorem feed_prefix (ret : List Return) (h : k < chunkCount data) :
    ∃ from_addr, ((List.range k).map (packet data)).foldl feed (Receiving.start, ret) =
      (⟨data.take (kMaxPacketLength * k), bit k, from_addr⟩, ret) := by
  induction k with
  | zero => exact ⟨none, rfl⟩
  | succ k ih =>
    obtain ⟨from_addr, hfold⟩ := ih (by omega)
    refine ⟨some (from_addr.getD ⟨[], 0⟩), ?_⟩
    have hlong : ¬ (chunk data k).length < 10 := by
      rw [length_chunk_of_lt h]
      decide
    rw [List.range_succ, List.map_append, List.foldl_append, hfold, List.map_cons, List.map_nil,
      List.foldl_cons, List.foldl_nil, feed_packet, if_neg hlong, Receiving.accept_new _ rfl,
      take_chunk]

theorem feed_string (ret : List Return) (hne : data ≠ []) :
    (Short data → (makePackets data).foldl feed (Receiving.start, ret) =
        (Receiving.start, ret ++ [⟨data, false⟩])) ∧
      (¬ Short data → ((makePackets data).foldl feed (Receiving.start, ret)).1.data = data ∧
        ((makePackets data).foldl feed (Receiving.start, ret)).2 = ret) := by
  obtain ⟨k, hk⟩ : ∃ k, k + 1 = chunkCount data :=
    ⟨_, Nat.sub_add_cancel (chunkCount_pos hne)⟩
  obtain ⟨from_addr, hfold⟩ := feed_prefix ret (show k < chunkCount data by omega)
  have hwhole := take_chunkCount hk.ge
  rw [makePackets_eq, ← hk, List.range_succ, List.map_append, List.foldl_append, hfold,
    List.map_cons, List.map_nil, List.foldl_cons, List.foldl_nil, feed_packet,
    Receiving.accept_new _ rfl, take_chunk, hwhole]
  refine ⟨fun hshort => ?_, fun hlong => ?_⟩
  · rw [if_pos ((short_iff hk).mpr hshort)]
  · rw [if_neg fun h => hlong ((short_iff hk).mp h)]
    exact ⟨rfl, rfl⟩

/-- Whatever the call has received, a string makes at most one call return: its last packet does, if
it is short. -/
theorem length_feed_string (r : Receiving × List Return) (hne : data ≠ []) :
    ((makePackets data).foldl feed r).2.length = r.2.length + (if Short data then 1 else 0) ∧
      (Short data → ((makePackets data).foldl feed r).1 = Receiving.start) := by
  have hprefix : ∀ k, k < chunkCount data →
      (((List.range k).map (packet data)).foldl feed r).2 = r.2 := by
    intro k hk
    induction k with
    | zero => rfl
    | succ k ih =>
      have hlong : ¬ (chunk data k).length < 10 := by
        rw [length_chunk_of_lt hk]
        decide
      rw [List.range_succ, List.map_append, List.foldl_append, List.map_cons, List.map_nil,
        List.foldl_cons, List.foldl_nil, feed_packet, if_neg hlong]
      exact ih (by omega)
  obtain ⟨k, hk⟩ : ∃ k, k + 1 = chunkCount data :=
    ⟨_, Nat.sub_add_cancel (chunkCount_pos hne)⟩
  rw [makePackets_eq, ← hk, List.range_succ, List.map_append, List.foldl_append, List.map_cons,
    List.map_nil, List.foldl_cons, List.foldl_nil, feed_packet, hprefix k (by omega)]
  by_cases hshort : Short data
  · rw [if_pos ((short_iff hk).mpr hshort), if_pos hshort]
    exact ⟨by simp, fun _ => rfl⟩
  · rw [if_neg fun h => hshort ((short_iff hk).mp h), if_neg hshort]
    exact ⟨rfl, fun h => absurd h hshort⟩

variable {messages : List Str}

theorem feed_short (hne : ∀ m ∈ messages, m ≠ []) (hshort : ∀ m ∈ messages, Short m) :
    (messages.flatMap makePackets).foldl feed (Receiving.start, []) =
      (Receiving.start, messages.map fun m => ⟨m, false⟩) := by
  induction messages using List.reverseRecOn with
  | nil => rfl
  | append_singleton messages m ih =>
    rw [List.flatMap_append, List.foldl_append,
      ih (fun x hx => hne x (List.mem_append_left _ hx))
        fun x hx => hshort x (List.mem_append_left _ hx)]
    have hm : m ∈ messages ++ [m] := List.mem_append_right _ (List.mem_singleton_self m)
    rw [List.flatMap_singleton, (feed_string _ (hne m hm)).1 (hshort m hm), List.map_append]
    rfl

theorem length_feed (hne : ∀ m ∈ messages, m ≠ []) (r : Receiving × List Return) :
    ((messages.flatMap makePackets).foldl feed r).2.length =
      r.2.length + messages.countP fun m => decide (Short m) := by
  induction messages generalizing r with
  | nil => simp
  | cons m messages ih =>
    rw [List.flatMap_cons, List.foldl_append, ih fun x hx => hne x (List.mem_cons_of_mem _ hx),
      (length_feed_string r (hne m List.mem_cons_self)).1, List.countP_cons]
    simp only [decide_eq_true_eq]
    omega

/-- **Framing, for the packets alone.** -/
theorem nonempty_feed_iff (hne : ∀ m ∈ messages, m ≠ []) :
    nonempty ((messages.flatMap makePackets).foldl feed (Receiving.start, [])) = messages ↔
      ∀ m ∈ messages.dropLast, Short m := by
  rcases List.eq_nil_or_concat messages with rfl | ⟨init, last, rfl⟩
  · exact ⟨fun _ m hm => (by cases hm), fun _ => rfl⟩
  rw [List.concat_eq_append] at hne ⊢
  have hinit : ∀ m ∈ init, m ≠ [] := fun m hm => hne m (List.mem_append_left _ hm)
  have hlast : last ≠ [] := hne last (List.mem_append_right _ (List.mem_singleton_self last))
  rw [List.dropLast_concat, List.flatMap_append, List.foldl_append, List.flatMap_singleton]
  constructor
  · intro heq
    have hlen := congrArg List.length heq
    obtain ⟨hreturned, hstart⟩ := length_feed_string
      ((init.flatMap makePackets).foldl feed (Receiving.start, [])) hlast
    rw [length_feed hinit] at hreturned
    set r := (makePackets last).foldl feed
      ((init.flatMap makePackets).foldl feed (Receiving.start, [])) with hr
    -- one string more than the calls that have returned, unless the last string was short
    have hle : (nonempty r).length ≤ (init.countP fun m => decide (Short m)) + 1 := by
      unfold nonempty
      rw [List.filter_append, List.length_append]
      by_cases hshort : Short last
      · rw [hstart hshort]
        rw [if_pos hshort] at hreturned
        refine (Nat.add_le_add_right (List.length_filter_le _ _) _).trans ?_
        rw [List.length_map, hreturned]
        simp [Receiving.start]
      · rw [if_neg hshort] at hreturned
        refine Nat.add_le_add ((List.length_filter_le _ _).trans ?_) (List.length_filter_le _ _)
        rw [List.length_map, hreturned]
        simp
    rw [hlen, List.length_append, List.length_singleton] at hle
    have hcount : (init.countP fun m => decide (Short m)) = init.length :=
      le_antisymm List.countP_le_length (by omega)
    intro m hm
    exact of_decide_eq_true (List.countP_eq_length.mp hcount m hm)
  · intro hshort
    have hfilter : ∀ l : List Str, (∀ m ∈ l, m ≠ []) → l.filter (· ≠ []) = l := by
      intro l hl
      apply List.filter_eq_self.mpr
      simpa using hl
    rw [feed_short hinit hshort]
    obtain ⟨hyes, hno⟩ := feed_string (init.map fun m => (⟨m, false⟩ : Return)) hlast
    have hmap : (init.map fun m => (⟨m, false⟩ : Return)).map Return.data = init := by
      simp [Function.comp_def]
    unfold nonempty
    by_cases hs : Short last
    · rw [hyes hs, List.map_append, hmap]
      show ((init ++ [last]) ++ [[]]).filter (· ≠ []) = _
      rw [List.filter_append, hfilter _ hne]
      simp
    · obtain ⟨hdata, hret⟩ := hno hs
      rw [hdata, hret, hmap, hfilter _ hne]

end Feed

/-! ## A perfect channel -/

/-- Nothing is lost or repeated, and no timeout comes early: that of `SendTo` only when nothing is
in transit, that of `RecvFrom` only when nothing is in transit to it and there is nothing left to
send. -/
def Link.Perfect (q : Link) : Link.Event → Prop
  | .losePacket _ | .loseAck _ | .repeatPacket _ | .repeatAck _ => False
  | .resend => q.packets = [] ∧ q.acks = []
  | .giveUp => q.packets = [] ∧ q.messages = [] ∧ q.sending.current = none
  | _ => True

instance (q : Link) : DecidablePred q.Perfect
  | .losePacket _ | .loseAck _ | .repeatPacket _ | .repeatAck _ => inferInstanceAs (Decidable False)
  | .resend => inferInstanceAs (Decidable (_ ∧ _))
  | .giveUp => inferInstanceAs (Decidable (_ ∧ _ ∧ _))
  | .call | .send | .ack | .packet => inferInstanceAs (Decidable True)

/-- The packets that have not been acknowledged. -/
def Link.remaining (q : Link) : List Packet :=
  (makePackets q.sending.data).drop q.sending.index ++ q.messages.flatMap makePackets

/-- Where the packet that `SendTo` is at can be: not sent, in transit, or acknowledged. -/
inductive Phase (q : Link) (rest : List Packet) : Prop
  | idle (hwaiting : q.sending.waiting = false) (hpackets : q.packets = []) (hacks : q.acks = [])
      (hrest : q.remaining = rest)
  | sent (hwaiting : q.sending.waiting = true) (hlt : q.sending.index < chunkCount q.sending.data)
      (hpackets : q.packets = [(packet q.sending.data q.sending.index).toText])
      (hacks : q.acks = []) (hrest : q.remaining = rest)
  | acked (hwaiting : q.sending.waiting = true)
      (hlt : q.sending.index < chunkCount q.sending.data) (hpackets : q.packets = [])
      (hacks : q.acks = [AckPacket.toText ⟨0, 0, bit q.sending.index⟩])
      (hrest : q.remaining = packet q.sending.data q.sending.index :: rest)

/-- The receiver has taken the packets `arrived`, and `rest` is still to come. -/
structure Streaming (messages : List Str) (q : Link) (arrived rest : List Packet) : Prop where
  received : (q.receiving, q.returned) = arrived.foldl feed (Receiving.start, [])
  all : arrived ++ rest = messages.flatMap makePackets
  alternate_bit : q.sending.alternate_bit = bit q.sending.index
  index_le : q.sending.index ≤ chunkCount q.sending.data
  clean : Clean q.sending.data
  clean_messages : ∀ m ∈ q.messages, Clean m
  phase : Phase q rest

/-- A perfect run: under way, or ended with timeouts of `RecvFrom`. -/
def Framed (messages : List Str) (q : Link) : Prop :=
  (∃ arrived rest, Streaming messages q arrived rest) ∨
    q.Quiescent ∧ q.sending.waiting = false ∧ q.delivered =
      nonempty ((messages.flatMap makePackets).foldl feed (Receiving.start, []))

section Perfect

variable {messages : List Str} {q q' : Link} {arrived rest : List Packet} {e : Link.Event}

theorem remaining_of_none (h : q.sending.current = none) :
    q.remaining = q.messages.flatMap makePackets := by
  have hlen : (makePackets q.sending.data).length ≤ q.sending.index := by
    rw [length_makePackets]
    exact Sending.le_of_current h
  rw [Link.remaining, List.drop_eq_nil_of_le hlen, List.nil_append]

theorem Streaming.start (hclean : ∀ m ∈ messages, Clean m) :
    Streaming messages (Link.start [] messages) [] (messages.flatMap makePackets) where
  received := rfl
  all := rfl
  alternate_bit := rfl
  index_le := Nat.zero_le _
  clean := ⟨List.not_mem_nil, List.not_mem_nil⟩
  clean_messages := hclean
  phase := Phase.idle rfl rfl rfl
    (remaining_of_none (getElem?_makePackets_none (show chunkCount [] ≤ 0 by decide)))

namespace Streaming

theorem ended (h : Streaming messages q arrived rest) (hmessages : q.messages = [])
    (hcurrent : q.sending.current = none) : q.sending.waiting = false ∧ q.packets = [] ∧
      q.acks = [] ∧ arrived = messages.flatMap makePackets := by
  cases h.phase with
  | idle hwaiting hpackets hacks hrest =>
    rw [remaining_of_none hcurrent, hmessages] at hrest
    refine ⟨hwaiting, hpackets, hacks, ?_⟩
    rw [← h.all, ← hrest]
    simp
  | sent _ hlt => rw [Sending.current_of_lt hlt] at hcurrent; cases hcurrent
  | acked _ hlt => rw [Sending.current_of_lt hlt] at hcurrent; cases hcurrent

theorem call (h : Streaming messages q arrived rest) (hstep : q.step true .call = some q') :
    Streaming messages q' arrived rest := by
  obtain ⟨hcurrent, m, later, hmessages, rfl⟩ := Link.step_call hstep
  refine ⟨h.received, h.all, rfl, Nat.zero_le _, ?_, fun x hx => ?_, ?_⟩
  · exact h.clean_messages m (by simp [hmessages])
  · exact h.clean_messages x (by rw [hmessages]; exact List.mem_cons_of_mem _ hx)
  · cases h.phase with
    | idle hwaiting hpackets hacks hrest =>
      refine Phase.idle rfl hpackets hacks ?_
      rw [remaining_of_none hcurrent, hmessages] at hrest
      rw [← hrest]
      rfl
    | sent _ hlt => rw [Sending.current_of_lt hlt] at hcurrent; cases hcurrent
    | acked _ hlt => rw [Sending.current_of_lt hlt] at hcurrent; cases hcurrent

theorem send (h : Streaming messages q arrived rest) (hstep : q.step true .send = some q') :
    Streaming messages q' arrived rest := by
  obtain ⟨hwaiting, p, hp, rfl⟩ := Link.step_send hstep
  obtain ⟨hlt, rfl⟩ := Sending.of_current hp
  refine ⟨h.received, h.all, h.alternate_bit, h.index_le, h.clean, h.clean_messages, ?_⟩
  cases h.phase with
  | idle _ hpackets hacks hrest => exact Phase.sent rfl hlt (by rw [hpackets]; rfl) hacks hrest
  | sent hwaiting' => rw [hwaiting] at hwaiting'; cases hwaiting'
  | acked hwaiting' => rw [hwaiting] at hwaiting'; cases hwaiting'

theorem ack (h : Streaming messages q arrived rest) (hstep : q.step true .ack = some q') :
    Streaming messages q' arrived rest := by
  obtain ⟨hwaiting, a, acks, sending, hacks, hread, rfl⟩ := Link.step_ack hstep
  cases h.phase with
  | idle hwaiting' => rw [hwaiting] at hwaiting'; cases hwaiting'
  | sent _ _ _ hacks' => rw [hacks] at hacks'; cases hacks'
  | acked _ hlt hpackets hacks' hrest =>
    rw [hacks] at hacks'
    obtain ⟨rfl, rfl⟩ := List.cons.inj hacks'
    unfold Sending.readAck at hread
    rw [parse_ack, ok_bind, if_pos h.alternate_bit.symm] at hread
    cases hread
    refine ⟨h.received, h.all, by rw [h.alternate_bit, bit_succ], hlt, h.clean, h.clean_messages,
      Phase.idle rfl hpackets rfl ?_⟩
    have hdrop : (makePackets q.sending.data).drop q.sending.index =
        packet q.sending.data q.sending.index ::
          (makePackets q.sending.data).drop (q.sending.index + 1) := by
      obtain ⟨hlt', hget⟩ := List.getElem?_eq_some_iff.mp (getElem?_makePackets hlt)
      rw [List.drop_eq_getElem_cons hlt', hget]
    rw [Link.remaining, hdrop, List.cons_append] at hrest
    exact (List.cons.inj hrest).2

theorem packet (h : Streaming messages q arrived rest) (hstep : q.step true .packet = some q') :
    ∃ arrived' rest', Streaming messages q' arrived' rest' := by
  obtain ⟨-, p, packets, receiving, ack, returns, hpackets, htake, rfl⟩ := Link.step_packet hstep
  cases h.phase with
  | idle _ hpackets' => rw [hpackets] at hpackets'; cases hpackets'
  | acked _ _ hpackets' => rw [hpackets] at hpackets'; cases hpackets'
  | sent hwaiting hlt hpackets' hacks hrest =>
    rw [hpackets] at hpackets'
    obtain ⟨rfl, rfl⟩ := List.cons.inj hpackets'
    rw [Receiving.take_eq _ _ (parse_packet h.clean _)] at htake
    have haccept := Except.ok.inj htake
    have hack := Receiving.accept_ack q.receiving ⟨[], 0⟩ q.sending.data q.sending.index
    rw [haccept] at hack
    obtain ⟨rfl, rfl⟩ := Prod.mk.inj hack
    have hrest' : rest = Rdt.packet q.sending.data q.sending.index ::
        ((makePackets q.sending.data).drop (q.sending.index + 1) ++
          q.messages.flatMap makePackets) := by
      obtain ⟨hlt', hget⟩ := List.getElem?_eq_some_iff.mp (getElem?_makePackets hlt)
      rw [← hrest, Link.remaining, List.drop_eq_getElem_cons hlt', hget, List.cons_append]
    have hfeed : feed (q.receiving, q.returned) (Rdt.packet q.sending.data q.sending.index) =
        if (chunk q.sending.data q.sending.index).length < 10
          then (Receiving.start, q.returned ++ [⟨receiving.data, false⟩])
          else (receiving, q.returned) := by
      rw [feed_packet, haccept]
    have hstream : ∀ receiving' returned',
        (receiving', returned') = feed (q.receiving, q.returned)
          (Rdt.packet q.sending.data q.sending.index) →
        Streaming messages ⟨q.messages, q.sending, receiving', returned', [],
          q.acks ++ [AckPacket.toText ⟨0, 0, bit q.sending.index⟩]⟩
          (arrived ++ [Rdt.packet q.sending.data q.sending.index])
          ((makePackets q.sending.data).drop (q.sending.index + 1) ++
            q.messages.flatMap makePackets) := by
      intro receiving' returned' heq
      refine ⟨?_, ?_, h.alternate_bit, h.index_le, h.clean, h.clean_messages,
        Phase.acked hwaiting hlt rfl (by rw [hacks]; rfl) ?_⟩
      · rw [List.foldl_append, ← h.received]
        exact heq
      · rw [List.append_assoc, ← h.all, hrest']
        rfl
      · rw [← hrest']
        exact hrest
    refine ⟨arrived ++ [Rdt.packet q.sending.data q.sending.index],
      (makePackets q.sending.data).drop (q.sending.index + 1) ++ q.messages.flatMap makePackets, ?_⟩
    by_cases hshort : (chunk q.sending.data q.sending.index).length < 10
    · rw [if_pos hshort] at hfeed
      rw [decide_eq_true hshort, if_pos rfl]
      exact hstream _ _ hfeed.symm
    · rw [if_neg hshort] at hfeed
      rw [decide_eq_false hshort, if_neg Bool.false_ne_true]
      exact hstream _ _ hfeed.symm

end Streaming

theorem delivered_done (q : Link) : (q.done q.receiving.data true).delivered = q.delivered := by
  rw [Link.delivered_eq, Link.delivered_eq, Link.filter_done]
  simp [Link.done, Receiving.start]

theorem Framed.step (h : Framed messages q) (hperfect : q.Perfect e)
    (hstep : q.step true e = some q') : Framed messages q' := by
  rcases h with ⟨arrived, rest, h⟩ | ⟨⟨hmessages, hcurrent, hpackets, hacks⟩, hwaiting, hdelivered⟩
  · cases e with
    | call => exact Or.inl ⟨arrived, rest, h.call hstep⟩
    | send => exact Or.inl ⟨arrived, rest, h.send hstep⟩
    | resend =>
      exfalso
      obtain ⟨hwaiting, -⟩ := Link.step_resend hstep
      obtain ⟨hpackets, hacks⟩ := hperfect
      cases h.phase with
      | idle hwaiting' => rw [hwaiting] at hwaiting'; cases hwaiting'
      | sent _ _ hpackets' => rw [hpackets] at hpackets'; cases hpackets'
      | acked _ _ _ hacks' => rw [hacks] at hacks'; cases hacks'
    | ack => exact Or.inl ⟨arrived, rest, h.ack hstep⟩
    | packet => exact Or.inl (h.packet hstep)
    | giveUp =>
      obtain ⟨-, rfl⟩ := Link.step_giveUp hstep
      obtain ⟨hpackets, hmessages, hcurrent⟩ := hperfect
      obtain ⟨hwaiting, -, hacks, harrived⟩ := h.ended hmessages hcurrent
      refine Or.inr ⟨⟨hmessages, hcurrent, hpackets, hacks⟩, hwaiting, ?_⟩
      rw [delivered_done, ← harrived, ← h.received]
      rfl
    | losePacket j => exact hperfect.elim
    | loseAck j => exact hperfect.elim
    | repeatPacket j => exact hperfect.elim
    | repeatAck j => exact hperfect.elim
  · cases e with
    | call =>
      obtain ⟨-, m, later, hmessages', -⟩ := Link.step_call hstep
      rw [hmessages] at hmessages'
      cases hmessages'
    | send =>
      obtain ⟨-, p, hp, -⟩ := Link.step_send hstep
      rw [hcurrent] at hp
      cases hp
    | resend =>
      obtain ⟨-, p, hp, -⟩ := Link.step_resend hstep
      rw [hcurrent] at hp
      cases hp
    | ack =>
      obtain ⟨hwaiting', -⟩ := Link.step_ack hstep
      rw [hwaiting] at hwaiting'
      cases hwaiting'
    | packet =>
      obtain ⟨-, p, packets, -, -, -, hpackets', -⟩ := Link.step_packet hstep
      rw [hpackets] at hpackets'
      cases hpackets'
    | giveUp =>
      obtain ⟨-, rfl⟩ := Link.step_giveUp hstep
      exact Or.inr ⟨⟨hmessages, hcurrent, hpackets, hacks⟩, hwaiting,
        (delivered_done q).trans hdelivered⟩
    | losePacket j => exact hperfect.elim
    | loseAck j => exact hperfect.elim
    | repeatPacket j => exact hperfect.elim
    | repeatAck j => exact hperfect.elim

end Perfect

/-- **Message framing, made exact.** Over a perfect channel, and if `SendTo` resends only when
nothing is in transit, the calls of `RecvFrom` have delivered exactly the strings of the list, one
for each call, when all have been sent and nothing is in transit, if and only if the last packet of
every string but the last has less than ten bytes. -/
theorem framing_iff {messages : List Str} (hclean : ∀ m ∈ messages, Clean m)
    (hne : ∀ m ∈ messages, m ≠ []) {es : List Link.Event} {q : Link}
    (hrun : run (Link.step true) (Link.start [] messages) es = some q)
    (hperfect : Meets (Link.step true) Link.Perfect (Link.start [] messages) es)
    (hquiet : q.Quiescent) :
    q.delivered = messages ↔ ∀ m ∈ messages.dropLast, Short m := by
  have hframed : Framed messages q :=
    (Along.of_step (fun s e s' _ _ hC hI hs => Framed.step hI hC hs)
      (Or.inl ⟨_, _, Streaming.start hclean⟩) (along_true _ _) hperfect).last hrun
  have hdelivered : q.delivered =
      nonempty ((messages.flatMap makePackets).foldl feed (Receiving.start, [])) := by
    rcases hframed with ⟨arrived, rest, h⟩ | ⟨-, -, h⟩
    · obtain ⟨-, -, -, harrived⟩ := h.ended hquiet.1 hquiet.2.1
      rw [← harrived, ← h.received]
      rfl
    · exact h
  rw [hdelivered]
  exact nonempty_feed_iff hne

/-- A string of ten bytes and then one of five. -/
def tenThenFive : List Link.Event :=
  [.call, .send, .packet, .ack, .call, .send, .packet, .ack, .giveUp]

/-- **The second string is taken for a repeat of the first**, and is lost. -/
theorem second_string_lost : ∃ q,
    run (Link.step true) (Link.start [] [str "ten bytes.", str "five."]) tenThenFive = some q ∧
    Meets (Link.step true) Link.Perfect (Link.start [] [str "ten bytes.", str "five."])
      tenThenFive ∧
    q.Quiescent ∧ q.receiving = Receiving.start ∧ q.delivered = [str "ten bytes."] := by
  have hperfect : Meets (Link.step true) Link.Perfect
      (Link.start [] [str "ten bytes.", str "five."]) tenThenFive := by
    decide +kernel
  have hrun : ∃ q, run (Link.step true) (Link.start [] [str "ten bytes.", str "five."])
      tenThenFive = some q ∧ q.Quiescent ∧ q.receiving = Receiving.start ∧
      q.delivered = [str "ten bytes."] := exists_of_check (by decide +kernel)
  obtain ⟨q, hq, hquiet, hreceiving, hdelivered⟩ := hrun
  exact ⟨q, hq, hperfect, hquiet, hreceiving, hdelivered⟩

/-- A string of five bytes and then one of ten: the first ends its call. -/
theorem framing_five_ten : ∃ q,
    run (Link.step true) (Link.start [] [str "five.", str "ten bytes."]) tenThenFive = some q ∧
    (q.delivered = [str "five.", str "ten bytes."] ↔
      ∀ m ∈ [str "five.", str "ten bytes."].dropLast, Short m) := by
  have hrun : ∃ q, run (Link.step true) (Link.start [] [str "five.", str "ten bytes."])
      tenThenFive = some q ∧ q.Quiescent := exists_of_check (by decide +kernel)
  obtain ⟨q, hq, hquiet⟩ := hrun
  exact ⟨q, hq, framing_iff (by decide +kernel) (by decide +kernel) hq (by decide +kernel) hquiet⟩

end DGDB.Rdt
