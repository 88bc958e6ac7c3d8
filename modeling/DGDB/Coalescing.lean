import Mathlib
import DGDB.Process
import DGDB.Wire
import DGDB.Rdt.Framing

/-!
# Messages that arrive as one string

A branch of `runConnection` reads its message from the beginning of the string and never looks at
what is behind it. So when `RecvFrom` returns several messages as one string, the first of them is
handled as though it had come alone, and the others are not handled at all.
-/

namespace DGDB

open Rdt EventSystem StopAndWait

/-! ## What stands behind a message -/

/-- The repository is chosen by the first character of the name; where an update has none, it is
chosen by the byte behind the name. -/
def Msg.HasName : Msg → Prop
  | .update m => m.nameA ≠ []
  | _ => True

instance : DecidablePred Msg.HasName
  | .update m => inferInstanceAs (Decidable (m.nameA ≠ []))
  | .node _ | .query _ | .delete _ | .response _ | .info _ | .register =>
    inferInstanceAs (Decidable True)

section Behind

variable {throws : ℕ → Option Str} {db : Process} {from_addr : Host}

theorem charAt_zero_append {p : Str} (hp : p ≠ []) (r : Str) : charAt (p ++ r) 0 = charAt p 0 := by
  obtain ⟨c, t, rfl⟩ := List.exists_cons_of_ne_nil hp
  rfl

/-- The message decides on the repository, not what is behind it. -/
theorem accept_append {index : UInt8 → ℕ → Result ℤ} {p : Str} (hp : p ≠ []) (r : Str)
    (request_id : ℤ) (state : Option QueryState) (msg : Msg) :
    accept index db from_addr (p ++ r) request_id state msg =
      accept index db from_addr p request_id state msg := by
  unfold accept
  rw [charAt_zero_append hp]

theorem listHeader_ne_nil (nameA : Str) (relations : List Str) (attributes : List Attribute) :
    listHeader nameA relations attributes ≠ [] := by
  simp [listHeader]

theorem nodeBranch_append {m : NodeMsg} (hm : m.Fits) (r : Str) :
    nodeBranch throws db from_addr (parseNewNode m ++ r) =
      nodeBranch throws db from_addr (parseNewNode m) := by
  have hs : (m.nameA.length : ℤ) + 2 = (listHeader m.nameA m.relations m.attributes).length := by
    rw [length_listHeader]
    rfl
  have hpre : (listHeader m.nameA m.relations m.attributes).length < 2 ^ 32 := by
    have : m.nameA.length ≤ 999 := hm.name
    rw [length_listHeader]
    omega
  have hread : ∀ r, readNode (parseNewNode m ++ r) = .ok
      ⟨{ m with attributes := m.attributes.map Attribute.wire, master_repos := [] },
        m.nameA.length + 2,
        listHeader m.nameA m.relations m.attributes ++ (hostListText m.master_repos ++ r)⟩ :=
    fun r => readNode_append hm.name hm.relations_length hm.relations hm.attributes_length
      hm.attributes (takeNumber_idText hs hpre hm.id)
  have hhosts : ∀ r, takeHosts (m.nameA.length + 2)
      (listHeader m.nameA m.relations m.attributes ++ (hostListText m.master_repos ++ r)) =
        .ok (m.master_repos, listHeader m.nameA m.relations m.attributes ++ r) :=
    fun r => takeHosts_append hs hpre hm.hosts_length hm.hosts
  have hnil := hread []
  rw [List.append_nil] at hnil
  unfold nodeBranch
  rw [hread, hnil]
  simp only [ok_bind, hhosts, accept_append (listHeader_ne_nil _ _ _)]

theorem queryBranch_append {m : QueryMsg} (hm : m.Fits) (r : Str) :
    queryBranch db from_addr (parseNewQuery m ++ r) =
      queryBranch db from_addr (parseNewQuery m) := by
  obtain ⟨header, hlen, hread⟩ := readQuery_append hm
  have hne : m.nameA ++ header ≠ [] := by
    intro h
    rw [(List.append_eq_nil_iff.mp h).2] at hlen
    cases hlen
  have hnil := hread []
  rw [List.append_nil] at hnil
  unfold queryBranch
  rw [hread, hnil]
  simp only [ok_bind, accept_append hne]

theorem updateBranch_append {m : UpdateMsg} (hm : m.Fits) (hname : m.nameA ≠ []) (r : Str) :
    updateBranch db from_addr (parseNewUpdate m ++ r) =
      updateBranch db from_addr (parseNewUpdate m) := by
  have hnil := readUpdate_append hm []
  rw [List.append_nil] at hnil
  unfold updateBranch
  rw [readUpdate_append hm, hnil]
  simp only [ok_bind, accept_append hname]

theorem deleteBranch_append {m : DeleteMsg} (hm : m.Fits) (r : Str) :
    deleteBranch db from_addr (parseNewDelete m ++ r) =
      deleteBranch db from_addr (parseNewDelete m) := by
  have hpre : m.nameA.length < 2 ^ 32 := by
    have : m.nameA.length ≤ 999 := hm.name
    omega
  have hread : ∀ r, readDelete (parseNewDelete m ++ r) = .ok
      ⟨{ m with attr_or_rel := if 0 < m.object then m.attr_or_rel else [], master_repos := [] },
        m.nameA.length, m.nameA ++ (hostListText m.master_repos ++ r)⟩ :=
    fun r => readDelete_append hm.name hm.object hm.attr_or_rel (takeNumber_idText rfl hpre hm.id)
  have hhosts : ∀ r, takeHosts m.nameA.length (m.nameA ++ (hostListText m.master_repos ++ r)) =
      .ok (m.master_repos, m.nameA ++ r) :=
    fun r => takeHosts_append rfl hpre hm.hosts_length hm.hosts
  -- a name that is empty is followed by the number of hosts
  have hne : m.nameA ++ hostListText m.master_repos ≠ [] := by
    simp [hostListText, Decimal.padded, Decimal.decimal_ne_nil]
  have haccept : ∀ r request_id state msg,
      accept indexIncremented db from_addr (m.nameA ++ (hostListText m.master_repos ++ r))
          request_id state msg =
        accept indexIncremented db from_addr (m.nameA ++ hostListText m.master_repos) request_id
          state msg := by
    intro r request_id state msg
    rw [← List.append_assoc, accept_append hne]
  have hnil := hread []
  rw [List.append_nil] at hnil
  unfold deleteBranch
  rw [hread, hnil]
  simp only [ok_bind, hhosts, haccept]

/-- **What stands behind a message is ignored.** -/
theorem runConnection_append {m : Msg} (hm : m.Fits) (hname : m.HasName) (r : Str) :
    runConnection throws db from_addr (m.buffer ++ r) =
      runConnection throws db from_addr m.buffer := by
  cases m with
  | node m => exact nodeBranch_append hm r
  | query m => exact queryBranch_append hm r
  | update m => exact updateBranch_append hm hname r
  | delete m => exact deleteBranch_append hm r
  | response m =>
    have hnil := readResponse_append hm []
    rw [List.append_nil] at hnil
    show (do return responseBranch db (← readResponse (parseNewMessageResponse m ++ r))) =
      (do return responseBranch db (← readResponse (parseNewMessageResponse m)))
    rw [readResponse_append hm, hnil]
  | info m =>
    have hnil := readInfo_append hm []
    rw [List.append_nil] at hnil
    show (do infoBranch db (← readInfo (parseNewInfoResponse m ++ r))) =
      (do infoBranch db (← readInfo (parseNewInfoResponse m)))
    rw [readInfo_append hm, hnil]
  | register => rfl

end Behind

/-! ## Messages without a pause -/

/-- The messages that begin a string: the first, unless the call is at one already, and every one
behind a message that ends its call. -/
def handledFrom (fresh : Bool) : List Msg → List Msg
  | [] => []
  | m :: messages =>
    (if fresh then [m] else []) ++ handledFrom (decide (Short m.buffer)) messages

/-- The messages that are handled, of those sent one after the other. -/
def handled : List Msg → List Msg := handledFrom true

/-- `RecvFrom` has returned `m`, perhaps with more behind it. -/
def Begins (s : Str) (m : Msg) : Prop := ∃ r, s = m.buffer ++ r

theorem Msg.buffer_ne_nil (m : Msg) : m.buffer ≠ [] := by
  cases m <;> exact List.cons_ne_nil _ _

theorem Begins.filter_eq {s : Str} {m : Msg} (h : Begins s m) : [s].filter (· ≠ []) = [s] := by
  obtain ⟨r, rfl⟩ := h
  have hne : m.buffer ++ r ≠ [] := List.append_ne_nil_of_left_ne_nil m.buffer_ne_nil r
  simp only [List.filter_cons, List.filter_nil, decide_eq_true hne, if_true]

theorem handled_alone {strings : List Str} {messages : List Msg}
    (h : List.Forall₂ Begins strings messages) (hfits : ∀ m ∈ messages, m.Fits)
    (hname : ∀ m ∈ messages, m.HasName) :
    List.Forall₂ (fun s m => ∀ throws db from_addr, runConnection throws db from_addr s =
      runConnection throws db from_addr m.buffer) strings messages := by
  induction h with
  | nil => exact List.Forall₂.nil
  | cons hfirst _ ih =>
    obtain ⟨r, rfl⟩ := hfirst
    refine List.Forall₂.cons (fun throws db from_addr => ?_) (ih
      (fun m hm => hfits m (List.mem_cons_of_mem _ hm)) fun m hm =>
        hname m (List.mem_cons_of_mem _ hm))
    exact runConnection_append (hfits _ List.mem_cons_self) (hname _ List.mem_cons_self) r

section Feed

variable {data : Str} {messages : List Msg}

theorem accept_data (r : Receiving) (from_addr : Host) (p : Packet) :
    ∃ x, (r.accept from_addr p).1.data = r.data ++ x := by
  unfold Receiving.accept
  split_ifs
  · exact ⟨p.data, rfl⟩
  · exact ⟨[], (List.append_nil _).symm⟩

/-- A string at a call that may have received something: the call gets more, and returns if the
string is short. -/
theorem feed_more (r : Receiving × List Return) (hne : data ≠ []) :
    ∃ x, (Short data → (makePackets data).foldl feed r =
        (Receiving.start, r.2 ++ [⟨r.1.data ++ x, false⟩])) ∧
      (¬ Short data → ((makePackets data).foldl feed r).1.data = r.1.data ++ x ∧
        ((makePackets data).foldl feed r).2 = r.2) := by
  have hprefix : ∀ k, k < chunkCount data → ∃ x,
      (((List.range k).map (packet data)).foldl feed r).1.data = r.1.data ++ x ∧
      (((List.range k).map (packet data)).foldl feed r).2 = r.2 := by
    intro k hk
    induction k with
    | zero => exact ⟨[], (List.append_nil _).symm, rfl⟩
    | succ k ih =>
      obtain ⟨x, hdata, hret⟩ := ih (by omega)
      have hlong : ¬ (chunk data k).length < 10 := by
        rw [length_chunk_of_lt hk]
        decide
      rw [List.range_succ, List.map_append, List.foldl_append, List.map_cons, List.map_nil,
        List.foldl_cons, List.foldl_nil, feed_packet, if_neg hlong]
      obtain ⟨y, hy⟩ := accept_data (((List.range k).map (packet data)).foldl feed r).1 ⟨[], 0⟩
        (packet data k)
      exact ⟨x ++ y, by rw [hy, hdata, List.append_assoc], hret⟩
  obtain ⟨k, hk⟩ : ∃ k, k + 1 = chunkCount data := ⟨_, Nat.sub_add_cancel (chunkCount_pos hne)⟩
  obtain ⟨x, hdata, hret⟩ := hprefix k (by omega)
  rw [makePackets_eq, ← hk, List.range_succ, List.map_append, List.foldl_append, List.map_cons,
    List.map_nil, List.foldl_cons, List.foldl_nil, feed_packet]
  obtain ⟨y, hy⟩ := accept_data (((List.range k).map (packet data)).foldl feed r).1 ⟨[], 0⟩
    (packet data k)
  refine ⟨x ++ y, fun hshort => ?_, fun hlong => ?_⟩
  · rw [if_pos ((short_iff hk).mpr hshort), hret, hy, hdata, List.append_assoc]
  · rw [if_neg fun h => hlong ((short_iff hk).mp h)]
    exact ⟨by rw [hy, hdata, List.append_assoc], hret⟩

theorem feed_string_more (r : Receiving × List Return) (hne : data ≠ []) :
    ∃ x, (r.1 = Receiving.start → x = data) ∧
      (Short data → (makePackets data).foldl feed r =
        (Receiving.start, r.2 ++ [⟨r.1.data ++ x, false⟩])) ∧
      (¬ Short data → ((makePackets data).foldl feed r).1.data = r.1.data ++ x ∧
        ((makePackets data).foldl feed r).2 = r.2) := by
  by_cases hstart : r.1 = Receiving.start
  · obtain ⟨hshort, hlong⟩ := feed_string r.2 hne
    have hr : r = (Receiving.start, r.2) := Prod.ext hstart rfl
    rw [← hr] at hshort hlong
    refine ⟨data, fun _ => rfl, ?_⟩
    rw [hstart]
    exact ⟨hshort, hlong⟩
  · obtain ⟨x, hshort, hlong⟩ := feed_more r hne
    exact ⟨x, fun h => absurd h hstart, hshort, hlong⟩

/-- What the running call has: nothing, or a message that begins its string. -/
def AtMessage (r : Receiving) : Option Msg → Prop
  | none => r = Receiving.start
  | some m => Begins r.data m

/-- **The strings of messages that are sent without a pause**, by induction on the messages: each
begins with one of those that are handled. -/
theorem nonempty_feed_handled (messages : List Msg) (r : Receiving × List Return)
    (current : Option Msg) (hcurrent : AtMessage r.1 current) : ∃ strings,
      nonempty ((messages.flatMap fun m => makePackets m.buffer).foldl feed r) =
        (r.2.map Return.data).filter (· ≠ []) ++ strings ∧
      List.Forall₂ Begins strings (current.toList ++ handledFrom current.isNone messages) := by
  induction messages generalizing r current with
  | nil =>
    refine ⟨[r.1.data].filter (· ≠ []), List.filter_append _ _, ?_⟩
    cases current with
    | none =>
      rw [show r.1 = Receiving.start from hcurrent]
      exact List.Forall₂.nil
    | some m =>
      have hbegins : Begins r.1.data m := hcurrent
      rw [hbegins.filter_eq]
      exact List.Forall₂.cons hbegins List.Forall₂.nil
  | cons m messages ih =>
    rw [List.flatMap_cons, List.foldl_append]
    -- the message that begins the string of the running call, once `m` has arrived
    obtain ⟨m₀, hm₀⟩ : ∃ m₀, current.toList ++ handledFrom current.isNone (m :: messages) =
        m₀ :: handledFrom (decide (Short m.buffer)) messages ∧ ∀ x,
          (r.1 = Receiving.start → x = m.buffer) → Begins (r.1.data ++ x) m₀ := by
      cases current with
      | none =>
        have hstart : r.1 = Receiving.start := hcurrent
        refine ⟨m, rfl, fun x hx => ⟨[], ?_⟩⟩
        rw [hx hstart, hstart]
        exact (List.append_nil _).symm
      | some m₀ =>
        obtain ⟨y, hy⟩ := hcurrent
        exact ⟨m₀, rfl, fun x _ => ⟨y ++ x, by rw [hy, List.append_assoc]⟩⟩
    obtain ⟨x, hx, hshort, hlong⟩ := feed_string_more r m.buffer_ne_nil
    have hbegins : Begins (r.1.data ++ x) m₀ := hm₀.2 x hx
    rw [hm₀.1]
    by_cases hend : Short m.buffer
    · obtain ⟨strings, hstrings, hhandled⟩ := ih
        (Receiving.start, r.2 ++ [⟨r.1.data ++ x, false⟩]) none rfl
      rw [hshort hend, decide_eq_true hend]
      refine ⟨(r.1.data ++ x) :: strings, ?_, List.Forall₂.cons hbegins hhandled⟩
      rw [hstrings, List.map_append, List.filter_append, List.append_assoc]
      congr 1
      show [r.1.data ++ x].filter (· ≠ []) ++ strings = _
      rw [hbegins.filter_eq]
      rfl
    · obtain ⟨hdata, hret⟩ := hlong hend
      obtain ⟨strings, hstrings, hhandled⟩ := ih ((makePackets m.buffer).foldl feed r)
        (some m₀) (show Begins _ m₀ by rwa [hdata])
      rw [decide_eq_false hend]
      exact ⟨strings, by rw [hstrings, hret], hhandled⟩

theorem mem_of_mem_handledFrom {fresh : Bool} {m : Msg} (h : m ∈ handledFrom fresh messages) :
    m ∈ messages := by
  induction messages generalizing fresh with
  | nil => cases h
  | cons m' messages ih =>
    rcases List.mem_append.mp h with h | h
    · cases fresh with
      | false => cases h
      | true => exact List.mem_cons.mpr (Or.inl (List.mem_singleton.mp h))
    · exact List.mem_cons_of_mem m' (ih h)

theorem delivered_feed {strings : List Str} (hclean : ∀ m ∈ strings, Clean m) {es : List Link.Event}
    {q : Link} (hrun : run (Link.step true) (Link.start [] strings) es = some q)
    (hperfect : Meets (Link.step true) Link.Perfect (Link.start [] strings) es)
    (hquiet : q.Quiescent) :
    q.delivered = nonempty ((strings.flatMap makePackets).foldl feed (Receiving.start, [])) := by
  have hframed : Framed strings q :=
    (Along.of_step (fun s e s' _ _ hC hI hs => Framed.step hI hC hs)
      (Or.inl ⟨_, _, Streaming.start hclean⟩) (along_true _ _) hperfect).last hrun
  rcases hframed with ⟨arrived, rest, h⟩ | ⟨-, -, h⟩
  · obtain ⟨-, -, -, harrived⟩ := h.ended hquiet.1 hquiet.2.1
    rw [← harrived, ← h.received]
    rfl
  · exact h

end Feed

/-- **Messages that are sent without a pause.** Over a perfect channel, when every message has been
sent and nothing is in transit, a process that calls `RecvFrom` has been given one string for the
first message and for each one behind a message whose last packet has less than ten bytes, and does
with it what it does with that message alone. All other messages are lost. -/
theorem coalesced_handled {messages : List Msg} (hfits : ∀ m ∈ messages, m.Fits)
    (hname : ∀ m ∈ messages, m.HasName) (hclean : ∀ m ∈ messages, Clean m.buffer)
    {es : List Link.Event} {q : Link}
    (hrun : run (Link.step true) (Link.start [] (messages.map Msg.buffer)) es = some q)
    (hperfect : Meets (Link.step true) Link.Perfect (Link.start [] (messages.map Msg.buffer)) es)
    (hquiet : q.Quiescent) :
    List.Forall₂ (fun s m => ∀ throws db from_addr, runConnection throws db from_addr s =
      runConnection throws db from_addr m.buffer) q.delivered (handled messages) := by
  have hstrings := delivered_feed (by simpa using hclean) hrun hperfect hquiet
  rw [List.flatMap_map] at hstrings
  obtain ⟨strings, hnonempty, hbegin⟩ := nonempty_feed_handled messages
    (Receiving.start, []) none rfl
  have hdelivered : q.delivered = strings := hstrings.trans hnonempty
  rw [hdelivered]
  exact handled_alone hbegin (fun m hm => hfits m (mem_of_mem_handledFrom hm)) fun m hm =>
    hname m (mem_of_mem_handledFrom hm)

/-- A query of 13 bytes and then a create, which is lost. -/
def queryThenCreate : List Msg :=
  [.query ⟨str "a", 0, false, false, [], 0⟩, .node ⟨str "b", [], [], 0, []⟩]

theorem coalesced_handled_query : ∃ q,
    run (Link.step true) (Link.start [] (queryThenCreate.map Msg.buffer))
      [.call, .send, .packet, .ack, .call, .send, .packet, .ack, .giveUp] = some q ∧
    handled queryThenCreate = [.query ⟨str "a", 0, false, false, [], 0⟩] ∧
    List.Forall₂ (fun s m => ∀ throws db from_addr, runConnection throws db from_addr s =
      runConnection throws db from_addr m.buffer) q.delivered (handled queryThenCreate) := by
  have hrun : ∃ q, run (Link.step true) (Link.start [] (queryThenCreate.map Msg.buffer))
      [.call, .send, .packet, .ack, .call, .send, .packet, .ack, .giveUp] = some q ∧ q.Quiescent :=
    exists_of_check (by decide +kernel)
  obtain ⟨q, hq, hquiet⟩ := hrun
  exact ⟨q, hq, by decide +kernel, coalesced_handled (by decide +kernel) (by decide +kernel)
    (by decide +kernel) hq (by decide +kernel) hquiet⟩

/-! ## One message over a channel that loses datagrams -/

/-- The turns of a process on the strings it receives from `from_addr`, each with what its storage
calls throw. -/
def turns (from_addr : Host) : Process → List (Str × (ℕ → Option Str)) → Outcome
  | db, [] => pure (db, [])
  | db, (s_buffer, throws) :: received => do
    let (db, out) ← runConnection throws db from_addr s_buffer
    let (db, more) ← turns from_addr db received
    return (db, out ++ more)

section Turns

variable {from_addr : Host} {received : List (Str × (ℕ → Option Str))}

theorem runConnection_nil (throws : ℕ → Option Str) (db : Process) :
    runConnection throws db from_addr [] = .ok (db, []) := rfl

theorem turns_filter (db : Process) :
    turns from_addr db (received.filter fun r => r.1 ≠ []) = turns from_addr db received := by
  induction received generalizing db with
  | nil => rfl
  | cons r received ih =>
    obtain ⟨s_buffer, throws⟩ := r
    by_cases hnil : s_buffer = []
    · subst hnil
      rw [List.filter_cons_of_neg (by simp), ih, turns, runConnection_nil, ok_bind]
      simp only [List.nil_append]
      cases turns from_addr db received <;> rfl
    · rw [List.filter_cons_of_pos (by simpa using hnil), turns, turns]
      simp only [ih]

theorem turns_singleton (db : Process) (s_buffer : Str) (throws : ℕ → Option Str) :
    turns from_addr db [(s_buffer, throws)] = runConnection throws db from_addr s_buffer := by
  rw [turns]
  cases runConnection throws db from_addr s_buffer with
  | error e => rfl
  | ok r => simp [turns]

end Turns

/-- **The link delivers a message once.** If every step of the transfer of a message was orderly,
then when `SendTo` has returned and nothing is in transit the strings that `RecvFrom` returns make a
process do, in any state, what a single turn on the message does. -/
theorem transfer_is_turn {m : Msg} (hclean : Clean m.buffer) {es : List Link.Event} {q : Link}
    (hrun : run (Link.step true) (Link.start m.buffer []) es = some q) (hquiet : q.Quiescent)
    (horderly : Meets (Link.step true) (Link.Orderly m.buffer) (Link.start m.buffer []) es)
    (from_addr : Host) {received : List (Str × (ℕ → Option Str))}
    (hreceived : received.map Prod.fst = q.strings) :
    ∃ throws ∈ received.map Prod.snd, ∀ db,
      turns from_addr db received = runConnection throws db from_addr m.buffer := by
  have hintact : Link.Intact m.buffer q := (Along.of_step
    (fun s e s' _ _ hC hI hs => (Link.Intact.step hclean m.buffer_ne_nil hI hs).1 hC)
    (Link.Intact.start m.buffer) (along_true _ _) horderly).last hrun
  have hdelivered := hintact.delivered_eq m.buffer_ne_nil hquiet
  have hmap : (received.filter fun r => r.1 ≠ []).map Prod.fst = [m.buffer] := by
    rw [← hdelivered, Link.delivered, ← hreceived, List.filter_map]
    rfl
  obtain ⟨⟨s_buffer, throws⟩, hfilter, hbuffer⟩ := List.map_eq_singleton_iff.mp hmap
  obtain rfl : s_buffer = m.buffer := hbuffer
  have hmem : (m.buffer, throws) ∈ received := by
    have hmem : (m.buffer, throws) ∈ received.filter fun r => r.1 ≠ [] := by
      rw [hfilter]
      exact List.mem_singleton_self _
    exact List.mem_of_mem_filter hmem
  refine ⟨throws, List.mem_map_of_mem hmem, fun db => ?_⟩
  rw [← turns_filter, hfilter, turns_singleton]

instance (data : Str) (q : Link) : DecidablePred (Link.Orderly data q)
  | .giveUp => inferInstanceAs (Decidable (_ ∨ _))
  | .packet =>
    inferInstanceAs (Decidable ((∃ r ∈ q.returned, r.data = data) → q.nextBit ≠ some false))
  | .call | .send | .resend | .ack => inferInstanceAs (Decidable True)
  | .losePacket _ | .loseAck _ | .repeatPacket _ | .repeatAck _ => inferInstanceAs (Decidable True)

/-- A create of two packets, the first of which is lost once; `RecvFrom` gives up before it comes.
-/
def lostCreate : Msg := .node ⟨str "twenty-five", [], [], 0, []⟩

theorem transfer_is_turn_lost : ∃ q,
    run (Link.step true) (Link.start lostCreate.buffer [])
      [.send, .losePacket 0, .giveUp, .resend, .packet, .ack, .send, .packet, .ack] = some q ∧
    ∀ db, turns ⟨str "10.0.0.9", 9⟩ db (q.strings.map fun s => (s, noThrow)) =
      runConnection noThrow db ⟨str "10.0.0.9", 9⟩ lostCreate.buffer := by
  have hrun : ∃ q, run (Link.step true) (Link.start lostCreate.buffer [])
      [.send, .losePacket 0, .giveUp, .resend, .packet, .ack, .send, .packet, .ack] = some q ∧
      q.Quiescent := exists_of_check (by decide +kernel)
  obtain ⟨q, hq, hquiet⟩ := hrun
  have hreceived : (q.strings.map fun s => (s, noThrow)).map Prod.fst = q.strings := by
    rw [List.map_map]
    exact List.map_id _
  obtain ⟨throws, hthrows, hturn⟩ := transfer_is_turn (by decide +kernel) hq hquiet
    (by decide +kernel) ⟨str "10.0.0.9", 9⟩ hreceived
  have hno : throws = noThrow := by
    rw [List.map_map] at hthrows
    obtain ⟨s, -, hs⟩ := List.mem_map.mp hthrows
    exact hs.symm
  exact ⟨q, hq, fun db => hno ▸ hturn db⟩

end DGDB
