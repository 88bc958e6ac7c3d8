import Mathlib
import DGDB.Format
import DGDB.HostList
import DGDB.Storing
import DGDB.Turn
import DGDB.Rdt.Datagram

/-!
# Malformed traffic

What a string that no encoder has written does to a process. A turn is harmless if it ends without
an exception and without undefined behaviour, answers nobody who has not asked and leaves the
entries of other requests alone; `harmless_iff` says exactly which strings have such a turn, in
every state that a process reaches.
-/

namespace DGDB

open EventSystem

/-! ## Harmless turns -/

/-- `s_buffer` is a `C`, an `R`, a `U` or a `D`. -/
def RequestHead (s_buffer : Str) : Prop := s_buffer.headD 0 = ch 'R' ∨ WriteHead s_buffer

/-- A request came from `host`. -/
def Asked (received : List Received) (host : Host) : Prop :=
  ∃ e ∈ received, RequestHead e.s_buffer ∧ e.from_addr = host

/-- The entry of `pending` that the string is about: the id of an `M` or an `I`, and the next
number for a request. -/
def OwnEntry (db : Process) (s_buffer : Str) (id : ℤ) : Prop :=
  (s_buffer.headD 0 = ch 'M' ∧ ∃ m, readResponse s_buffer = .ok m ∧ id = m.request_id) ∨
  (s_buffer.headD 0 = ch 'I' ∧ ∃ i, readInfo s_buffer = .ok i ∧ id = i.request_id) ∨
  RequestHead s_buffer ∧ id = toInt db.current_request

section Conditions

variable (sendable : Host → Prop)

/-- A call of `parseNew…` does no harm: no number overruns its buffer, and `sendto` takes the
address. Where it does not, `UDPSocket::SendTo` ends the process. -/
structure Send.Goes (s : Send) : Prop where
  numbers : s.msg.NoOverrun
  host : sendable s.host

/-- The turn on `e` ends, replies only where a request came from and changes no other entry. -/
def Harmless (received : List Received) (db : Process) (e : Received) : Prop :=
  ∃ db' out, runConnection e.throws db e.from_addr e.s_buffer = .ok (db', out) ∧
    (∀ s ∈ out, s.Goes sendable) ∧
    (∀ s ∈ out, s.msg.IsReply → Asked (received ++ [e]) s.host) ∧
    ∀ id, ¬ OwnEntry db e.s_buffer id → db'.pending id = db.pending id

/-! ## Strings that are -/

/-- An `M` goes to the client of its entry, or where a request came from. -/
def ResponseReady (received : List Received) (db : Process) (m : ResponseMsg) : Prop :=
  ((∃ p, db.pending m.request_id = some p) ∨ Asked received Pending.fresh.client_sock) ∧
    Send.Goes sendable ⟨((db.pending m.request_id).getD Pending.fresh).client_sock, .response m⟩

/-- An `I` for a query that is pending: its client gets an answer, or a registered repository the
next `R`. -/
def InfoReady (db : Process) (i : InfoMsg) : Prop :=
  ∃ client st top queue, db.pending i.request_id = some ⟨client, some st⟩ ∧
    st.node_queue = top :: queue ∧
    (top.1 ≠ i.nameA → Send.Goes sendable ⟨client, .response ⟨internalErrorText, i.request_id⟩⟩) ∧
    (top.1 = i.nameA → (st.advance top queue i).node_queue = [] → Send.Goes sendable
      ⟨client, .response ⟨completeText (st.advance top queue i).response, i.request_id⟩⟩) ∧
    (top.1 = i.nameA → ∀ next rest, (st.advance top queue i).node_queue = next :: rest →
      2 ≤ db.repositories.length ∧ ∀ host, Place.next.host db.repositories next.1 = .ok host →
        Send.Goes sendable ⟨host, .query ⟨next.1, toInt next.2, st.leaf, st.attr, st.conditions,
          i.request_id⟩⟩)

/-- The server refuses the request, or forwards `msg` to the repository it chooses at `p`. -/
def AcceptReady (db : Process) (from_addr : Host) (p : Place) (b : Str) (request_id : ℤ)
    (msg : Msg) : Prop :=
  (db.repositories.length < 2 →
    Send.Goes sendable ⟨from_addr, .response ⟨notAttachedText, request_id⟩⟩) ∧
  (2 ≤ db.repositories.length → ∀ host, p.host db.repositories b = .ok host →
    Send.Goes sendable ⟨host, msg⟩)

/-- A repository answers its server, from which a request came. -/
def ServerReady (received : List Received) (db : Process) (msg : Msg) : Prop :=
  ∃ host, db.repositories.head? = some host ∧ Asked received host ∧ Send.Goes sendable ⟨host, msg⟩

/-- There is an entry of the host list for the reverse of `rel`. -/
def ReverseReady (hosts : List Host) (rel : Str) (msg : Msg) : Prop :=
  2 ≤ hosts.length ∧ ∃ (k : ℕ) (host : Host),
    (signedChar (rel.headD 0)).tmod ((hosts.length : ℤ) - 1) + 1 = k ∧ hosts[k]? = some host ∧
      Send.Goes sendable ⟨host, msg⟩

/-- One turn of the relation loop, whose storage calls may throw. -/
def RelationReady (from_addr : Host) (node_name : Str) (request_id : ℤ) (hosts : List Host)
    (rel : Str) : Option Str → Prop
  | some what => Send.Goes sendable ⟨from_addr, .response ⟨str "[ERROR] " ++ what, request_id⟩⟩
  | none => hosts = [] ∨ ReverseReady sendable hosts rel (.node ⟨rel, [], [node_name], 0, []⟩)

/-- The message with which the relation loop ends: the last error, if there is one. -/
def loopMessage (throws : ℕ → Option Str) : ℕ → List Str → Str → Str
  | _, [], message => message
  | k, _ :: relations, message =>
    loopMessage throws (k + 1) relations
      ((throws k).elim message fun what => str "[ERROR] " ++ what)

/-- What a repository needs to store a node: of what it sends, the report that the node could not
be looked up, or the messages of the relation loop and the answer. -/
def StoreReady (throws : ℕ → Option Str) (received : List Received) (db : Process)
    (from_addr : Host) (m : NodeMsg) (hosts : List Host) : Prop :=
  (∀ what, throws 0 = some what →
    Send.Goes sendable ⟨from_addr, .response ⟨str "[ERROR] " ++ what, m.request_id⟩⟩) ∧
  (throws 0 = none →
    (∀ k rel, m.relations[k]? = some rel → RelationReady sendable from_addr m.nameA m.request_id
      hosts rel (throws (k + 1))) ∧
    (m.request_id ≠ 0 → ServerReady sendable received db (.response
      ⟨loopMessage throws 1 m.relations
        (if m.nameA ∈ db.storage.nodes then existsText else []) ++ storedText, m.request_id⟩)))

/-- What a `C` needs behind its request id on a repository. -/
def NodeReady (received : List Received) (db : Process) (e : Received) (m : NodeMsg) (r : Str) :
    Prop :=
  ∃ hosts r', Format.hosts r hosts r' ∧
    StoreReady sendable e.throws received db e.from_addr m hosts

/-- What a repository needs to answer a `D`: of what it sends, the reverse delete and the answer. -/
def RemoveReady (received : List Received) (db : Process) (m : DeleteMsg) (hosts : List Host) :
    Prop :=
  (m.object = 2 → hosts = [] ∨ ReverseReady sendable hosts m.attr_or_rel
    (.delete ⟨m.attr_or_rel, m.object, m.nameA, 0, []⟩)) ∧
  (m.request_id ≠ 0 →
    ServerReady sendable received db (.response ⟨deletedText m.object, m.request_id⟩))

/-- What a `D` needs behind its request id on a repository. -/
def DeleteReady (received : List Received) (db : Process) (m : DeleteMsg) (r : Str) : Prop :=
  ∃ hosts r', Format.hosts r hosts r' ∧ RemoveReady sendable received db m hosts

/-- What a string has to look like. `received` ends with the string itself. -/
structure Wellformed (received : List Received) (db : Process) (e : Received) : Prop where
  response : e.s_buffer.headD 0 = ch 'M' → ∃ m, ResponseFormat e.s_buffer m ∧
    ResponseReady sendable received db m
  info : e.s_buffer.headD 0 = ch 'I' → ∃ i, InfoFormat e.s_buffer i ∧ InfoReady sendable db i
  /-- A write that is refused while a query blocks writes is not even read. -/
  busy : WriteHead e.s_buffer → db.cud_blocking = true → sendable e.from_addr
  node : e.s_buffer.headD 0 = ch 'C' → db.cud_blocking = false →
    ∃ m header r, NodeFormat e.s_buffer m header r ∧
      (db.server = true → AcceptReady sendable db e.from_addr .create (m.nameA ++ header ++ r)
        m.request_id (.node { m with
          request_id := db.current_request, master_repos := db.repositories })) ∧
      (db.server = false → NodeReady sendable received db e m r)
  query : e.s_buffer.headD 0 = ch 'R' → ∃ m header r, QueryFormat e.s_buffer m header r ∧
    (db.server = true → AcceptReady sendable db e.from_addr .query (m.nameA ++ header ++ r)
      m.request_id (.query { m with request_id := db.current_request })) ∧
    (db.server = false → ServerReady sendable received db (.info (queryReply db.storage m)))
  update : e.s_buffer.headD 0 = ch 'U' → db.cud_blocking = false →
    ∃ m r, UpdateFormat e.s_buffer m r ∧
      (db.server = true → AcceptReady sendable db e.from_addr .update (m.nameA ++ r) m.request_id
        (.update { m with request_id := db.current_request })) ∧
      (db.server = false →
        ServerReady sendable received db (.response ⟨updatedText, m.request_id⟩))
  delete : e.s_buffer.headD 0 = ch 'D' → db.cud_blocking = false →
    ∃ m r, DeleteFormat e.s_buffer m r ∧
      (db.server = true → AcceptReady sendable db e.from_addr .delete (m.nameA ++ r) m.request_id
        (.delete { m with request_id := db.current_request, master_repos := db.repositories })) ∧
      (db.server = false → DeleteReady sendable received db m r)

end Conditions

/-! ## The host of a reverse -/

section Reverse

variable {sendable : Host → Prop} {hosts : List Host} {rel : Str}

/-- The index into the host list is never too large, and 0 or more unless the remainder is below
`-1`. -/
theorem reverseHost_iff {p : Place} (hp : p.IsReverse) {host : Host} :
    p.host hosts rel = .ok host ↔ 2 ≤ hosts.length ∧ ∃ k : ℕ,
      (signedChar (rel.headD 0)).tmod ((hosts.length : ℤ) - 1) + 1 = k ∧ hosts[k]? = some host := by
  unfold Place.host
  rw [Place.index_eq, if_pos hp]
  unfold indexOfRelation
  by_cases hone : hosts.length - 1 = 0
  · rw [if_pos hone]
    constructor
    · intro h
      cases h
    · rintro ⟨h2, -⟩
      omega
  · rw [if_neg hone]
    simp only [pure_eq_ok, ok_bind, hostAt_eq_ok]
    constructor
    · rintro ⟨h0, hget⟩
      exact ⟨by omega, _, (Int.toNat_of_nonneg h0).symm, hget⟩
    · rintro ⟨-, k, hk, hget⟩
      rw [hk]
      exact ⟨Int.natCast_nonneg k, hget⟩

theorem reverse_ready {p : Place} (hp : p.IsReverse) {msg : Msg} :
    (∃ out, (do
      let host ← p.host hosts rel
      return [(⟨host, msg⟩ : Send)]) = .ok out ∧ ∀ s ∈ out, s.Goes sendable) ↔
      ReverseReady sendable hosts rel msg := by
  constructor
  · rintro ⟨out, h, hgoes⟩
    obtain ⟨host, hhost, h⟩ := bind_eq_ok.mp h
    cases h
    obtain ⟨h2, k, hk, hget⟩ := (reverseHost_iff hp).mp hhost
    exact ⟨h2, k, host, hk, hget, hgoes _ (List.mem_singleton_self _)⟩
  · rintro ⟨h2, k, host, hk, hget, hgoes⟩
    rw [(reverseHost_iff hp).mpr ⟨h2, k, hk, hget⟩, ok_bind]
    refine ⟨_, rfl, fun s hs => ?_⟩
    rwa [List.mem_singleton.mp hs]

theorem reverseNode_ready {node_name : Str} :
    (∃ out, reverseNode node_name rel hosts = .ok out ∧ ∀ s ∈ out, s.Goes sendable) ↔
      (hosts = [] ∨ ReverseReady sendable hosts rel (.node ⟨rel, [], [node_name], 0, []⟩)) := by
  by_cases hnil : hosts = []
  · unfold reverseNode
    rw [if_pos (by simp [hnil])]
    exact ⟨fun _ => Or.inl hnil, fun _ => ⟨_, rfl, by simp⟩⟩
  · rw [reverseNode_place _ _ hnil, or_iff_right hnil]
    exact reverse_ready (Or.inl rfl)

theorem reverseDelete_ready {m : DeleteMsg} :
    (∃ out, reverseDelete m hosts = .ok out ∧ ∀ s ∈ out, s.Goes sendable) ↔
      (m.object = 2 → hosts = [] ∨ ReverseReady sendable hosts m.attr_or_rel
        (.delete ⟨m.attr_or_rel, m.object, m.nameA, 0, []⟩)) := by
  by_cases hboth : m.object = 2 ∧ hosts ≠ []
  · rw [reverseDelete_place hboth.1 hboth.2, or_iff_right hboth.2, forall_prop_of_true hboth.1]
    exact reverse_ready (Or.inr rfl)
  · unfold reverseDelete
    rw [if_neg (by simpa using hboth)]
    refine ⟨fun _ hobject => Or.inl ?_, fun _ => ⟨_, rfl, by simp⟩⟩
    by_contra hnil
    exact hboth ⟨hobject, hnil⟩

/-- The relation loop ends exactly if each relation has its host or its report. -/
theorem storeRelations_ready {throws : ℕ → Option Str} {from_addr : Host} {node_name : Str}
    {request_id : ℤ} {relations : List Str} {k : ℕ} {storage : Storage} {message : Str} :
    (∃ storage' message' out, storeRelations throws from_addr node_name request_id hosts k relations
      storage message = .ok (storage', message', out) ∧ ∀ s ∈ out, s.Goes sendable) ↔
      ∀ j rel, relations[j]? = some rel →
        RelationReady sendable from_addr node_name request_id hosts rel (throws (j + k)) := by
  induction relations generalizing k storage message with
  | nil => exact ⟨fun _ j rel hrel => by simp at hrel, fun _ => ⟨_, _, _, rfl, by simp⟩⟩
  | cons rel relations ih =>
    have hsplit : (∀ j rel', (rel :: relations)[j]? = some rel' →
        RelationReady sendable from_addr node_name request_id hosts rel' (throws (j + k))) ↔
        RelationReady sendable from_addr node_name request_id hosts rel (throws k) ∧
        ∀ j rel', relations[j]? = some rel' → RelationReady sendable from_addr node_name request_id
          hosts rel' (throws (j + (k + 1))) := by
      constructor
      · intro h
        refine ⟨?_, fun j rel' hrel => ?_⟩
        · have h0 := h 0 rel rfl
          rwa [Nat.zero_add] at h0
        · have hj := h (j + 1) rel' hrel
          rwa [Nat.add_right_comm] at hj
      · rintro ⟨h0, hrest⟩ j rel' hrel
        cases j with
        | zero =>
          cases hrel
          rwa [Nat.zero_add]
        | succ j =>
          rw [Nat.add_right_comm]
          exact hrest j rel' hrel
    rw [hsplit, storeRelations]
    cases hthrow : throws k with
    | some what =>
      simp only
      constructor
      · rintro ⟨storage', message', out, h, hgoes⟩
        obtain ⟨⟨storage₁, message₁, out₁⟩, hy, h⟩ := bind_eq_ok.mp h
        cases h
        obtain ⟨hreport, hrest⟩ := List.forall_mem_cons.mp hgoes
        exact ⟨hreport, ih.mp ⟨_, _, _, hy, hrest⟩⟩
      · rintro ⟨hreport, hrest⟩
        obtain ⟨storage', message', out, hy, hgoes⟩ := ih.mpr hrest
        rw [hy, ok_bind]
        exact ⟨_, _, _, rfl, List.forall_mem_cons.mpr ⟨hreport, hgoes⟩⟩
    | none =>
      simp only
      constructor
      · rintro ⟨storage', message', out, h, hgoes⟩
        obtain ⟨reverse, hreverse, h⟩ := bind_eq_ok.mp h
        obtain ⟨⟨storage₁, message₁, out₁⟩, hy, h⟩ := bind_eq_ok.mp h
        cases h
        obtain ⟨hfirst, hrest⟩ := List.forall_mem_append.mp hgoes
        exact ⟨reverseNode_ready.mp ⟨reverse, hreverse, hfirst⟩, ih.mp ⟨_, _, _, hy, hrest⟩⟩
      · rintro ⟨hrel, hrest⟩
        obtain ⟨reverse, hreverse, hfirst⟩ := reverseNode_ready.mpr hrel
        obtain ⟨storage', message', out, hy, hgoes⟩ := ih.mpr hrest
        rw [hreverse, ok_bind, hy, ok_bind]
        exact ⟨_, _, _, rfl, List.forall_mem_append.mpr ⟨hfirst, hgoes⟩⟩

theorem storeRelations_message {throws : ℕ → Option Str} {from_addr : Host} {node_name : Str}
    {request_id : ℤ} {relations : List Str} {k : ℕ} {storage storage' : Storage}
    {message message' : Str} {out : List Send}
    (h : storeRelations throws from_addr node_name request_id hosts k relations storage message =
      .ok (storage', message', out)) : message' = loopMessage throws k relations message := by
  induction relations generalizing k storage message storage' message' out with
  | nil =>
    cases h
    rfl
  | cons rel relations ih =>
    rw [storeRelations] at h
    rw [loopMessage]
    cases hthrow : throws k with
    | some what =>
      rw [hthrow] at h
      obtain ⟨y, hy, h⟩ := bind_eq_ok.mp h
      cases h
      exact ih hy
    | none =>
      rw [hthrow] at h
      obtain ⟨reverse, -, h⟩ := bind_eq_ok.mp h
      obtain ⟨y, hy, h⟩ := bind_eq_ok.mp h
      cases h
      exact ih hy

end Reverse

/-! ## What every turn that ends does -/

/-- Where the replies of a turn can go. -/
inductive ReplyTarget (db : Process) (from_addr : Host) (s_buffer : Str) (host : Host) : Prop
  | sender (hhead : RequestHead s_buffer) (hhost : host = from_addr)
  | client {id : ℤ} {p : Pending} (hpending : db.pending id = some p) (hhost : host = p.client_sock)
  /-- An `M` without entry. -/
  | fresh {m : ResponseMsg} (hhead : s_buffer.headD 0 = ch 'M')
      (hread : readResponse s_buffer = .ok m) (hpending : db.pending m.request_id = none)
      (hhost : host = Pending.fresh.client_sock)
  /-- A repository answers its server. -/
  | server (hserver : db.server = false) (hhead : RequestHead s_buffer)
      (hhost : db.repositories.head? = some host)

/-- What a turn that ends does to the entries and whom it answers. -/
structure Accounted (db : Process) (from_addr : Host) (s_buffer : Str) (db' : Process)
    (out : List Send) : Prop where
  others : ∀ id, ¬ OwnEntry db s_buffer id → db'.pending id = db.pending id
  /-- Every entry names the client of an old one, or the sender of the request. -/
  clients : ∀ id p, db'.pending id = some p →
    (∃ id' q, db.pending id' = some q ∧ p.client_sock = q.client_sock) ∨
      RequestHead s_buffer ∧ p.client_sock = from_addr
  replies : ∀ s ∈ out, s.msg.IsReply → ReplyTarget db from_addr s_buffer s.host
  loops : db.server = true ∨ db.repository = true → db'.server = true ∨ db'.repository = true

section Accounted

attribute [local irreducible] toInt

variable {db db' : Process} {from_addr : Host} {s_buffer : Str} {out : List Send}

theorem hostAt_zero_iff {hosts : List Host} {host : Host} :
    hostAt hosts 0 = .ok host ↔ hosts.head? = some host := by
  rw [List.head?_eq_getElem?, hostAt_eq_ok]
  exact and_iff_right le_rfl

theorem Accounted.of_pending (hpending : db'.pending = db.pending)
    (hreplies : ∀ s ∈ out, s.msg.IsReply → ReplyTarget db from_addr s_buffer s.host)
    (hloops : db.server = true ∨ db.repository = true → db'.server = true ∨ db'.repository = true) :
    Accounted db from_addr s_buffer db' out where
  others := fun id _ => by rw [hpending]
  clients := fun id p hp => Or.inl ⟨id, p, by rw [← hpending, hp], rfl⟩
  replies := hreplies
  loops := hloops

theorem Accounted.to_sender (hpending : db'.pending = db.pending) {s : Send}
    (hhead : RequestHead s_buffer) (hhost : s.host = from_addr) (hserver : db'.server = db.server)
    (hrepo : db'.repository = db.repository) : Accounted db from_addr s_buffer db' [s] := by
  refine Accounted.of_pending hpending (fun s' hs' _ => ?_) fun h => by rwa [hserver, hrepo]
  rw [List.mem_singleton.mp hs']
  exact ReplyTarget.sender hhead hhost

theorem Accounted.of_update (id : ℤ) (entry : Option Pending)
    (hpending : db'.pending = Function.update db.pending id entry)
    (hserver : db'.server = db.server) (hrepo : db'.repository = db.repository)
    (hown : OwnEntry db s_buffer id)
    (hclient : ∀ p, entry = some p →
      (∃ id' q, db.pending id' = some q ∧ p.client_sock = q.client_sock) ∨
        RequestHead s_buffer ∧ p.client_sock = from_addr)
    (hreplies : ∀ s ∈ out, s.msg.IsReply → ReplyTarget db from_addr s_buffer s.host) :
    Accounted db from_addr s_buffer db' out where
  others := by
    intro id' hother
    have hne : id' ≠ id := by
      rintro rfl
      exact hother hown
    rw [hpending, Function.update_of_ne hne]
  clients := by
    intro id' p hp
    rw [hpending] at hp
    by_cases hid : id' = id
    · rw [hid, Function.update_self] at hp
      exact hclient p hp
    · rw [Function.update_of_ne hid] at hp
      exact Or.inl ⟨id', p, hp, rfl⟩
  replies := hreplies
  loops := fun h => by rwa [hserver, hrepo]

theorem accounted_response {m : ResponseMsg} (hhead : s_buffer.headD 0 = ch 'M')
    (hread : readResponse s_buffer = .ok m) :
    Accounted db from_addr s_buffer (responseBranch db m).1 (responseBranch db m).2 := by
  refine Accounted.of_update m.request_id none rfl rfl rfl
    (Or.inl ⟨hhead, m, hread, rfl⟩) (fun p hp => by cases hp) fun s hs _ => ?_
  rw [List.mem_singleton.mp hs]
  cases hp : db.pending m.request_id with
  | none => exact ReplyTarget.fresh hhead hread hp rfl
  | some p => exact ReplyTarget.client hp rfl

theorem accounted_info {i : InfoMsg} (hhead : s_buffer.headD 0 = ch 'I')
    (hread : readInfo s_buffer = .ok i) (hstep : InfoStep db i db' out) :
    Accounted db from_addr s_buffer db' out := by
  have hown : OwnEntry db s_buffer i.request_id := Or.inr (Or.inl ⟨hhead, i, hread, rfl⟩)
  cases hstep with
  | complete hpending =>
    refine Accounted.of_update _ none rfl rfl rfl hown (fun p hp => by cases hp)
      fun s hs _ => ?_
    rw [List.mem_singleton.mp hs]
    exact ReplyTarget.client hpending rfl
  | next hpending =>
    refine Accounted.of_update _ (some _) rfl rfl rfl hown (fun p hp => ?_) fun s hs hreply => ?_
    · cases hp
      exact Or.inl ⟨_, _, hpending, rfl⟩
    rw [List.mem_singleton.mp hs] at hreply
    exact hreply.elim
  | mismatch hpending =>
    refine Accounted.of_update _ none rfl rfl rfl hown (fun p hp => by cases hp)
      fun s hs _ => ?_
    rw [List.mem_singleton.mp hs]
    exact ReplyTarget.client hpending rfl

theorem ServerStep.accounted (h : ServerStep db from_addr s_buffer db' out) :
    Accounted db from_addr s_buffer db' out := by
  have hnew : ∀ (state : Option QueryState) (p : Pending), some ⟨from_addr, state⟩ = some p →
      RequestHead s_buffer → (∃ id' q, db.pending id' = some q ∧ p.client_sock = q.client_sock) ∨
        RequestHead s_buffer ∧ p.client_sock = from_addr := by
    intro state p hp hhead
    cases hp
    exact Or.inr ⟨hhead, rfl⟩
  cases h with
  | response hhead hread => exact accounted_response hhead hread
  | info hhead hread hstep => exact accounted_info hhead hread hstep
  | busy hhead => exact Accounted.to_sender rfl (Or.inr hhead) rfl rfl rfl
  | refuseWrite hhead => exact Accounted.to_sender rfl (Or.inr hhead) rfl rfl rfl
  | @write host msg hhead hfree hsome hhost hmsg =>
    refine Accounted.of_update (toInt db.current_request) (some ⟨from_addr, none⟩) rfl rfl rfl
      (Or.inr (Or.inr ⟨Or.inr hhead, rfl⟩)) (fun p hp => hnew _ p hp (Or.inr hhead))
      fun s hs hreply => ?_
    rw [List.mem_singleton.mp hs] at hreply
    rcases hmsg with ⟨d, -, rfl⟩ | ⟨d, -, rfl⟩ | ⟨-, d, -, rfl⟩
    · exact hreply.elim
    · exact hreply.elim
    · exact hreply.elim
  | refuseQuery hhead =>
    refine Accounted.to_sender ?_ (Or.inl hhead) ?_ ?_ ?_
    all_goals rfl
  | @query host d hhead =>
    refine Accounted.of_update (toInt db.current_request)
      (some ⟨from_addr, some (QueryState.start d.fields)⟩) rfl rfl rfl
      (Or.inr (Or.inr ⟨Or.inl hhead, rfl⟩)) (fun p hp => hnew _ p hp (Or.inl hhead))
      fun s hs hreply => ?_
    rw [List.mem_singleton.mp hs] at hreply
    exact hreply.elim
  | register _ => exact Accounted.of_pending rfl (fun s hs => by simp at hs) fun _ => Or.inr rfl
  | ignore _ => exact Accounted.of_pending rfl (fun s hs => by simp at hs) id

theorem IsReply.target {request_id : ℤ} {message : Str} {reply : List Send}
    (h : IsReply db request_id message reply) (hserver : db.server = false)
    (hhead : RequestHead s_buffer) : ∀ s ∈ reply, ReplyTarget db from_addr s_buffer s.host := by
  intro s hs
  rcases h with ⟨-, rfl⟩ | ⟨-, host, hhost, rfl⟩
  · simp at hs
  · rw [List.mem_singleton.mp hs]
    exact ReplyTarget.server hserver hhead (hostAt_zero_iff.mp hhost)

/-- A repository answers a `C` with reports to its sender and one answer to the server. -/
theorem StoreStep.replies {m : NodeMsg} {hosts : List Host}
    (h : StoreStep db from_addr m hosts db' out) : ∀ s ∈ out, s.msg.IsReply →
      s.host = from_addr ∨ m.request_id ≠ 0 ∧ db.repositories.head? = some s.host := by
  intro s hs hkind
  cases h with
  | failed hreport =>
    obtain ⟨what, rfl⟩ := hreport
    rw [List.mem_singleton.mp hs]
    exact Or.inl rfl
  | @stored storage message out reply hloop hreply =>
    rcases List.mem_append.mp hs with hs | hs
    · -- of the loop's messages only the reports are replies
      cases hspreads : s.msg.spreads with
      | true =>
        obtain ⟨host, msg⟩ := s
        cases msg <;> first | exact hkind.elim | cases hspreads
      | false =>
        obtain ⟨what, rfl⟩ := hloop.reports s hs hspreads
        exact Or.inl rfl
    · rcases hreply with ⟨-, rfl⟩ | ⟨hid, host, hhost, rfl⟩
      · simp at hs
      · rw [List.mem_singleton.mp hs]
        exact Or.inr ⟨hid, hostAt_zero_iff.mp hhost⟩

theorem StoreStep.frame {m : NodeMsg} {hosts : List Host}
    (h : StoreStep db from_addr m hosts db' out) : db'.pending = db.pending ∧
      db'.server = db.server ∧ db'.repository = db.repository := by
  cases h with
  | failed _ => exact ⟨rfl, rfl, rfl⟩
  | stored _ _ => exact ⟨rfl, rfl, rfl⟩

theorem RepositoryStep.accounted (hserver : db.server = false)
    (h : RepositoryStep db from_addr s_buffer db' out) :
    Accounted db from_addr s_buffer db' out := by
  cases h with
  | response hhead hread => exact accounted_response hhead hread
  | info hhead hread hstep => exact accounted_info hhead hread hstep
  | busy hhead => exact Accounted.to_sender rfl (Or.inr hhead) rfl rfl rfl
  | node hhead hread hhosts hstep =>
    have hrequest : RequestHead s_buffer := Or.inr (Or.inl hhead)
    obtain ⟨hpending, hserver', hrepo⟩ := hstep.frame
    refine Accounted.of_pending hpending (fun s hs hkind => ?_) fun h => by rwa [hserver', hrepo]
    rcases hstep.replies s hs hkind with hfrom | ⟨-, hhost⟩
    · exact ReplyTarget.sender hrequest hfrom
    · exact ReplyTarget.server hserver hrequest hhost
  | query hhead _ hhost =>
    refine Accounted.of_pending rfl (fun s hs _ => ?_) id
    rw [List.mem_singleton.mp hs]
    exact ReplyTarget.server hserver (Or.inl hhead) (hostAt_zero_iff.mp hhost)
  | update hhead _ hhost =>
    refine Accounted.of_pending rfl (fun s hs _ => ?_) id
    rw [List.mem_singleton.mp hs]
    exact ReplyTarget.server hserver (Or.inr (Or.inr (Or.inl hhead))) (hostAt_zero_iff.mp hhost)
  | delete hhead hread hhosts hreverse hreply =>
    refine Accounted.of_pending rfl (fun s hs hkind => ?_) id
    rcases List.mem_append.mp hs with hs | hs
    · rcases hreverse with ⟨-, rfl⟩ | ⟨-, -, host, -, rfl⟩
      · simp at hs
      · rw [List.mem_singleton.mp hs] at hkind
        exact hkind.elim
    · exact hreply.target hserver (Or.inr (Or.inr (Or.inr hhead))) s hs
  | register _ => exact Accounted.of_pending rfl (fun s hs => by simp at hs) fun _ => Or.inr rfl
  | ignore _ => exact Accounted.of_pending rfl (fun s hs => by simp at hs) id

theorem accounted_of_runConnection {throws : ℕ → Option Str}
    (hloops : db.server = true ∨ db.repository = true)
    (h : runConnection throws db from_addr s_buffer = .ok (db', out)) :
    Accounted db from_addr s_buffer db' out := by
  cases hserver : db.server with
  | true => exact (serverStep_of_runConnection hserver h).accounted
  | false =>
    have hrepo : db.repository = true := hloops.resolve_left (by simp [hserver])
    exact (repositoryStep_of_runConnection hserver hrepo h).accounted hserver

end Accounted

/-! ## Processes in the loop -/

/-- A process that enters the loop: nothing is pending. -/
structure Process.Starting (db : Process) : Prop where
  loops : db.server = true ∨ db.repository = true
  pending : ∀ id, db.pending id = none

/-- The state after the strings `received`: every entry of `pending` is of a host that asked. -/
structure Process.After (received : List Received) (db : Process) : Prop where
  loops : db.server = true ∨ db.repository = true
  clients : ∀ id p, db.pending id = some p → Asked received p.client_sock

section After

variable {received : List Received} {db db' : Process} {e : Received} {host : Host}

theorem Asked.append (h : Asked received host) (e : Received) : Asked (received ++ [e]) host := by
  obtain ⟨e', he', hhead, hhost⟩ := h
  exact ⟨e', List.mem_append_left _ he', hhead, hhost⟩

theorem asked_last (hhead : RequestHead e.s_buffer) : Asked (received ++ [e]) e.from_addr :=
  ⟨e, List.mem_append_right _ (List.mem_singleton_self e), hhead, rfl⟩

theorem Process.After.receive (h : db.After received) (hstep : db.receive e = some db') :
    db'.After (received ++ [e]) := by
  unfold Process.receive at hstep
  cases hrun : runConnection e.throws db e.from_addr e.s_buffer with
  | error fault =>
    rw [hrun] at hstep
    cases hstep
  | ok x =>
    rw [hrun] at hstep
    cases hstep
    have hturn := accounted_of_runConnection h.loops hrun
    refine ⟨hturn.loops h.loops, fun id p hp => ?_⟩
    rcases hturn.clients id p hp with ⟨id', q, hq, hclient⟩ | ⟨hhead, hclient⟩
    · rw [hclient]
      exact (h.clients id' q hq).append e
    · rw [hclient]
      exact asked_last hhead

theorem Process.After.run {es : List Received} :
    ∀ {received : List Received} {db db' : Process}, db.After received →
      run Process.receive db es = some db' → db'.After (received ++ es) := by
  induction es with
  | nil =>
    intro received db db' h hrun
    cases hrun
    rwa [List.append_nil]
  | cons e es ih =>
    intro received db db' h hrun
    obtain ⟨db₁, hstep, hrun⟩ := run_cons.mp hrun
    have hafter := ih (h.receive hstep) hrun
    rwa [List.append_assoc] at hafter

theorem Process.Starting.after (h : db.Starting) : db.After [] where
  loops := h.loops
  clients := by
    intro id p hp
    rw [h.pending id] at hp
    cases hp

end After

/-! ## Branch by branch -/

section Branches

variable {sendable : Host → Prop} {received : List Received} {db db' : Process} {e : Received}
  {out : List Send}

/-- A turn that ends is harmless if its answers to nobody and to the server are. -/
theorem Process.After.harmless (h : db.After received)
    (hrun : runConnection e.throws db e.from_addr e.s_buffer = .ok (db', out))
    (hgoes : ∀ s ∈ out, s.Goes sendable)
    (hfresh : e.s_buffer.headD 0 = ch 'M' → ∀ m, readResponse e.s_buffer = .ok m →
      db.pending m.request_id = none → Asked (received ++ [e]) Pending.fresh.client_sock)
    (hserver : ∀ s ∈ out, s.msg.IsReply → db.server = false →
      db.repositories.head? = some s.host → Asked (received ++ [e]) s.host) :
    Harmless sendable received db e := by
  have hturn := accounted_of_runConnection h.loops hrun
  refine ⟨db', out, hrun, hgoes, fun s hs hreply => ?_, hturn.others⟩
  cases hturn.replies s hs hreply with
  | sender hhead hhost =>
    rw [hhost]
    exact asked_last hhead
  | client hpending hhost =>
    rw [hhost]
    exact (h.clients _ _ hpending).append e
  | fresh hhead hread hpending hhost =>
    rw [hhost]
    exact hfresh hhead _ hread hpending
  | server hfalse _ hhost => exact hserver s hs hreply hfalse hhost

theorem harmless_response (h : db.After received) (hhead : e.s_buffer.headD 0 = ch 'M') :
    Harmless sendable received db e ↔ ∃ m, ResponseFormat e.s_buffer m ∧
      ResponseReady sendable (received ++ [e]) db m := by
  have hrun : runConnection e.throws db e.from_addr e.s_buffer =
      (do return responseBranch db (← readResponse e.s_buffer)) :=
    runConnection_M hhead
  constructor
  · rintro ⟨db', out, hok, hgoes, hreplies, -⟩
    rw [hrun] at hok
    obtain ⟨m, hm, hok⟩ := bind_eq_ok.mp hok
    cases hok
    refine ⟨m, readResponse_iff.mp hm, ?_, hgoes _ (List.mem_singleton_self _)⟩
    cases hp : db.pending m.request_id with
    | some p => exact Or.inl ⟨p, rfl⟩
    | none =>
      have hreply := hreplies _ (List.mem_singleton_self _) trivial
      simp only [hp] at hreply
      exact Or.inr hreply
  · rintro ⟨m, hm, hknown, hgoes⟩
    have hm' := readResponse_iff.mpr hm
    rw [hm', ok_bind] at hrun
    refine h.harmless hrun (fun s hs => ?_) (fun _ m' hread hnone => ?_) fun s hs hreply _ _ => ?_
    · rwa [List.mem_singleton.mp hs]
    · cases hm'.symm.trans hread
      rcases hknown with ⟨p, hp⟩ | hasked
      · rw [hnone] at hp
        cases hp
      · exact hasked
    · rw [List.mem_singleton.mp hs]
      cases hp : db.pending m.request_id with
      | some p => exact (h.clients _ p hp).append e
      | none =>
        rcases hknown with ⟨p, hp'⟩ | hasked
        · rw [hp] at hp'
          cases hp'
        · exact hasked

theorem next_host_iff {hosts : List Host} {next : Str} :
    (∃ host, Place.next.host hosts next = .ok host) ↔ 2 ≤ hosts.length := by
  unfold Place.host
  rw [Place.index_eq, if_neg (by decide)]
  constructor
  · rintro ⟨host, h⟩
    by_contra h2
    have hone : hosts.length - 1 = 0 := by omega
    unfold indexPlusOne at h
    rw [if_pos hone] at h
    cases h
  · intro h2
    obtain ⟨r, host, hr, -, -, hhost⟩ := indexPlusOne_ok (c := next.headD 0) h2
    rw [hr, ok_bind]
    exact ⟨host, hhost⟩

theorem infoBranch_ready {i : InfoMsg} :
    (∃ db' out, infoBranch db i = .ok (db', out) ∧ ∀ s ∈ out, s.Goes sendable) ↔
      InfoReady sendable db i := by
  constructor
  · rintro ⟨db', out, h, hgoes⟩
    cases infoStep_of_infoBranch h with
    | @complete client st top queue hpending hqueue hname hempty =>
      refine ⟨client, st, top, queue, hpending, hqueue, fun hne => absurd hname hne,
        fun _ _ => hgoes _ (List.mem_singleton_self _), fun _ next rest hnext => ?_⟩
      rw [hempty] at hnext
      cases hnext
    | @next client host st top next queue rest hpending hqueue hname hnext hhost =>
      refine ⟨client, st, top, queue, hpending, hqueue, fun hne => absurd hname hne,
        fun _ hempty => ?_, fun _ next' rest' hnext' => ?_⟩
      · rw [hempty] at hnext
        cases hnext
      · rw [hnext] at hnext'
        cases hnext'
        unfold infoBranch at h
        simp only [hpending, hqueue, hname, if_true, hnext, nextQuery_place] at h
        obtain ⟨s, hs, h⟩ := bind_eq_ok.mp h
        obtain ⟨host', hhost', hs⟩ := bind_eq_ok.mp hs
        cases hs
        cases h
        refine ⟨next_host_iff.mp ⟨_, hhost'⟩, fun host' hhost'' => ?_⟩
        rw [hhost'] at hhost''
        cases hhost''
        exact hgoes _ (List.mem_singleton_self _)
    | @mismatch client st top queue hpending hqueue hname =>
      exact ⟨client, st, top, queue, hpending, hqueue, fun _ => hgoes _ (List.mem_singleton_self _),
        fun hname' => absurd hname' hname, fun hname' => absurd hname' hname⟩
  · rintro ⟨client, st, top, queue, hpending, hqueue, hmismatch, hcomplete, hgoing⟩
    by_cases hname : top.1 = i.nameA
    · cases hnext : (st.advance top queue i).node_queue with
      | nil =>
        refine ⟨_, _, infoBranch_complete hpending hqueue hname hnext, fun s hs => ?_⟩
        rw [List.mem_singleton.mp hs]
        exact hcomplete hname hnext
      | cons next rest =>
        obtain ⟨h2, hgoes⟩ := hgoing hname next rest hnext
        obtain ⟨host, hhost⟩ : ∃ host, Place.next.host db.repositories next.1 = .ok host :=
          next_host_iff.mpr h2
        unfold infoBranch
        simp only [hpending, hqueue, hname, if_true, hnext, nextQuery_place, hhost, ok_bind]
        refine ⟨_, _, rfl, fun s hs => ?_⟩
        rw [List.mem_singleton.mp hs]
        exact hgoes host hhost
    · unfold infoBranch
      simp only [hpending, hqueue, if_neg hname]
      refine ⟨_, _, rfl, fun s hs => ?_⟩
      rw [List.mem_singleton.mp hs]
      exact hmismatch hname

theorem harmless_info (h : db.After received) (hlen : e.s_buffer.length < 2 ^ 63)
    (hhead : e.s_buffer.headD 0 = ch 'I') :
    Harmless sendable received db e ↔ ∃ i, InfoFormat e.s_buffer i ∧ InfoReady sendable db i := by
  have hrun : runConnection e.throws db e.from_addr e.s_buffer =
      (do infoBranch db (← readInfo e.s_buffer)) :=
    runConnection_I hhead
  constructor
  · rintro ⟨db', out, hok, hgoes, -⟩
    rw [hrun] at hok
    obtain ⟨i, hi, hok⟩ := bind_eq_ok.mp hok
    exact ⟨i, (readInfo_iff hlen).mp hi, infoBranch_ready.mp ⟨_, _, hok, hgoes⟩⟩
  · rintro ⟨i, hi, hready⟩
    obtain ⟨db', out, hok, hgoes⟩ := infoBranch_ready.mpr hready
    rw [(readInfo_iff hlen).mpr hi, ok_bind, hok] at hrun
    refine h.harmless hrun hgoes (fun hM => absurd (hhead.symm.trans hM) (by decide))
      fun s hs hreply _ _ => ?_
    cases infoStep_of_infoBranch hok with
    | complete hpending =>
      rw [List.mem_singleton.mp hs]
      exact (h.clients _ _ hpending).append e
    | next hpending =>
      rw [List.mem_singleton.mp hs] at hreply
      exact hreply.elim
    | mismatch hpending =>
      rw [List.mem_singleton.mp hs]
      exact (h.clients _ _ hpending).append e

theorem Process.After.harmless_accept (h : db.After received) (hserver : db.server = true)
    (hM : e.s_buffer.headD 0 ≠ ch 'M') (p : Place) {index : UInt8 → ℕ → Result ℤ}
    (hp : ∀ b size, p.index b size = do index (← charAt b 0) size)
    (hindex : ∀ c n, index c n = indexPlusOne c n) {db₁ : Process}
    (hrepos : db₁.repositories = db.repositories) {b : Str} {request_id : ℤ}
    {state : Option QueryState} {msg : Msg}
    (hrun : runConnection e.throws db e.from_addr e.s_buffer =
      accept index db₁ e.from_addr b request_id state msg) :
    Harmless sendable received db e ↔
      AcceptReady sendable db e.from_addr p b request_id msg := by
  by_cases h2 : 2 ≤ db.repositories.length
  · obtain ⟨r, host, hr, -, hget, hhost⟩ := indexPlusOne_ok (c := b.headD 0) h2
    have hplace : p.host db.repositories b = .ok host := by
      unfold Place.host
      rw [hp, charAt_zero_ok, ok_bind, hindex, hr, ok_bind]
      exact hhost
    rw [accept_place p hp (hrepos ▸ h2), hrepos, hplace, ok_bind] at hrun
    constructor
    · rintro ⟨db', out, hok, hgoes, -⟩
      rw [hrun] at hok
      cases hok
      refine ⟨fun hfew => absurd hfew (by omega), fun _ host' hhost' => ?_⟩
      rw [hplace] at hhost'
      cases hhost'
      exact hgoes _ (List.mem_singleton_self _)
    · rintro ⟨-, hgoes⟩
      refine h.harmless hrun (fun s hs => ?_) (fun h' => absurd h' hM) fun s _ _ hfalse _ => ?_
      · rw [List.mem_singleton.mp hs]
        exact hgoes h2 host hplace
      · rw [hserver] at hfalse
        cases hfalse
  · unfold accept at hrun
    rw [hrepos, if_pos (by omega)] at hrun
    constructor
    · rintro ⟨db', out, hok, hgoes, -⟩
      rw [hrun] at hok
      cases hok
      exact ⟨fun _ => hgoes _ (List.mem_singleton_self _), fun hmany => absurd hmany h2⟩
    · rintro ⟨hgoes, -⟩
      refine h.harmless hrun (fun s hs => ?_) (fun h' => absurd h' hM) fun s _ _ hfalse _ => ?_
      · rw [List.mem_singleton.mp hs]
        exact hgoes (by omega)
      · rw [hserver] at hfalse
        cases hfalse

theorem replyTo_ready {request_id : ℤ} {message : Str} :
    (∃ reply, replyTo db request_id message = .ok reply ∧ (∀ s ∈ reply, s.Goes sendable) ∧
        ∀ s ∈ reply, s.msg.IsReply → Asked received s.host) ↔
      (request_id ≠ 0 → ServerReady sendable received db (.response ⟨message, request_id⟩)) := by
  unfold replyTo
  by_cases hzero : request_id = 0
  · rw [if_pos hzero]
    exact ⟨fun _ h => absurd hzero h, fun _ => ⟨_, rfl, by simp, by simp⟩⟩
  · rw [if_neg hzero, forall_prop_of_true hzero]
    constructor
    · rintro ⟨reply, h, hgoes, hasked⟩
      obtain ⟨host, hhost, h⟩ := bind_eq_ok.mp h
      cases h
      exact ⟨host, hostAt_zero_iff.mp hhost, hasked _ (List.mem_singleton_self _) trivial,
        hgoes _ (List.mem_singleton_self _)⟩
    · rintro ⟨host, hhost, hasked, hgoes⟩
      rw [hostAt_zero_iff.mpr hhost, ok_bind]
      refine ⟨_, rfl, fun s hs => ?_, fun s hs _ => ?_⟩
      · rwa [List.mem_singleton.mp hs]
      · rwa [List.mem_singleton.mp hs]

theorem Process.After.harmless_server (h : db.After received) (hM : e.s_buffer.headD 0 ≠ ch 'M')
    {msg : Msg} (hreply : msg.IsReply)
    (hrun : runConnection e.throws db e.from_addr e.s_buffer =
      (do return (db, [⟨← hostAt db.repositories 0, msg⟩]))) :
    Harmless sendable received db e ↔ ServerReady sendable (received ++ [e]) db msg := by
  constructor
  · rintro ⟨db', out, hok, hgoes, hreplies, -⟩
    rw [hrun] at hok
    obtain ⟨host, hhost, hok⟩ := bind_eq_ok.mp hok
    cases hok
    exact ⟨host, hostAt_zero_iff.mp hhost, hreplies _ (List.mem_singleton_self _) hreply,
      hgoes _ (List.mem_singleton_self _)⟩
  · rintro ⟨host, hhost, hasked, hgoes⟩
    rw [hostAt_zero_iff.mpr hhost, ok_bind] at hrun
    refine h.harmless hrun (fun s hs => ?_) (fun h' => absurd h' hM) fun s hs _ _ _ => ?_
    · rwa [List.mem_singleton.mp hs]
    · rwa [List.mem_singleton.mp hs]

theorem Process.After.harmless_busy (h : db.After received) (hhead : WriteHead e.s_buffer)
    (hbusy : db.cud_blocking = true) :
    Harmless sendable received db e ↔ sendable e.from_addr := by
  have hrun := server_busy e.throws e.from_addr hbusy hhead
  constructor
  · rintro ⟨db', out, hok, hgoes, -⟩
    rw [hrun] at hok
    cases hok
    exact (hgoes _ (List.mem_singleton_self _)).host
  · intro hsendable
    refine h.harmless hrun (fun s hs => ?_) (fun hM => ?_) fun s hs _ _ _ => ?_
    · rw [List.mem_singleton.mp hs]
      exact ⟨show (Msg.response ⟨busyText, 0⟩).NoOverrun by decide, hsendable⟩
    · rcases hhead with hhead | hhead | hhead
      all_goals exact absurd (hhead.symm.trans hM) (by decide)
    · rw [List.mem_singleton.mp hs]
      exact asked_last (Or.inr hhead)

theorem storeNode_ready {throws : ℕ → Option Str} {from_addr : Host} {m : NodeMsg}
    {hosts : List Host} (hfrom : Asked received from_addr) :
    (∃ db' out, storeNode throws db from_addr m hosts = .ok (db', out) ∧
        (∀ s ∈ out, s.Goes sendable) ∧ ∀ s ∈ out, s.msg.IsReply → Asked received s.host) ↔
      StoreReady sendable throws received db from_addr m hosts := by
  unfold StoreReady
  unfold storeNode
  cases hthrow : throws 0 with
  | some what =>
    constructor
    · rintro ⟨db', out, h, hgoes, -⟩
      cases h
      refine ⟨fun what' hwhat => ?_, fun hnone => by cases hnone⟩
      cases hwhat
      exact hgoes _ (List.mem_singleton_self _)
    · rintro ⟨hreport, -⟩
      refine ⟨_, _, rfl, fun s hs => ?_, fun s hs _ => ?_⟩
      · rw [List.mem_singleton.mp hs]
        exact hreport what rfl
      · rwa [List.mem_singleton.mp hs]
  | none =>
    simp only [forall_const, reduceCtorEq, false_implies, true_and]
    constructor
    · rintro ⟨db', out, h, hgoes, hasked⟩
      obtain ⟨⟨storage, message, out₁⟩, hy, h⟩ := bind_eq_ok.mp h
      obtain ⟨reply, hreply, h⟩ := bind_eq_ok.mp h
      cases h
      obtain ⟨hloop, hgoes⟩ := List.forall_mem_append.mp hgoes
      refine ⟨storeRelations_ready.mp ⟨_, _, _, hy, hloop⟩, ?_⟩
      rw [← storeRelations_message hy]
      exact replyTo_ready.mp ⟨reply, hreply, hgoes,
        fun s hs => hasked s (List.mem_append_right _ hs)⟩
    · rintro ⟨hrel, hid⟩
      obtain ⟨storage, message, out, hy, hloop⟩ := storeRelations_ready.mpr hrel
      rw [← storeRelations_message hy] at hid
      obtain ⟨reply, hreply, hgoes, hasked⟩ := replyTo_ready.mpr hid
      rw [hy, ok_bind]
      simp only
      rw [hreply, ok_bind]
      refine ⟨_, _, rfl, List.forall_mem_append.mpr ⟨hloop, hgoes⟩, fun s hs hkind => ?_⟩
      rcases List.mem_append.mp hs with hs | hs
      · -- of the loop's messages only the reports are replies
        cases hspreads : s.msg.spreads with
        | true =>
          obtain ⟨host, msg⟩ := s
          cases msg <;> first | exact hkind.elim | cases hspreads
        | false =>
          obtain ⟨what, rfl⟩ := (looped_of_storeRelations hy).reports s hs hspreads
          exact hfrom
      · exact hasked s hs hkind

/-- A branch reads its string, and goes on apart on the server and on a repository. -/
theorem harmless_of_read {β : Type} {read : Result (Decoded β)}
    {rest : Decoded β → Result (Process × List Send)} {P Q : Decoded β → Prop}
    (hrun : runConnection e.throws db e.from_addr e.s_buffer = read >>= rest)
    (hserver : ∀ d, read = .ok d → db.server = true → (Harmless sendable received db e ↔ P d))
    (hrepo : ∀ d, read = .ok d → db.server = false → (Harmless sendable received db e ↔ Q d)) :
    Harmless sendable received db e ↔
      ∃ d, read = .ok d ∧ (db.server = true → P d) ∧ (db.server = false → Q d) := by
  constructor
  · intro hturn
    obtain ⟨db', out, hok, -⟩ := id hturn
    rw [hrun] at hok
    obtain ⟨d, hd, -⟩ := bind_eq_ok.mp hok
    exact ⟨d, hd, fun h => (hserver d hd h).mp hturn, fun h => (hrepo d hd h).mp hturn⟩
  · rintro ⟨d, hd, hP, hQ⟩
    cases h : db.server with
    | true => exact (hserver d hd h).mpr (hP h)
    | false => exact (hrepo d hd h).mpr (hQ h)

theorem NodeFormat.length_lt {s_buffer : Str} {m : NodeMsg} {header r : Str}
    (h : NodeFormat s_buffer m header r) : (m.nameA ++ header).length < 2 ^ 64 := by
  obtain ⟨c₁, c₂, r₁, r₂, r₃, -, hnamed, -⟩ := h
  exact (length_named hnamed (by norm_num)).2

theorem harmless_node (h : db.After received) (hlen : e.s_buffer.length < 2 ^ 63)
    (hhead : e.s_buffer.headD 0 = ch 'C') (hfree : db.cud_blocking = false) :
    Harmless sendable received db e ↔ ∃ m header r, NodeFormat e.s_buffer m header r ∧
      (db.server = true → AcceptReady sendable db e.from_addr .create (m.nameA ++ header ++ r)
        m.request_id (.node { m with
          request_id := db.current_request, master_repos := db.repositories })) ∧
      (db.server = false → NodeReady sendable (received ++ [e]) db e m r) := by
  have hM : e.s_buffer.headD 0 ≠ ch 'M' := by
    rw [hhead]
    decide
  have hfrom : Asked (received ++ [e]) e.from_addr := asked_last (Or.inr (Or.inl hhead))
  have hrun : runConnection e.throws db e.from_addr e.s_buffer =
      nodeBranch e.throws db e.from_addr e.s_buffer :=
    runConnection_C hhead
  unfold nodeBranch at hrun
  rw [hfree, if_neg Bool.false_ne_true] at hrun
  refine (harmless_of_read hrun
    (P := fun d => AcceptReady sendable db e.from_addr .create d.s_buffer d.fields.request_id
      (.node { d.fields with
        request_id := db.current_request, master_repos := db.repositories }))
    (Q := fun d => ∃ hosts rest, takeHosts d.s d.s_buffer = .ok (hosts, rest) ∧
      StoreReady sendable e.throws (received ++ [e]) db e.from_addr d.fields hosts)
    (fun d hd hserver => ?_) fun d hd hserver => ?_).trans ?_
  · rw [hd, ok_bind, if_pos hserver] at hrun
    exact h.harmless_accept hserver hM .create (fun _ _ => rfl) (fun _ _ => rfl) rfl hrun
  · rw [hd, ok_bind, if_neg (by simp [hserver]),
      if_pos (h.loops.resolve_left (by simp [hserver]))] at hrun
    constructor
    · rintro ⟨db', out, hok, hgoes, hreplies, -⟩
      rw [hrun] at hok
      obtain ⟨⟨hosts, rest⟩, hhosts, hok⟩ := bind_eq_ok.mp hok
      exact ⟨hosts, rest, hhosts, (storeNode_ready hfrom).mp ⟨db', out, hok, hgoes, hreplies⟩⟩
    · rintro ⟨hosts, rest, hhosts, hstore⟩
      obtain ⟨db', out, hok, hgoes, hasked⟩ := (storeNode_ready hfrom).mpr hstore
      rw [hhosts, ok_bind] at hrun
      exact h.harmless (hrun.trans hok) hgoes (fun h' => absurd h' hM)
        fun s hs hreply _ _ => hasked s hs hreply
  · -- the string, and the host list behind it, in their format
    constructor
    · rintro ⟨d, hd, haccept, hstore⟩
      obtain ⟨header, r, hformat, hs, hbuffer⟩ := (readNode_iff hlen).mp hd
      refine ⟨d.fields, header, r, hformat, hbuffer ▸ haccept, fun hserver => ?_⟩
      obtain ⟨hosts, rest, hhosts, hready⟩ := hstore hserver
      rw [hbuffer] at hhosts
      obtain ⟨r', -, hhosts'⟩ := (Format.behind_hosts hs hformat.length_lt).ok hhosts
      exact ⟨hosts, r', hhosts', hready⟩
    · rintro ⟨m, header, r, hformat, haccept, hready⟩
      refine ⟨⟨m, (m.nameA ++ header).length, m.nameA ++ header ++ r⟩,
        (readNode_iff hlen).mpr ⟨header, r, hformat, rfl, rfl⟩, haccept, fun hserver => ?_⟩
      obtain ⟨hosts, r', hhosts, hstore⟩ := hready hserver
      exact ⟨hosts, _, (Format.behind_hosts rfl hformat.length_lt).take_ok hhosts, hstore⟩

theorem harmless_query (h : db.After received) (hlen : e.s_buffer.length < 2 ^ 63)
    (hhead : e.s_buffer.headD 0 = ch 'R') :
    Harmless sendable received db e ↔ ∃ m header r, QueryFormat e.s_buffer m header r ∧
      (db.server = true → AcceptReady sendable db e.from_addr .query (m.nameA ++ header ++ r)
        m.request_id (.query { m with request_id := db.current_request })) ∧
      (db.server = false →
        ServerReady sendable (received ++ [e]) db (.info (queryReply db.storage m))) := by
  have hM : e.s_buffer.headD 0 ≠ ch 'M' := by
    rw [hhead]
    decide
  have hrun : runConnection e.throws db e.from_addr e.s_buffer =
      queryBranch db e.from_addr e.s_buffer :=
    runConnection_R hhead
  unfold queryBranch at hrun
  refine (harmless_of_read hrun
    (P := fun d => AcceptReady sendable db e.from_addr .query d.s_buffer d.fields.request_id
      (.query { d.fields with request_id := db.current_request }))
    (Q := fun d => ServerReady sendable (received ++ [e]) db
      (.info (queryReply db.storage d.fields)))
    (fun d hd hserver => ?_) fun d hd hserver => ?_).trans ?_
  · rw [hd, ok_bind, if_pos hserver] at hrun
    have hrepos : ({ db with cud_blocking := !decide (db.repositories.length < 2) } :
        Process).repositories = db.repositories := rfl
    exact h.harmless_accept hserver hM .query (fun _ _ => rfl) (fun _ _ => rfl) hrepos hrun
  · rw [hd, ok_bind, if_neg (by simp [hserver]),
      if_pos (h.loops.resolve_left (by simp [hserver]))] at hrun
    exact h.harmless_server hM trivial hrun
  · constructor
    · rintro ⟨d, hd, haccept, hready⟩
      obtain ⟨header, r, hformat, -, hbuffer⟩ := (readQuery_iff hlen).mp hd
      exact ⟨d.fields, header, r, hformat, hbuffer ▸ haccept, hready⟩
    · rintro ⟨m, header, r, hformat, haccept, hready⟩
      exact ⟨⟨m, (m.nameA ++ header).length, m.nameA ++ header ++ r⟩,
        (readQuery_iff hlen).mpr ⟨header, r, hformat, rfl, rfl⟩, haccept, hready⟩

theorem harmless_update (h : db.After received) (hlen : e.s_buffer.length < 2 ^ 63)
    (hhead : e.s_buffer.headD 0 = ch 'U') (hfree : db.cud_blocking = false) :
    Harmless sendable received db e ↔ ∃ m r, UpdateFormat e.s_buffer m r ∧
      (db.server = true → AcceptReady sendable db e.from_addr .update (m.nameA ++ r) m.request_id
        (.update { m with request_id := db.current_request })) ∧
      (db.server = false → ServerReady sendable (received ++ [e]) db
        (.response ⟨updatedText, m.request_id⟩)) := by
  have hM : e.s_buffer.headD 0 ≠ ch 'M' := by
    rw [hhead]
    decide
  have hrun : runConnection e.throws db e.from_addr e.s_buffer =
      updateBranch db e.from_addr e.s_buffer :=
    runConnection_U hhead
  unfold updateBranch at hrun
  rw [hfree, if_neg Bool.false_ne_true] at hrun
  refine (harmless_of_read hrun
    (P := fun d => AcceptReady sendable db e.from_addr .update d.s_buffer d.fields.request_id
      (.update { d.fields with request_id := db.current_request }))
    (Q := fun d => ServerReady sendable (received ++ [e]) db
      (.response ⟨updatedText, d.fields.request_id⟩))
    (fun d hd hserver => ?_) fun d hd hserver => ?_).trans ?_
  · rw [hd, ok_bind, if_pos hserver] at hrun
    exact h.harmless_accept hserver hM .update (fun _ _ => rfl) indexIncremented_eq rfl hrun
  · rw [hd, ok_bind, if_neg (by simp [hserver]),
      if_pos (h.loops.resolve_left (by simp [hserver]))] at hrun
    exact h.harmless_server hM trivial hrun
  · constructor
    · rintro ⟨d, hd, haccept, hready⟩
      obtain ⟨r, hformat, -, hbuffer⟩ := (readUpdate_iff hlen).mp hd
      exact ⟨d.fields, r, hformat, hbuffer ▸ haccept, hready⟩
    · rintro ⟨m, r, hformat, haccept, hready⟩
      exact ⟨⟨m, m.nameA.length, m.nameA ++ r⟩,
        (readUpdate_iff hlen).mpr ⟨r, hformat, rfl, rfl⟩, haccept, hready⟩

theorem DeleteFormat.length_lt {s_buffer : Str} {m : DeleteMsg} {r : Str}
    (h : DeleteFormat s_buffer m r) : m.nameA.length < 2 ^ 64 := by
  obtain ⟨flag, r₁, r₂, r₃, -, -, hnamed, -⟩ := h
  have hname : m.nameA.length ≤ 999 := hnamed.short
  omega

theorem harmless_delete (h : db.After received) (hlen : e.s_buffer.length < 2 ^ 63)
    (hhead : e.s_buffer.headD 0 = ch 'D') (hfree : db.cud_blocking = false) :
    Harmless sendable received db e ↔ ∃ m r, DeleteFormat e.s_buffer m r ∧
      (db.server = true → AcceptReady sendable db e.from_addr .delete (m.nameA ++ r) m.request_id
        (.delete { m with request_id := db.current_request, master_repos := db.repositories })) ∧
      (db.server = false → DeleteReady sendable (received ++ [e]) db m r) := by
  have hM : e.s_buffer.headD 0 ≠ ch 'M' := by
    rw [hhead]
    decide
  have hrun : runConnection e.throws db e.from_addr e.s_buffer =
      deleteBranch db e.from_addr e.s_buffer :=
    runConnection_D hhead
  unfold deleteBranch at hrun
  rw [hfree, if_neg Bool.false_ne_true] at hrun
  refine (harmless_of_read hrun
    (P := fun d => AcceptReady sendable db e.from_addr .delete d.s_buffer d.fields.request_id
      (.delete { d.fields with
        request_id := db.current_request, master_repos := db.repositories }))
    (Q := fun d => ∃ hosts rest, takeHosts d.s d.s_buffer = .ok (hosts, rest) ∧
      RemoveReady sendable (received ++ [e]) db d.fields hosts)
    (fun d hd hserver => ?_) fun d hd hserver => ?_).trans ?_
  · rw [hd, ok_bind, if_pos hserver] at hrun
    exact h.harmless_accept hserver hM .delete (fun _ _ => rfl) indexIncremented_eq rfl hrun
  · rw [hd, ok_bind, if_neg (by simp [hserver]),
      if_pos (h.loops.resolve_left (by simp [hserver]))] at hrun
    constructor
    · rintro ⟨db', out, hok, hgoes, hreplies, -⟩
      rw [hrun] at hok
      obtain ⟨⟨hosts, rest⟩, hhosts, hok⟩ := bind_eq_ok.mp hok
      obtain ⟨reverse, hreverse, hok⟩ := bind_eq_ok.mp hok
      obtain ⟨reply, hreply, hok⟩ := bind_eq_ok.mp hok
      cases hok
      obtain ⟨hfirst, hgoes⟩ := List.forall_mem_append.mp hgoes
      exact ⟨hosts, rest, hhosts, reverseDelete_ready.mp ⟨reverse, hreverse, hfirst⟩,
        replyTo_ready.mp
          ⟨reply, hreply, hgoes, fun s hs => hreplies s (List.mem_append_right _ hs)⟩⟩
    · rintro ⟨hosts, rest, hhosts, hobject, hid⟩
      obtain ⟨reverse, hreverse, hfirst⟩ := reverseDelete_ready.mpr hobject
      obtain ⟨reply, hreply, hgoes, hasked⟩ := replyTo_ready.mpr hid
      rw [hhosts, ok_bind] at hrun
      simp only at hrun
      rw [hreverse, ok_bind, hreply, ok_bind] at hrun
      refine h.harmless hrun (List.forall_mem_append.mpr ⟨hfirst, hgoes⟩) (fun h' => absurd h' hM)
        fun s hs hkind _ _ => ?_
      rcases List.mem_append.mp hs with hs | hs
      · rcases isReverseDelete_of_reverseDelete hreverse with ⟨-, rfl⟩ | ⟨-, -, host, -, rfl⟩
        · simp at hs
        · rw [List.mem_singleton.mp hs] at hkind
          exact hkind.elim
      · exact hasked s hs hkind
  · -- the string, and the host list behind it, in their format
    constructor
    · rintro ⟨d, hd, haccept, hremove⟩
      obtain ⟨r, hformat, hs, hbuffer⟩ := (readDelete_iff hlen).mp hd
      refine ⟨d.fields, r, hformat, hbuffer ▸ haccept, fun hserver => ?_⟩
      obtain ⟨hosts, rest, hhosts, hready⟩ := hremove hserver
      rw [hbuffer] at hhosts
      obtain ⟨r', -, hhosts'⟩ := (Format.behind_hosts hs hformat.length_lt).ok hhosts
      exact ⟨hosts, r', hhosts', hready⟩
    · rintro ⟨m, r, hformat, haccept, hready⟩
      refine ⟨⟨m, m.nameA.length, m.nameA ++ r⟩,
        (readDelete_iff hlen).mpr ⟨r, hformat, rfl, rfl⟩, haccept, fun hserver => ?_⟩
      obtain ⟨hosts, r', hhosts, hremove⟩ := hready hserver
      exact ⟨hosts, _, (Format.behind_hosts rfl hformat.length_lt).take_ok hhosts, hremove⟩

end Branches

/-- The turns on all other strings: a registration, and strings that no branch is for. -/
theorem harmless_other {sendable : Host → Prop} {received : List Received} {db : Process}
    {e : Received} (h : db.After received)
    (hhead : e.s_buffer.headD 0 ∉ [ch 'M', ch 'I', ch 'C', ch 'R', ch 'U', ch 'D']) :
    Harmless sendable received db e := by
  simp only [List.mem_cons, List.not_mem_nil, or_false, not_or] at hhead
  obtain ⟨hM, hI, hC, hR, hU, hD⟩ := hhead
  have hrun : ∃ db', runConnection e.throws db e.from_addr e.s_buffer = .ok (db', []) := by
    unfold runConnection
    simp only [if_neg hM, if_neg hI, if_neg hC, if_neg hR, if_neg hU, if_neg hD]
    split_ifs
    · exact ⟨_, rfl⟩
    · exact ⟨_, rfl⟩
  obtain ⟨db', hrun⟩ := hrun
  exact h.harmless hrun (by simp) (fun hM' => absurd hM' hM) (by simp)

/-- **Harmless turns.** In every state that a process reaches, whatever it has received, a string
has a harmless turn exactly if it is well formed. -/
theorem harmless_iff {sendable : Host → Prop} {received : List Received} {db : Process}
    {e : Received} (h : db.After received) (hlen : e.s_buffer.length < 2 ^ 63) :
    Harmless sendable received db e ↔ Wellformed sendable (received ++ [e]) db e := by
  constructor
  · intro hturn
    exact ⟨fun hM => (harmless_response h hM).mp hturn,
      fun hI => (harmless_info h hlen hI).mp hturn,
      fun hwrite hbusy => (h.harmless_busy hwrite hbusy).mp hturn,
      fun hC hfree => (harmless_node h hlen hC hfree).mp hturn,
      fun hR => (harmless_query h hlen hR).mp hturn,
      fun hU hfree => (harmless_update h hlen hU hfree).mp hturn,
      fun hD hfree => (harmless_delete h hlen hD hfree).mp hturn⟩
  · intro hformat
    by_cases hM : e.s_buffer.headD 0 = ch 'M'
    · exact (harmless_response h hM).mpr (hformat.response hM)
    by_cases hI : e.s_buffer.headD 0 = ch 'I'
    · exact (harmless_info h hlen hI).mpr (hformat.info hI)
    by_cases hR : e.s_buffer.headD 0 = ch 'R'
    · exact (harmless_query h hlen hR).mpr (hformat.query hR)
    by_cases hwrite : WriteHead e.s_buffer
    · by_cases hbusy : db.cud_blocking = true
      · exact (h.harmless_busy hwrite hbusy).mpr (hformat.busy hwrite hbusy)
      have hfree := Bool.eq_false_iff.mpr hbusy
      rcases hwrite with hC | hU | hD
      · exact (harmless_node h hlen hC hfree).mpr (hformat.node hC hfree)
      · exact (harmless_update h hlen hU hfree).mpr (hformat.update hU hfree)
      · exact (harmless_delete h hlen hD hfree).mpr (hformat.delete hD hfree)
    refine harmless_other h ?_
    simp only [WriteHead, not_or] at hwrite
    obtain ⟨hC, hU, hD⟩ := hwrite
    simp only [List.mem_cons, List.not_mem_nil, hM, hI, hC, hR, hU, hD, or_self, not_false_eq_true]

/-- **Malformed traffic.** A datagram is harmless exactly if `sendto` takes its sender's address, it
is neither empty nor as long as the buffer and begins with three numbers; a string has a harmless
turn exactly if it is well formed, whatever addresses `sendto` takes. -/
theorem malformed_harmless_iff (sendable : Host → Prop) {db₀ db : Process} (hstart : db₀.Starting)
    {received : List Received} (hrun : run Process.receive db₀ received = some db) {e : Received}
    (hlen : e.s_buffer.length < 2 ^ 63) (r : Rdt.Receiving) (from_addr : Host) (datagram : Str) :
    (Rdt.HarmlessDatagram sendable r from_addr datagram ↔
      sendable from_addr ∧ datagram ≠ [] ∧ datagram.length < Rdt.kMaxPacketSize ∧
        ∀ k < 3, ∃ n, Number (Rdt.tabField k (datagram.takeWhile (· != 0))) n) ∧
    (Harmless sendable received db e ↔ Wellformed sendable (received ++ [e]) db e) :=
  ⟨Rdt.harmlessDatagram_iff, harmless_iff (hstart.after.run hrun) hlen⟩

/-! ### Strings that are and strings that are not -/

theorem starting_launched (self : Host) : (Process.launched self).Starting :=
  ⟨Or.inl rfl, fun _ => rfl⟩

/-- `sendto` refuses port 0. -/
def HasPort (host : Host) : Prop := host.port ≠ 0

instance : DecidablePred HasPort := fun _ => inferInstanceAs (Decidable (_ ≠ _))

/-- A query for the node a. -/
def queryA : QueryMsg := ⟨str "a", 1, false, false, [], 0⟩

/-- A client's query, and the first packet of it. -/
theorem query_harmless : ∃ db,
    run Process.receive (Process.launched (peer 50000)) (registrations 2) = some db ∧
      Rdt.HarmlessDatagram HasPort Rdt.Receiving.start (peer 1)
        (Rdt.packet (Msg.query queryA).buffer 0).toText ∧
      Harmless HasPort (registrations 2) db ⟨peer 1, (Msg.query queryA).buffer, noThrow⟩ := by
  have hrun : run Process.receive (Process.launched (peer 50000)) (registrations 2) =
      some (Process.withPeers 2) := rfl
  obtain ⟨hdatagram, hturn⟩ := malformed_harmless_iff HasPort (starting_launched _) hrun
    (e := ⟨peer 1, (Msg.query queryA).buffer, noThrow⟩) (by decide) Rdt.Receiving.start (peer 1)
    (Rdt.packet (Msg.query queryA).buffer 0).toText
  obtain ⟨header, -, hread⟩ := readQuery_parseNewQuery (m := queryA) (by decide)
  obtain ⟨header', r, hformat, -, hbuffer⟩ := (readQuery_iff (by decide)).mp hread
  refine ⟨_, hrun, hdatagram.mpr ⟨by decide, by decide, by decide +kernel, ?_⟩, hturn.mpr ?_⟩
  · have hparse : ∃ p, Rdt.Packet.parse ((Rdt.packet (Msg.query queryA).buffer 0).toText.takeWhile
        (· != 0)) = .ok p := ⟨Rdt.packet (Msg.query queryA).buffer 0, by decide +kernel⟩
    obtain ⟨p, hp⟩ := hparse
    exact Rdt.Packet.parse_eq_ok hp
  · have hhead : (Msg.query queryA).buffer.headD 0 = ch 'R' := rfl
    have hne : ∀ c : UInt8, ch 'R' ≠ c → (Msg.query queryA).buffer.headD 0 ≠ c :=
      fun c hc => hhead ▸ hc
    have hwrite : ¬ WriteHead (Msg.query queryA).buffer := by
      simp only [WriteHead]
      decide
    -- every registered host has a port
    have hports : ∀ host ∈ (Process.withPeers 2).repositories, HasPort host := by decide
    refine ⟨fun h => absurd h (hne _ (by decide)), fun h => absurd h (hne _ (by decide)),
      fun h => absurd h hwrite, fun h => absurd h (hne _ (by decide)), fun _ => ⟨_, header', r,
        hformat, fun _ => ⟨fun hfew => absurd hfew (by decide), fun _ host hhost => ⟨?_, ?_⟩⟩,
        fun hserver => by cases hserver⟩,
      fun h => absurd h (hne _ (by decide)), fun h => absurd h (hne _ (by decide))⟩
    · exact Msg.Fits.noOverrun (m := .query { queryA with request_id := 1 }) (by decide)
    · obtain ⟨k, -, hhost⟩ := bind_eq_ok.mp hhost
      exact hports host (hostAt_mem hhost)

/-- An `I` for a request that nobody has made. -/
def strayInfo : Received := ⟨peer 1, str "I001b000071", noThrow⟩

/-- An `M` for a request that nobody has made. -/
def strayResponse : Received := ⟨peer 1, str "M000005", noThrow⟩

/-- A `C` with the request id -1. -/
def negativeNode : Received := ⟨peer 1, str "C001a00-01", noThrow⟩

/-- A datagram without a number ends `RecvFrom` with an exception; an `I` with an unknown id
dereferences a null state; an `M` with an unknown id is answered to the address 0.0.0.0:0; and a
negative id overruns `tamano` when a server without repositories answers. -/
theorem malformed_harmful :
    run Process.receive (Process.launched (peer 50000)) (registrations 2) =
        some (Process.withPeers 2) ∧
      ¬ Rdt.HarmlessDatagram HasPort Rdt.Receiving.start (peer 1) (str "a") ∧
      ¬ Harmless HasPort (registrations 2) (Process.withPeers 2) strayInfo ∧
      ¬ Harmless HasPort (registrations 2) (Process.withPeers 2) strayResponse ∧
      ¬ Harmless HasPort [] (Process.launched (peer 50000)) negativeNode := by
  refine ⟨rfl, ?_, ?_, ?_, ?_⟩
  · rintro ⟨-, r', ack, returns, h, -⟩
    have hthrow :
        Rdt.Receiving.start.takeDatagram (peer 1) (str "a") = .error .invalidArgument := by
      decide +kernel
    rw [hthrow] at h
    cases h
  · rintro ⟨db', out, h, -⟩
    have hread : readInfo strayInfo.s_buffer = .ok ⟨str "b", [], [], 7, true⟩ := by decide +kernel
    have hrun : runConnection strayInfo.throws (Process.withPeers 2) strayInfo.from_addr
        strayInfo.s_buffer =
          (do infoBranch (Process.withPeers 2) (← readInfo strayInfo.s_buffer)) :=
      rfl
    rw [hrun, hread, ok_bind] at h
    cases h
  · rintro ⟨db', out, h, -, hreplies, -⟩
    have hread : readResponse strayResponse.s_buffer = .ok ⟨[], 5⟩ := by decide +kernel
    have hrun : runConnection strayResponse.throws (Process.withPeers 2) strayResponse.from_addr
        strayResponse.s_buffer = (do
          return responseBranch (Process.withPeers 2) (← readResponse strayResponse.s_buffer)) :=
      rfl
    rw [hrun, hread, ok_bind] at h
    cases h
    obtain ⟨e, he, hhead, -⟩ := hreplies _ (List.mem_singleton_self _) trivial
    -- nobody has sent a request
    have hno : ∀ e ∈ registrations 2 ++ [strayResponse], ¬ RequestHead e.s_buffer := by
      intro e he
      rcases List.mem_append.mp he with he | he
      · obtain ⟨k, -, rfl⟩ := List.mem_map.mp he
        simp only [RequestHead, WriteHead]
        decide
      · rw [List.mem_singleton.mp he]
        simp only [RequestHead, WriteHead]
        decide
    exact hno e he hhead
  · rintro ⟨db', out, h, hgoes, -⟩
    have hid : (readNode negativeNode.s_buffer).map (fun d => d.fields.request_id) = .ok (-1) := by
      decide +kernel
    have hrun : runConnection negativeNode.throws (Process.launched (peer 50000))
        negativeNode.from_addr negativeNode.s_buffer = nodeBranch negativeNode.throws
          (Process.launched (peer 50000)) negativeNode.from_addr negativeNode.s_buffer := rfl
    rw [hrun, nodeBranch, if_neg (by decide)] at h
    obtain ⟨d, hd, h⟩ := bind_eq_ok.mp h
    cases h
    have hnumbers := (hgoes _ (List.mem_singleton_self _)).numbers
    rw [hd] at hid
    rw [show d.fields.request_id = -1 from Except.ok.inj hid] at hnumbers
    exact absurd hnumbers (by decide +kernel)

end DGDB
