import Mathlib
import DGDB.Exclusion
import DGDB.Storing

/-!
# The replies of a repository to a query

The rows of a node accumulate over the creates and the reverse relations that a repository has
stored, while its reply gives the number of relations and the number of attributes one character
each. Every stored text fits its width, so the reply is read back exactly as long as there are at
most nine rows of either kind.
-/

namespace DGDB

open EventSystem

/-! ## The texts in the tables -/

/-- The texts that a reply takes from the tables fit their widths. -/
structure ShortRows (st : Storage) : Prop where
  attributes : ∀ a ∈ st.attributes, ShortAttribute a
  relations : ∀ r ∈ st.relations, ShortText r.node_name2

namespace ShortRows

variable {st : Storage}

theorem empty : ShortRows Storage.empty := by
  constructor <;> simp [Storage.empty]

theorem store (h : ShortRows st) {m : NodeMsg} (hr : ∀ x ∈ m.relations, ShortText x)
    (ha : ∀ a ∈ m.attributes, ShortAttribute a) {db db' : Process} {from_addr : Host}
    {master_repos : List Host} {out : List Send} (hdb : db.storage = st)
    (hstep : StoreStep db from_addr m master_repos db' out) : ShortRows db'.storage := by
  subst hdb
  cases hstep with
  | failed _ => exact h
  | @stored storage message out reply hloop hreply =>
    obtain ⟨kept, hsub, hrel, -⟩ := hloop.rows
    constructor
    · intro a hmem
      have hmem' : a ∈ storage.attributes := hmem
      rw [hloop.attributes, attributes_storeAttributes, Storage.attributes_insertNode] at hmem'
      rcases List.mem_append.mp hmem' with hold | hnew
      · exact h.attributes a hold
      · obtain ⟨b, hb, rfl⟩ := List.mem_map.mp hnew
        exact ha b hb
    · intro r hmem
      have hmem' : r ∈ storage.relations := hmem
      rw [hrel, relations_storeAttributes, Storage.relations_insertNode] at hmem'
      rcases List.mem_append.mp hmem' with hold | hnew
      · exact h.relations r hold
      · obtain ⟨rel, hrelmem, rfl⟩ := List.mem_map.mp hnew
        exact hr rel (hsub.subset hrelmem)

theorem attributesOf (h : ShortRows st) (name : Str) :
    ∀ a ∈ st.attributesOf name, ShortAttribute a :=
  fun a ha => h.attributes a (List.mem_of_mem_filter ha)

theorem relationsOf (h : ShortRows st) (name : Str) : ∀ x ∈ st.relationsOf name, ShortText x := by
  intro x hx
  exact h.relations ⟨name, x⟩ (Storage.mem_relationsOf.mp hx)

end ShortRows

/-! ## Creates received by a repository -/

section Creates

variable {main : Host} {db db' : Process}

theorem receive_create (hdb : IsRepository main db) (hrows : ShortRows db.storage) {e : Received}
    {m : NodeMsg} (hm : m.Fits) (he : e.s_buffer = (Msg.node m).buffer)
    (h : db.receive e = some db') : IsRepository main db' ∧ ShortRows db'.storage := by
  unfold Process.receive at h
  split at h
  · rename_i db₁ out hok
    cases h
    have hread := readNode_parseNewNode (m := m) hm.name hm.relations_length hm.relations
      hm.attributes_length hm.attributes hm.id
    have hhead : e.s_buffer.headD 0 = ch 'C' := by
      rw [he]
      rfl
    have hne : ∀ c : UInt8, ch 'C' ≠ c → e.s_buffer.headD 0 ≠ c := fun c hc => hhead ▸ hc
    cases repositoryStep_of_runConnection hdb.server hdb.repository hok with
    | node _ hread' hhosts hstep =>
      rw [he] at hread'
      have hd := Except.ok.inj (hread.symm.trans hread')
      subst hd
      refine ⟨?_, hrows.store (m := ⟨m.nameA, m.attributes.map Attribute.wire, m.relations,
        m.request_id, []⟩) hm.relations ?_ rfl hstep⟩
      · cases hstep with
        | failed _ => exact hdb
        | stored _ _ => exact ⟨hdb.server, hdb.repository, hdb.repositories, hdb.free⟩
      · intro a ha
        obtain ⟨b, hb, rfl⟩ := List.mem_map.mp ha
        exact hm.attributes b hb
    | busy _ hbusy => rw [hdb.free] at hbusy; cases hbusy
    | response hhead' _ => exact absurd hhead' (hne _ (by decide))
    | info hhead' _ _ => exact absurd hhead' (hne _ (by decide))
    | query hhead' _ _ => exact absurd hhead' (hne _ (by decide))
    | update hhead' _ _ => exact absurd hhead' (hne _ (by decide))
    | delete hhead' _ _ _ _ => exact absurd hhead' (hne _ (by decide))
    | register hhead' => exact absurd hhead' (hne _ (by decide))
    | ignore hhead' => exact absurd (by rw [hhead]; decide) hhead'
  · cases h

theorem receive_creates {es : List Received}
    (hcreates : ∀ e ∈ es, ∃ m : NodeMsg, m.Fits ∧ e.s_buffer = (Msg.node m).buffer) :
    ∀ {db db' : Process}, IsRepository main db → ShortRows db.storage →
      run Process.receive db es = some db' → IsRepository main db' ∧ ShortRows db'.storage := by
  induction es with
  | nil =>
    intro db db' hdb hrows hrun
    cases hrun
    exact ⟨hdb, hrows⟩
  | cons e es ih =>
    intro db db' hdb hrows hrun
    obtain ⟨db₁, hstep, hrun⟩ := run_cons.mp hrun
    obtain ⟨m, hm, he⟩ := hcreates e List.mem_cons_self
    obtain ⟨hdb₁, hrows₁⟩ := receive_create hdb hrows hm he hstep
    exact ih (fun e' he' => hcreates e' (List.mem_cons_of_mem _ he')) hdb₁ hrows₁ hrun

end Creates

/-! ## The reply on the wire -/

/-- Whatever it reads, the server's `I` branch reads at most nine rows of either kind. -/
theorem readInfo_lists {s_buffer : Str} {i : InfoMsg} (h : readInfo s_buffer = .ok i) :
    i.relations.length ≤ 9 ∧ i.attributes.length ≤ 9 := by
  obtain ⟨s, b, b₁, b₂, b₃, b₄, b₅, c₁, c₂, n₁, n₂, v, -, -, -, hn₁, hrel, -, hn₂, hattr, -⟩ :=
    readInfo_ok h
  obtain ⟨hlow₁, hhigh₁⟩ := stoiChar_range hn₁
  obtain ⟨hlow₂, hhigh₂⟩ := stoiChar_range hn₂
  lift n₁ to ℕ using hlow₁
  lift n₂ to ℕ using hlow₂
  have h₁ := length_of_takeMany hrel
  have h₂ := length_of_takeMany hattr
  omega

/-- The server decodes the reply to exactly the rows and the flag of the repository. -/
def ReplySurvives (st : Storage) (q : QueryMsg) (reply : InfoMsg) : Prop :=
  ∃ i, readInfo (Msg.info reply).buffer = .ok i ∧ i.nameA = q.nameA ∧
    i.relations = st.relationsOf q.nameA ∧
    i.attributes.map (fun a => (a.key, a.value)) =
      (st.attributesOf q.nameA).map (fun a => (a.key, a.value)) ∧
    i.request_id = q.request_id ∧ i.valid_node = reply.valid_node

theorem replySurvives_iff {st : Storage} (hrows : ShortRows st) {q : QueryMsg} (hq : q.Fits) :
    ReplySurvives st q (queryReply st q) ↔
      (st.relationsOf q.nameA).length ≤ 9 ∧ (st.attributesOf q.nameA).length ≤ 9 := by
  constructor
  · rintro ⟨i, hread, -, hrel, hattr, -, -⟩
    obtain ⟨h₁, h₂⟩ := readInfo_lists hread
    have hlen := congrArg List.length hattr
    rw [List.length_map, List.length_map] at hlen
    rw [hrel] at h₁
    exact ⟨h₁, hlen ▸ h₂⟩
  · rintro ⟨h₁, h₂⟩
    have hfits : (queryReply st q).Fits :=
      ⟨hq.name, h₁, hrows.relationsOf _, h₂, hrows.attributesOf _, hq.id⟩
    refine ⟨_, readInfo_parseNewInfoResponse hfits, rfl, rfl, ?_, rfl, rfl⟩
    rw [List.map_map]
    rfl

/-- **Replies survive the wire.** After any creates that fit the wire, the reply of a repository to
a query that fits is decoded to what the repository has stored of the node, exactly if it has at
most nine relations and at most nine attributes. -/
theorem replies_survive_iff {cfg : Config} {es : List Received}
    (hcreates : ∀ e ∈ es, ∃ m : NodeMsg, m.Fits ∧ e.s_buffer = (Msg.node m).buffer) {db : Process}
    (hrun : run Process.receive (Process.newRepository cfg) es = some db) {q : QueryMsg}
    (hq : q.Fits) (from_addr : Host) :
    ∃ reply, runConnection noThrow db from_addr (Msg.query q).buffer =
        .ok (db, [⟨cfg.address, .info reply⟩]) ∧
      (ReplySurvives db.storage q reply ↔ (db.storage.relationsOf q.nameA).length ≤ 9 ∧
        (db.storage.attributesOf q.nameA).length ≤ 9) := by
  have hstart : IsRepository cfg.address (Process.newRepository cfg) := ⟨rfl, rfl, rfl, rfl⟩
  obtain ⟨hdb, hrows⟩ := receive_creates hcreates hstart ShortRows.empty hrun
  exact ⟨_, repository_query from_addr hdb hq, replySurvives_iff hrows hq⟩

/-! ### A node with many relations -/

/-- A forwarded `C` for the node x. -/
def createX (attributes : List Attribute) (relations : List Str) (request_id : ℤ) : NodeMsg :=
  ⟨str "x", attributes, relations, request_id, oneRepository.hosts⟩

/-- It reaches a repository. -/
def receivedX (m : NodeMsg) : Received := ⟨oneRepository.address, (Msg.node m).buffer, noThrow⟩

def queryX : QueryMsg := ⟨str "x", 1, false, true, [], 3⟩

/-- Two creates give x two relations and an attribute. -/
def twoCreates : List Received :=
  [receivedX (createX [⟨[], str "k", str "v"⟩] [str "a"] 1), receivedX (createX [] [str "b"] 2)]

/-- Two creates give x ten relations. -/
def tenRelations : List Received :=
  [receivedX (createX [] [str "a", str "b", str "c", str "d", str "e", str "f", str "g", str "h",
    str "i"] 1), receivedX (createX [] [str "j"] 2)]

/-- The reply about two relations survives. -/
theorem replies_survive_two : ∃ db reply,
    run Process.receive (Process.newRepository oneRepository) twoCreates = some db ∧
      reply.relations = [str "a", str "b"] ∧ ReplySurvives db.storage queryX reply := by
  have hcreates : ∀ e ∈ twoCreates,
      ∃ m : NodeMsg, m.Fits ∧ e.s_buffer = (Msg.node m).buffer := by
    unfold twoCreates
    simp only [List.forall_mem_cons]
    exact ⟨⟨_, by decide, rfl⟩, ⟨_, by decide, rfl⟩, by simp⟩
  have hrun : ∃ db, run Process.receive (Process.newRepository oneRepository) twoCreates = some db ∧
      (queryReply db.storage queryX).relations = [str "a", str "b"] ∧
      (db.storage.relationsOf queryX.nameA).length ≤ 9 ∧
      (db.storage.attributesOf queryX.nameA).length ≤ 9 := exists_of_check (by decide +kernel)
  obtain ⟨db, hdb, hrel, hle⟩ := hrun
  obtain ⟨reply, hturn, hiff⟩ := replies_survive_iff hcreates hdb (q := queryX) (by decide)
    (clientHost 1)
  have hdb' : IsRepository oneRepository.address db :=
    (receive_creates hcreates ⟨rfl, rfl, rfl, rfl⟩ ShortRows.empty hdb).1
  have hreply := hturn.symm.trans (repository_query (clientHost 1) hdb' (m := queryX) (by decide))
  simp only [Except.ok.injEq, Prod.mk.injEq, List.cons.injEq, Send.mk.injEq, Msg.info.injEq,
    true_and, and_true] at hreply
  exact ⟨db, reply, hdb, hreply ▸ hrel, hiff.mpr hle⟩

/-- The number of ten relations is written as a colon, on which `stoi` throws. -/
theorem reply_lost_ten : ∃ db reply,
    run Process.receive (Process.newRepository oneRepository) tenRelations = some db ∧
      runConnection noThrow db oneRepository.address (Msg.query queryX).buffer =
        .ok (db, [⟨oneRepository.address, .info reply⟩]) ∧
      reply.relations.length = 10 ∧
      readInfo (Msg.info reply).buffer = .error .invalidArgument ∧
      ¬ ReplySurvives db.storage queryX reply := by
  have hcreates : ∀ e ∈ tenRelations,
      ∃ m : NodeMsg, m.Fits ∧ e.s_buffer = (Msg.node m).buffer := by
    unfold tenRelations
    simp only [List.forall_mem_cons]
    exact ⟨⟨_, by decide, rfl⟩, ⟨_, by decide, rfl⟩, by simp⟩
  have hrun : ∃ db,
      run Process.receive (Process.newRepository oneRepository) tenRelations = some db ∧
      (queryReply db.storage queryX).relations.length = 10 ∧
      readInfo (Msg.info (queryReply db.storage queryX)).buffer = .error .invalidArgument :=
    exists_of_check (by decide +kernel)
  obtain ⟨db, hdb, hlen, hread⟩ := hrun
  have hdb' : IsRepository oneRepository.address db :=
    (receive_creates hcreates ⟨rfl, rfl, rfl, rfl⟩ ShortRows.empty hdb).1
  refine ⟨db, _, hdb, repository_query _ hdb' (by decide), hlen, hread, ?_⟩
  rintro ⟨i, hi, -⟩
  rw [hread] at hi
  cases hi

end DGDB
