import Mathlib
import DGDB.Agreement

/-!
# What one turn of a repository can do

`RepositoryStep` lists the outcomes of a turn of the loop on a repository, for any string received,
and `repositoryStep_of_runConnection` shows that there are no others. It is the counterpart of
`ServerStep`: invariants of a repository are proved by cases on it.
-/

namespace DGDB

/-! ## The relation loop -/

/-- The report of an exception of the storage. -/
def IsReport (from_addr : Host) (request_id : ℤ) (s : Send) : Prop :=
  ∃ what, s = ⟨from_addr, .response ⟨str "[ERROR] " ++ what, request_id⟩⟩

/-- The `C` for the reverse of the relation `rel`. -/
def IsReverse (node_name : Str) (master_repos : List Host) (rel : Str) (s : Send) : Prop :=
  master_repos ≠ [] ∧ ∃ host, Place.reverseCreate.host master_repos rel = .ok host ∧
    s = ⟨host, .node ⟨rel, [], [node_name], 0, []⟩⟩

def Msg.isNode : Msg → Bool
  | .node _ => true
  | _ => false

def Msg.isDelete : Msg → Bool
  | .delete _ => true
  | _ => false

/-- A `C` or a `D`, the messages that a repository passes on to another. -/
def Msg.spreads (m : Msg) : Bool := m.isNode || m.isDelete

/-- What the relation loop has done when it ends. -/
structure Looped (from_addr : Host) (node_name : Str) (request_id : ℤ) (master_repos : List Host)
    (relations : List Str) (storage : Storage) (message : Str) (storage' : Storage) (message' : Str)
    (out : List Send) : Prop where
  nodes : storage.nodes ⊆ storage'.nodes
  attributes : storage'.attributes = storage.attributes
  /-- Relations are stored in order; the message is the old one only if none was left out. -/
  rows : ∃ kept, kept.Sublist relations ∧
    storage'.relations = storage.relations ++ kept.map (fun rel => ⟨node_name, rel⟩) ∧
    (message' = message ∧ kept = relations ∨ ∃ what, message' = str "[ERROR] " ++ what)
  reports : ∀ s ∈ out, s.msg.spreads = false → IsReport from_addr request_id s
  /-- At most one message goes out for each relation. -/
  reverses : ∃ sent, sent.Sublist relations ∧
    List.Forall₂ (IsReverse node_name master_repos) sent (out.filter fun s => s.msg.spreads)

section Loop

variable {throws : ℕ → Option Str} {from_addr : Host} {node_name : Str} {request_id : ℤ}
  {master_repos : List Host}

theorem Storage.nodes_insertNode_subset (st : Storage) (name : Str) :
    st.nodes ⊆ (st.insertNode name).nodes := by
  intro x hx
  exact Storage.mem_insertNode.mpr (Or.inl hx)

theorem Storage.mem_nodes_insertNode (st : Storage) (name : Str) :
    name ∈ (st.insertNode name).nodes :=
  Storage.mem_insertNode.mpr (Or.inr rfl)

theorem IsReverse.spreads {rel : Str} {s : Send} (h : IsReverse node_name master_repos rel s) :
    s.msg.spreads = true := by
  obtain ⟨-, host, -, rfl⟩ := h
  rfl

theorem reverseNode_ok {rel : Str} {out : List Send}
    (h : reverseNode node_name rel master_repos = .ok out) :
    out = [] ∨ ∃ s, out = [s] ∧ IsReverse node_name master_repos rel s := by
  by_cases hnil : master_repos = []
  · unfold reverseNode at h
    rw [if_pos (by simp [hnil])] at h
    cases h
    exact Or.inl rfl
  · rw [reverseNode_place node_name rel hnil] at h
    obtain ⟨host, hhost, h⟩ := bind_eq_ok.mp h
    cases h
    exact Or.inr ⟨_, rfl, hnil, host, hhost, rfl⟩

theorem looped_of_storeRelations {relations : List Str} :
    ∀ {k : ℕ} {storage storage' : Storage} {message message' : Str} {out : List Send},
      storeRelations throws from_addr node_name request_id master_repos k relations storage
        message = .ok (storage', message', out) →
      Looped from_addr node_name request_id master_repos relations storage message storage' message'
        out := by
  induction relations with
  | nil =>
    intro k storage storage' message message' out h
    cases h
    exact ⟨List.Subset.refl _, rfl, ⟨[], List.Sublist.refl _, by simp, Or.inl ⟨rfl, rfl⟩⟩, by simp,
      [], List.Sublist.refl _, List.Forall₂.nil⟩
  | cons rel relations ih =>
    intro k storage storage' message message' out h
    unfold storeRelations at h
    split at h
    · rename_i what _
      obtain ⟨⟨st, msg, out₁⟩, hrest, h⟩ := bind_eq_ok.mp h
      cases h
      have hloop := ih hrest
      obtain ⟨kept, hsub, hrel, hmsg⟩ := hloop.rows
      refine ⟨hloop.nodes, hloop.attributes, ⟨kept, hsub.cons _, hrel, Or.inr ?_⟩, ?_, ?_⟩
      · rcases hmsg with ⟨rfl, -⟩ | hmsg
        · exact ⟨what, rfl⟩
        · exact hmsg
      · intro s hs hspreads
        rcases List.mem_cons.mp hs with rfl | hs
        · exact ⟨what, rfl⟩
        · exact hloop.reports s hs hspreads
      · obtain ⟨sent, hsent, hreverses⟩ := hloop.reverses
        refine ⟨sent, hsent.cons _, ?_⟩
        rwa [List.filter_cons, if_neg (by simp [Msg.spreads, Msg.isNode, Msg.isDelete])]
    · obtain ⟨reverse, hreverse, h⟩ := bind_eq_ok.mp h
      obtain ⟨⟨st, msg, out₁⟩, hrest, h⟩ := bind_eq_ok.mp h
      cases h
      have hloop := ih hrest
      obtain ⟨kept, hsub, hrel, hmsg⟩ := hloop.rows
      refine ⟨?_, ?_, ⟨rel :: kept, hsub.cons_cons _, ?_, ?_⟩, ?_, ?_⟩
      · exact List.Subset.trans (storage.nodes_insertNode_subset rel) hloop.nodes
      · rw [hloop.attributes, Storage.insertRelation, Storage.attributes_insertNode]
      · rw [hrel, Storage.relations_insertRelation, Storage.relations_insertNode,
          List.append_assoc]
        rfl
      · exact hmsg.imp_left fun hnone => ⟨hnone.1, by rw [hnone.2]⟩
      · intro s hs hspreads
        rcases List.mem_append.mp hs with hs | hs
        · rcases reverseNode_ok hreverse with rfl | ⟨s', rfl, hrev⟩
          · simp at hs
          · rw [List.mem_singleton.mp hs, hrev.spreads] at hspreads
            cases hspreads
        · exact hloop.reports s hs hspreads
      · obtain ⟨sent, hsent, hreverses⟩ := hloop.reverses
        rcases reverseNode_ok hreverse with rfl | ⟨s', rfl, hrev⟩
        · exact ⟨sent, hsent.cons _, hreverses⟩
        · refine ⟨rel :: sent, hsent.cons_cons _, ?_⟩
          rw [List.singleton_append, List.filter_cons, if_pos hrev.spreads]
          exact List.Forall₂.cons hrev hreverses

end Loop

/-! ## The `C` branch -/

/-- The answer to the server, for a message that carries a request id. -/
def IsReply (db : Process) (request_id : ℤ) (message : Str) (out : List Send) : Prop :=
  request_id = 0 ∧ out = [] ∨ request_id ≠ 0 ∧ ∃ host, hostAt db.repositories 0 = .ok host ∧
    out = [⟨host, .response ⟨message, request_id⟩⟩]

theorem isReply_of_replyTo {db : Process} {request_id : ℤ} {message : Str} {out : List Send}
    (h : replyTo db request_id message = .ok out) : IsReply db request_id message out := by
  unfold replyTo at h
  split_ifs at h with hzero
  · cases h
    exact Or.inl ⟨hzero, rfl⟩
  · obtain ⟨host, hhost, h⟩ := bind_eq_ok.mp h
    cases h
    exact Or.inr ⟨hzero, host, hhost, rfl⟩

/-- What a repository does with the node of a `C` and the hosts that came with it. -/
inductive StoreStep (db : Process) (from_addr : Host) (m : NodeMsg) (master_repos : List Host) :
    Process → List Send → Prop
  /-- The storage threw before anything was stored. -/
  | failed {s : Send} (hreport : IsReport from_addr m.request_id s) :
      StoreStep db from_addr m master_repos db [s]
  | stored {storage : Storage} {message : Str} {out reply : List Send}
      (hloop : Looped from_addr m.nameA m.request_id master_repos m.relations
        (storeAttributes m.nameA m.attributes (db.storage.insertNode m.nameA))
        (if m.nameA ∈ db.storage.nodes then existsText else []) storage message out)
      (hreply : IsReply db m.request_id (message ++ storedText) reply) :
      StoreStep db from_addr m master_repos { db with storage := storage } (out ++ reply)

theorem storeStep_of_storeNode {throws : ℕ → Option Str} {db db' : Process} {from_addr : Host}
    {m : NodeMsg} {master_repos : List Host} {out : List Send}
    (h : storeNode throws db from_addr m master_repos = .ok (db', out)) :
    StoreStep db from_addr m master_repos db' out := by
  unfold storeNode at h
  split at h
  · rename_i what _
    cases h
    exact StoreStep.failed ⟨what, rfl⟩
  · obtain ⟨⟨storage, message, out₁⟩, hloop, h⟩ := bind_eq_ok.mp h
    obtain ⟨reply, hreply, h⟩ := bind_eq_ok.mp h
    cases h
    exact StoreStep.stored (looped_of_storeRelations hloop) (isReply_of_replyTo hreply)

/-! ## The turn -/

/-- The `D` for the reverse of a relation. -/
def IsReverseDelete (m : DeleteMsg) (master_repos : List Host) (out : List Send) : Prop :=
  (m.object ≠ 2 ∨ master_repos = []) ∧ out = [] ∨
    m.object = 2 ∧ master_repos ≠ [] ∧ ∃ host,
      Place.reverseDelete.host master_repos m.attr_or_rel = .ok host ∧
      out = [⟨host, .delete ⟨m.attr_or_rel, m.object, m.nameA, 0, []⟩⟩]

theorem isReverseDelete_of_reverseDelete {m : DeleteMsg} {master_repos : List Host}
    {out : List Send} (h : reverseDelete m master_repos = .ok out) :
    IsReverseDelete m master_repos out := by
  by_cases hobject : m.object = 2
  · by_cases hnil : master_repos = []
    · unfold reverseDelete at h
      rw [if_neg (by simp [hnil])] at h
      cases h
      exact Or.inl ⟨Or.inr hnil, rfl⟩
    · rw [reverseDelete_place hobject hnil] at h
      obtain ⟨host, hhost, h⟩ := bind_eq_ok.mp h
      cases h
      exact Or.inr ⟨hobject, hnil, host, hhost, rfl⟩
  · unfold reverseDelete at h
    rw [if_neg (fun hand => hobject hand.1)] at h
    cases h
    exact Or.inl ⟨Or.inl hobject, rfl⟩

/-- What a turn of the loop on a repository can do. -/
inductive RepositoryStep (db : Process) (from_addr : Host) (s_buffer : Str) :
    Process → List Send → Prop
  | response {m : ResponseMsg} (hhead : s_buffer.headD 0 = ch 'M')
      (hread : readResponse s_buffer = .ok m) :
      RepositoryStep db from_addr s_buffer (responseBranch db m).1 (responseBranch db m).2
  | info {i : InfoMsg} {db' : Process} {out : List Send} (hhead : s_buffer.headD 0 = ch 'I')
      (hread : readInfo s_buffer = .ok i) (hstep : InfoStep db i db' out) :
      RepositoryStep db from_addr s_buffer db' out
  | busy (hhead : WriteHead s_buffer) (hbusy : db.cud_blocking = true) :
      RepositoryStep db from_addr s_buffer db [busy from_addr]
  | node {d : Decoded NodeMsg} {master_repos : List Host} {rest : Str} {db' : Process}
      {out : List Send} (hhead : s_buffer.headD 0 = ch 'C') (hread : readNode s_buffer = .ok d)
      (hhosts : takeHosts d.s d.s_buffer = .ok (master_repos, rest))
      (hstep : StoreStep db from_addr d.fields master_repos db' out) :
      RepositoryStep db from_addr s_buffer db' out
  | query {d : Decoded QueryMsg} {host : Host} (hhead : s_buffer.headD 0 = ch 'R')
      (hread : readQuery s_buffer = .ok d) (hhost : hostAt db.repositories 0 = .ok host) :
      RepositoryStep db from_addr s_buffer db [⟨host, .info (queryReply db.storage d.fields)⟩]
  | update {d : Decoded UpdateMsg} {host : Host} (hhead : s_buffer.headD 0 = ch 'U')
      (hread : readUpdate s_buffer = .ok d) (hhost : hostAt db.repositories 0 = .ok host) :
      RepositoryStep db from_addr s_buffer db
        [⟨host, .response ⟨updatedText, d.fields.request_id⟩⟩]
  | delete {d : Decoded DeleteMsg} {master_repos : List Host} {rest : Str} {out reply : List Send}
      (hhead : s_buffer.headD 0 = ch 'D') (hread : readDelete s_buffer = .ok d)
      (hhosts : takeHosts d.s d.s_buffer = .ok (master_repos, rest))
      (hreverse : IsReverseDelete d.fields master_repos out)
      (hreply : IsReply db d.fields.request_id (deletedText d.fields.object) reply) :
      RepositoryStep db from_addr s_buffer db (out ++ reply)
  | register (hhead : s_buffer.headD 0 = ch 'E') :
      RepositoryStep db from_addr s_buffer (registerBranch db from_addr).1 []
  | ignore (hhead : s_buffer.headD 0 ∉ [ch 'M', ch 'I', ch 'C', ch 'R', ch 'U', ch 'D', ch 'E']) :
      RepositoryStep db from_addr s_buffer db []

section Steps

variable {throws : ℕ → Option Str} {db db' : Process} {from_addr : Host} {s_buffer : Str}
  {out : List Send}

theorem repositoryStep_of_nodeBranch (hserver : db.server = false) (hrepo : db.repository = true)
    (hhead : s_buffer.headD 0 = ch 'C')
    (h : nodeBranch throws db from_addr s_buffer = .ok (db', out)) :
    RepositoryStep db from_addr s_buffer db' out := by
  unfold nodeBranch at h
  by_cases hbusy : db.cud_blocking = true
  · rw [if_pos hbusy] at h
    cases h
    exact RepositoryStep.busy (Or.inl hhead) hbusy
  · rw [if_neg hbusy] at h
    obtain ⟨d, hd, h⟩ := bind_eq_ok.mp h
    rw [if_neg (by simp [hserver]), if_pos hrepo] at h
    obtain ⟨⟨master_repos, rest⟩, hhosts, h⟩ := bind_eq_ok.mp h
    exact RepositoryStep.node hhead hd hhosts (storeStep_of_storeNode h)

theorem repositoryStep_of_queryBranch (hserver : db.server = false) (hrepo : db.repository = true)
    (hhead : s_buffer.headD 0 = ch 'R') (h : queryBranch db from_addr s_buffer = .ok (db', out)) :
    RepositoryStep db from_addr s_buffer db' out := by
  unfold queryBranch at h
  obtain ⟨d, hd, h⟩ := bind_eq_ok.mp h
  rw [if_neg (by simp [hserver]), if_pos hrepo] at h
  obtain ⟨host, hhost, h⟩ := bind_eq_ok.mp h
  cases h
  exact RepositoryStep.query hhead hd hhost

theorem repositoryStep_of_updateBranch (hserver : db.server = false) (hrepo : db.repository = true)
    (hhead : s_buffer.headD 0 = ch 'U') (h : updateBranch db from_addr s_buffer = .ok (db', out)) :
    RepositoryStep db from_addr s_buffer db' out := by
  unfold updateBranch at h
  by_cases hbusy : db.cud_blocking = true
  · rw [if_pos hbusy] at h
    cases h
    exact RepositoryStep.busy (Or.inr (Or.inl hhead)) hbusy
  · rw [if_neg hbusy] at h
    obtain ⟨d, hd, h⟩ := bind_eq_ok.mp h
    rw [if_neg (by simp [hserver]), if_pos hrepo] at h
    obtain ⟨host, hhost, h⟩ := bind_eq_ok.mp h
    cases h
    exact RepositoryStep.update hhead hd hhost

theorem repositoryStep_of_deleteBranch (hserver : db.server = false) (hrepo : db.repository = true)
    (hhead : s_buffer.headD 0 = ch 'D') (h : deleteBranch db from_addr s_buffer = .ok (db', out)) :
    RepositoryStep db from_addr s_buffer db' out := by
  unfold deleteBranch at h
  by_cases hbusy : db.cud_blocking = true
  · rw [if_pos hbusy] at h
    cases h
    exact RepositoryStep.busy (Or.inr (Or.inr hhead)) hbusy
  · rw [if_neg hbusy] at h
    obtain ⟨d, hd, h⟩ := bind_eq_ok.mp h
    rw [if_neg (by simp [hserver]), if_pos hrepo] at h
    obtain ⟨⟨master_repos, rest⟩, hhosts, h⟩ := bind_eq_ok.mp h
    obtain ⟨reverse, hreverse, h⟩ := bind_eq_ok.mp h
    obtain ⟨reply, hreply, h⟩ := bind_eq_ok.mp h
    cases h
    exact RepositoryStep.delete hhead hd hhosts (isReverseDelete_of_reverseDelete hreverse)
      (isReply_of_replyTo hreply)

/-- **Every outcome of a repository's turn is one of `RepositoryStep`.** -/
theorem repositoryStep_of_runConnection (hserver : db.server = false) (hrepo : db.repository = true)
    (h : runConnection throws db from_addr s_buffer = .ok (db', out)) :
    RepositoryStep db from_addr s_buffer db' out := by
  unfold runConnection at h
  simp only at h
  split_ifs at h with hM hI hC hR hU hD hE
  · obtain ⟨m, hm, h⟩ := bind_eq_ok.mp h
    cases h
    exact RepositoryStep.response hM hm
  · obtain ⟨i, hi, h⟩ := bind_eq_ok.mp h
    exact RepositoryStep.info hI hi (infoStep_of_infoBranch h)
  · exact repositoryStep_of_nodeBranch hserver hrepo hC h
  · exact repositoryStep_of_queryBranch hserver hrepo hR h
  · exact repositoryStep_of_updateBranch hserver hrepo hU h
  · exact repositoryStep_of_deleteBranch hserver hrepo hD h
  · cases h
    exact RepositoryStep.register hE
  · cases h
    refine RepositoryStep.ignore ?_
    simp only [List.mem_cons, List.not_mem_nil, hM, hI, hC, hR, hU, hD, hE, or_self,
      not_false_eq_true]

end Steps

/-! ## What a turn passes on -/

section Spread

variable {db db' : Process} {from_addr : Host} {s_buffer : Str} {out : List Send}

theorem filter_spreads_singleton {s : Send} (h : s.msg.spreads = false) :
    [s].filter (fun s => s.msg.spreads) = [] := by
  rw [List.filter_cons, if_neg (by simp [h]), List.filter_nil]

theorem IsReply.spreads {request_id : ℤ} {message : Str} (h : IsReply db request_id message out) :
    out.filter (fun s => s.msg.spreads) = [] := by
  rcases h with ⟨-, rfl⟩ | ⟨-, host, -, rfl⟩
  · rfl
  · exact filter_spreads_singleton rfl

theorem IsReverseDelete.spreads {m : DeleteMsg} {master_repos : List Host}
    (h : IsReverseDelete m master_repos out) : out.filter (fun s => s.msg.spreads) = out := by
  rcases h with ⟨-, rfl⟩ | ⟨-, -, host, -, rfl⟩
  · rfl
  · rfl

theorem InfoStep.spreads {i : InfoMsg} (h : InfoStep db i db' out) :
    out.filter (fun s => s.msg.spreads) = [] := by
  cases h with
  | complete => exact filter_spreads_singleton rfl
  | next => exact filter_spreads_singleton rfl
  | mismatch => exact filter_spreads_singleton rfl

/-- A `C` is passed on to one host for a relation at most, a relation delete to one host, and
nothing else is passed on. -/
theorem RepositoryStep.spread (h : RepositoryStep db from_addr s_buffer db' out)
    (hfree : db.cud_blocking = false) :
    (∃ d master_repos rest sent, s_buffer.headD 0 = ch 'C' ∧ readNode s_buffer = .ok d ∧
      takeHosts d.s d.s_buffer = .ok (master_repos, rest) ∧ sent.Sublist d.fields.relations ∧
      List.Forall₂ (IsReverse d.fields.nameA master_repos) sent
        (out.filter fun s => s.msg.spreads)) ∨
    (∃ d master_repos rest, s_buffer.headD 0 = ch 'D' ∧ readDelete s_buffer = .ok d ∧
      takeHosts d.s d.s_buffer = .ok (master_repos, rest) ∧
      IsReverseDelete d.fields master_repos (out.filter fun s => s.msg.spreads)) ∨
    (s_buffer.headD 0 ≠ ch 'C' ∧ s_buffer.headD 0 ≠ ch 'D' ∧
      out.filter (fun s => s.msg.spreads) = []) := by
  cases h with
  | response hhead => exact Or.inr (Or.inr ⟨by rw [hhead]; decide, by rw [hhead]; decide,
      filter_spreads_singleton rfl⟩)
  | info hhead _ hstep => exact Or.inr (Or.inr ⟨by rw [hhead]; decide, by rw [hhead]; decide,
      hstep.spreads⟩)
  | busy _ hbusy =>
    rw [hfree] at hbusy
    cases hbusy
  | @node d master_repos rest _ _ hhead hread hhosts hstep =>
    refine Or.inl ⟨d, master_repos, rest, ?_⟩
    cases hstep with
    | failed hreport =>
      obtain ⟨what, rfl⟩ := hreport
      exact ⟨[], hhead, hread, hhosts, List.nil_sublist _, List.Forall₂.nil⟩
    | stored hloop hreply =>
      obtain ⟨sent, hsent, hreverses⟩ := hloop.reverses
      rw [List.filter_append, hreply.spreads, List.append_nil]
      exact ⟨sent, hhead, hread, hhosts, hsent, hreverses⟩
  | query hhead => exact Or.inr (Or.inr ⟨by rw [hhead]; decide, by rw [hhead]; decide,
      filter_spreads_singleton rfl⟩)
  | update hhead => exact Or.inr (Or.inr ⟨by rw [hhead]; decide, by rw [hhead]; decide,
      filter_spreads_singleton rfl⟩)
  | @delete d master_repos rest out reply hhead hread hhosts hreverse hreply =>
    refine Or.inr (Or.inl ⟨d, master_repos, rest, hhead, hread, hhosts, ?_⟩)
    rwa [List.filter_append, hreply.spreads, List.append_nil, hreverse.spreads]
  | register hhead => exact Or.inr (Or.inr ⟨by rw [hhead]; decide, by rw [hhead]; decide, rfl⟩)
  | ignore hhead =>
    simp only [List.mem_cons, not_or] at hhead
    exact Or.inr (Or.inr ⟨hhead.2.2.1, hhead.2.2.2.2.2.1, rfl⟩)

end Spread

end DGDB
