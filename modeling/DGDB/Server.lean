import Mathlib
import DGDB.Process

/-!
# What one turn of the server can do

`ServerStep` lists the outcomes of a turn of the loop on a server, with the guards under which each
is taken, and `serverStep_of_runConnection` shows that there are no others. Invariants of the server
are proved by cases on it.
-/

namespace DGDB

open GraphSearch

/-! ## Choosing a repository -/

theorem hostAt_eq_ok {hosts : List Host} {i : ℤ} {h : Host} :
    hostAt hosts i = .ok h ↔ 0 ≤ i ∧ hosts[i.toNat]? = some h := by
  unfold hostAt
  split_ifs with hneg
  · constructor
    · intro h'
      cases h'
    · rintro ⟨h0, -⟩
      omega
  · cases hget : hosts[i.toNat]? with
    | none => simp [throw, throwThe, MonadExceptOf.throw]
    | some h' => simp; omega

theorem hostAt_mem {hosts : List Host} {i : ℤ} {h : Host} (hok : hostAt hosts i = .ok h) :
    h ∈ hosts :=
  List.mem_of_getElem? (hostAt_eq_ok.mp hok).2

/-- Both ways of choosing by `size_t` give the same index, whatever the character. -/
theorem indexIncremented_eq (c : UInt8) (size : ℕ) :
    indexIncremented c size = indexPlusOne c size := by
  unfold indexIncremented indexPlusOne
  split_ifs
  · rfl
  · rw [Nat.cast_succ]

/-- With a repository attached, the chosen index is one of theirs. -/
theorem indexPlusOne_ok {c : UInt8} {hosts : List Host} (h2 : 2 ≤ hosts.length) :
    ∃ (r : ℕ) (h : Host), indexPlusOne c hosts.length = .ok (r : ℤ) ∧ 1 ≤ r ∧
      hosts[r]? = some h ∧ hostAt hosts r = .ok h := by
  set r := toSizeT (signedChar c) % (hosts.length - 1) + 1 with hr
  have hlt : r < hosts.length := by
    have := Nat.mod_lt (toSizeT (signedChar c)) (show 0 < hosts.length - 1 by omega)
    omega
  refine ⟨r, hosts[r], ?_, by omega, List.getElem?_eq_getElem hlt, ?_⟩
  · unfold indexPlusOne
    rw [if_neg (by omega)]
    rfl
  · exact hostAt_eq_ok.mpr ⟨by omega, by simp [hlt]⟩

theorem charAt_zero_ok (b : Str) : charAt b 0 = .ok (b.headD 0) := by
  cases b with
  | nil => rfl
  | cons c b => rfl

/-! ## The branches -/

theorem advance_node_queue_eq_nil {st : QueryState} {top : Str × ℕ} {queue : List (Str × ℕ)}
    {i : InfoMsg} : (st.advance top queue i).node_queue = [] ↔
      queue = [] ∧ (top.2 = 0 ∨ ∀ y ∈ i.relations, y ∈ st.visited) := by
  obtain ⟨new, heq, -, hmem⟩ := expand_spec top.2 i.relations queue st.visited
  have hqueue : (st.advance top queue i).node_queue = queue ++ new.map (·, top.2 - 1) := by
    simp only [QueryState.advance, heq]
  rw [hqueue, List.append_eq_nil_iff, List.map_eq_nil_iff]
  refine and_congr_right fun _ => ?_
  rw [List.eq_nil_iff_forall_not_mem]
  constructor
  · intro h
    by_cases h0 : top.2 = 0
    · exact Or.inl h0
    · refine Or.inr fun y hy => ?_
      by_contra hv
      exact h y ((hmem y).mpr ⟨Nat.pos_of_ne_zero h0, hy, hv⟩)
  · rintro h y hy
    obtain ⟨hpos, hrel, hv⟩ := (hmem y).mp hy
    rcases h with h0 | hall
    · omega
    · exact hv (hall y hrel)

/-- What the server does with an `I`. -/
inductive InfoStep (db : Process) (i : InfoMsg) : Process → List Send → Prop
  /-- The queue is empty afterwards: the query is answered. -/
  | complete {client : Host} {st : QueryState} {top : Str × ℕ} {queue : List (Str × ℕ)}
      (hpending : db.pending i.request_id = some ⟨client, some st⟩)
      (hqueue : st.node_queue = top :: queue) (hname : top.1 = i.nameA)
      (hempty : (st.advance top queue i).node_queue = []) :
      InfoStep db i { db.close i.request_id with cud_blocking := false }
        [⟨client, .response ⟨completeText (st.advance top queue i).response, i.request_id⟩⟩]
  /-- The node at the front of the queue is asked for next. -/
  | next {client host : Host} {st : QueryState} {top next : Str × ℕ} {queue rest : List (Str × ℕ)}
      (hpending : db.pending i.request_id = some ⟨client, some st⟩)
      (hqueue : st.node_queue = top :: queue) (hname : top.1 = i.nameA)
      (hnext : (st.advance top queue i).node_queue = next :: rest)
      (hhost : host ∈ db.repositories) :
      InfoStep db i (db.file i.request_id ⟨client, some (st.advance top queue i)⟩)
        [⟨host, .query ⟨next.1, toInt next.2, st.leaf, st.attr, st.conditions, i.request_id⟩⟩]
  /-- The reply is not for the node at the front of the queue. -/
  | mismatch {client : Host} {st : QueryState} {top : Str × ℕ} {queue : List (Str × ℕ)}
      (hpending : db.pending i.request_id = some ⟨client, some st⟩)
      (hqueue : st.node_queue = top :: queue) (hname : top.1 ≠ i.nameA) :
      InfoStep db i { db.close i.request_id with cud_blocking := false }
        [⟨client, .response ⟨internalErrorText, i.request_id⟩⟩]

theorem infoStep_of_infoBranch {db db' : Process} {i : InfoMsg} {out : List Send}
    (h : infoBranch db i = .ok (db', out)) : InfoStep db i db' out := by
  unfold infoBranch at h
  split at h
  · rename_i client st hpending
    split at h
    · cases h
    · rename_i top queue hqueue
      split_ifs at h with hname
      · simp only at h
        split at h
        · rename_i hempty
          cases h
          exact InfoStep.complete hpending hqueue hname hempty
        · rename_i next rest hnext
          obtain ⟨s, hs, h⟩ := bind_eq_ok.mp h
          cases h
          obtain ⟨c, -, hs⟩ := bind_eq_ok.mp hs
          obtain ⟨r, -, hs⟩ := bind_eq_ok.mp hs
          obtain ⟨host, hhost, hs⟩ := bind_eq_ok.mp hs
          cases hs
          exact InfoStep.next hpending hqueue hname hnext (hostAt_mem hhost)
      · cases h
        exact InfoStep.mismatch hpending hqueue hname
  · cases h

theorem infoBranch_complete {db : Process} {i : InfoMsg} {client : Host} {st : QueryState}
    {top : Str × ℕ} {queue : List (Str × ℕ)}
    (hpending : db.pending i.request_id = some ⟨client, some st⟩)
    (hqueue : st.node_queue = top :: queue) (hname : top.1 = i.nameA)
    (hempty : (st.advance top queue i).node_queue = []) :
    infoBranch db i = .ok ({ db.close i.request_id with cud_blocking := false },
      [⟨client, .response ⟨completeText (st.advance top queue i).response, i.request_id⟩⟩]) := by
  unfold infoBranch
  simp only [hpending, hqueue, hname, if_true, hempty]
  rfl

theorem infoBranch_next {db : Process} {i : InfoMsg} {client : Host} {st : QueryState}
    {top next : Str × ℕ} {queue rest : List (Str × ℕ)}
    (hpending : db.pending i.request_id = some ⟨client, some st⟩)
    (hqueue : st.node_queue = top :: queue) (hname : top.1 = i.nameA)
    (hnext : (st.advance top queue i).node_queue = next :: rest)
    (h2 : 2 ≤ db.repositories.length) :
    ∃ (r : ℕ) (host : Host),
      indexPlusOne (next.1.headD 0) db.repositories.length = .ok (r : ℤ) ∧
      db.repositories[r]? = some host ∧
      infoBranch db i = .ok (db.file i.request_id ⟨client, some (st.advance top queue i)⟩,
        [⟨host, .query ⟨next.1, toInt next.2, st.leaf, st.attr, st.conditions,
          i.request_id⟩⟩]) := by
  obtain ⟨r, host, hr, -, hget, hhost⟩ := indexPlusOne_ok (c := next.1.headD 0) h2
  refine ⟨r, host, hr, hget, ?_⟩
  unfold infoBranch
  simp only [hpending, hqueue, hname, if_true, hnext]
  unfold nextQuery
  rw [charAt_zero_ok, ok_bind, hr, ok_bind, hhost, ok_bind]
  rfl

theorem accept_cases {index : UInt8 → ℕ → Result ℤ} {db db' : Process} {from_addr : Host}
    {s_buffer : Str} {request_id : ℤ} {state : Option QueryState} {msg : Msg} {out : List Send}
    (h : accept index db from_addr s_buffer request_id state msg = .ok (db', out)) :
    (db.repositories.length < 2 ∧ db' = db ∧
      out = [⟨from_addr, .response ⟨notAttachedText, request_id⟩⟩]) ∨
    (2 ≤ db.repositories.length ∧ ∃ host ∈ db.repositories,
      db' = { db.file (toInt db.current_request) ⟨from_addr, state⟩ with
        current_request := db.current_request + 1 } ∧ out = [⟨host, msg⟩]) := by
  unfold accept at h
  split_ifs at h with h2
  · cases h
    exact Or.inl ⟨h2, rfl, rfl⟩
  · obtain ⟨c, -, h⟩ := bind_eq_ok.mp h
    obtain ⟨r, -, h⟩ := bind_eq_ok.mp h
    obtain ⟨host, hhost, h⟩ := bind_eq_ok.mp h
    cases h
    exact Or.inr ⟨not_lt.mp h2, host, hostAt_mem hhost, rfl, rfl⟩

/-- The request a server can accept without opening a query: the message it forwards for it. -/
def IsWrite (db : Process) (s_buffer : Str) (msg : Msg) : Prop :=
  (∃ d, readNode s_buffer = .ok d ∧ msg = .node { d.fields with
    request_id := db.current_request, master_repos := db.repositories }) ∨
  (∃ d, readUpdate s_buffer = .ok d ∧ msg = .update { d.fields with
    request_id := db.current_request }) ∨
  (s_buffer.headD 0 = ch 'D' ∧ ∃ d, readDelete s_buffer = .ok d ∧ msg = .delete { d.fields with
    request_id := db.current_request, master_repos := db.repositories })

/-- `s_buffer` is a `C`, a `U` or a `D`. -/
def WriteHead (s_buffer : Str) : Prop :=
  s_buffer.headD 0 = ch 'C' ∨ s_buffer.headD 0 = ch 'U' ∨ s_buffer.headD 0 = ch 'D'

/-- What a turn of the loop on a server can do. -/
inductive ServerStep (db : Process) (from_addr : Host) (s_buffer : Str) :
    Process → List Send → Prop
  | response {m : ResponseMsg} (hhead : s_buffer.headD 0 = ch 'M')
      (hread : readResponse s_buffer = .ok m) :
      ServerStep db from_addr s_buffer (responseBranch db m).1 (responseBranch db m).2
  | info {i : InfoMsg} {db' : Process} {out : List Send} (hhead : s_buffer.headD 0 = ch 'I')
      (hread : readInfo s_buffer = .ok i) (hstep : InfoStep db i db' out) :
      ServerStep db from_addr s_buffer db' out
  | busy (hhead : WriteHead s_buffer) (hbusy : db.cud_blocking = true) :
      ServerStep db from_addr s_buffer db [busy from_addr]
  | refuseWrite {request_id : ℤ} (hhead : WriteHead s_buffer) (hfree : db.cud_blocking = false)
      (hnone : db.repositories.length < 2) :
      ServerStep db from_addr s_buffer db [⟨from_addr, .response ⟨notAttachedText, request_id⟩⟩]
  | write {host : Host} {msg : Msg} (hhead : WriteHead s_buffer) (hfree : db.cud_blocking = false)
      (hsome : 2 ≤ db.repositories.length) (hhost : host ∈ db.repositories)
      (hmsg : IsWrite db s_buffer msg) :
      ServerStep db from_addr s_buffer
        { db.file (toInt db.current_request) ⟨from_addr, none⟩ with
          current_request := db.current_request + 1 } [⟨host, msg⟩]
  | refuseQuery {request_id : ℤ} (hhead : s_buffer.headD 0 = ch 'R')
      (hnone : db.repositories.length < 2) :
      ServerStep db from_addr s_buffer { db with cud_blocking := false }
        [⟨from_addr, .response ⟨notAttachedText, request_id⟩⟩]
  | query {host : Host} {d : Decoded QueryMsg} (hhead : s_buffer.headD 0 = ch 'R')
      (hread : readQuery s_buffer = .ok d) (hsome : 2 ≤ db.repositories.length)
      (hhost : host ∈ db.repositories) :
      ServerStep db from_addr s_buffer
        { db.file (toInt db.current_request) ⟨from_addr, some (QueryState.start d.fields)⟩ with
          current_request := db.current_request + 1, cud_blocking := true }
        [⟨host, .query { d.fields with request_id := db.current_request }⟩]
  | register (hhead : s_buffer.headD 0 = ch 'E') :
      ServerStep db from_addr s_buffer (registerBranch db from_addr).1 []
  | ignore (hhead : s_buffer.headD 0 ∉ [ch 'M', ch 'I', ch 'C', ch 'R', ch 'U', ch 'D', ch 'E']) :
      ServerStep db from_addr s_buffer db []

theorem serverStep_of_accept_write {index : UInt8 → ℕ → Result ℤ} {db db' : Process}
    {from_addr : Host} {s_buffer b : Str} {request_id : ℤ} {msg : Msg} {out : List Send}
    (hhead : WriteHead s_buffer) (hfree : ¬ db.cud_blocking = true) (hmsg : IsWrite db s_buffer msg)
    (h : accept index db from_addr b request_id none msg = .ok (db', out)) :
    ServerStep db from_addr s_buffer db' out := by
  have hfree' : db.cud_blocking = false := by simpa using hfree
  rcases accept_cases h with ⟨hnone, rfl, rfl⟩ | ⟨hsome, host, hhost, rfl, rfl⟩
  · exact ServerStep.refuseWrite hhead hfree' hnone
  · exact ServerStep.write hhead hfree' hsome hhost hmsg

theorem serverStep_of_nodeBranch {throws : ℕ → Option Str} {db db' : Process} {from_addr : Host}
    {s_buffer : Str} {out : List Send} (hserver : db.server = true)
    (hhead : s_buffer.headD 0 = ch 'C')
    (h : nodeBranch throws db from_addr s_buffer = .ok (db', out)) :
    ServerStep db from_addr s_buffer db' out := by
  unfold nodeBranch at h
  by_cases hbusy : db.cud_blocking = true
  · rw [if_pos hbusy] at h
    cases h
    exact ServerStep.busy (Or.inl hhead) hbusy
  · rw [if_neg hbusy] at h
    obtain ⟨d, hd, h⟩ := bind_eq_ok.mp h
    rw [if_pos hserver] at h
    exact serverStep_of_accept_write (Or.inl hhead) hbusy (Or.inl ⟨d, hd, rfl⟩) h

theorem serverStep_of_updateBranch {db db' : Process} {from_addr : Host} {s_buffer : Str}
    {out : List Send} (hserver : db.server = true) (hhead : s_buffer.headD 0 = ch 'U')
    (h : updateBranch db from_addr s_buffer = .ok (db', out)) :
    ServerStep db from_addr s_buffer db' out := by
  unfold updateBranch at h
  by_cases hbusy : db.cud_blocking = true
  · rw [if_pos hbusy] at h
    cases h
    exact ServerStep.busy (Or.inr (Or.inl hhead)) hbusy
  · rw [if_neg hbusy] at h
    obtain ⟨d, hd, h⟩ := bind_eq_ok.mp h
    rw [if_pos hserver] at h
    exact serverStep_of_accept_write (Or.inr (Or.inl hhead)) hbusy
      (Or.inr (Or.inl ⟨d, hd, rfl⟩)) h

theorem serverStep_of_deleteBranch {db db' : Process} {from_addr : Host} {s_buffer : Str}
    {out : List Send} (hserver : db.server = true) (hhead : s_buffer.headD 0 = ch 'D')
    (h : deleteBranch db from_addr s_buffer = .ok (db', out)) :
    ServerStep db from_addr s_buffer db' out := by
  unfold deleteBranch at h
  by_cases hbusy : db.cud_blocking = true
  · rw [if_pos hbusy] at h
    cases h
    exact ServerStep.busy (Or.inr (Or.inr hhead)) hbusy
  · rw [if_neg hbusy] at h
    obtain ⟨d, hd, h⟩ := bind_eq_ok.mp h
    rw [if_pos hserver] at h
    exact serverStep_of_accept_write (Or.inr (Or.inr hhead)) hbusy
      (Or.inr (Or.inr ⟨hhead, d, hd, rfl⟩)) h

theorem serverStep_of_queryBranch {db db' : Process} {from_addr : Host} {s_buffer : Str}
    {out : List Send} (hserver : db.server = true) (hhead : s_buffer.headD 0 = ch 'R')
    (h : queryBranch db from_addr s_buffer = .ok (db', out)) :
    ServerStep db from_addr s_buffer db' out := by
  unfold queryBranch at h
  obtain ⟨d, hd, h⟩ := bind_eq_ok.mp h
  rw [if_pos hserver] at h
  rcases accept_cases h with ⟨hnone, rfl, rfl⟩ | ⟨hsome, host, hhost, rfl, rfl⟩
  · have hnone' : db.repositories.length < 2 := hnone
    simp only [decide_eq_true hnone', Bool.not_true]
    exact ServerStep.refuseQuery hhead hnone
  · have hsome' : ¬ db.repositories.length < 2 := not_lt.mpr hsome
    simp only [decide_eq_false hsome', Bool.not_false]
    exact ServerStep.query hhead hd hsome hhost

/-- **Every outcome of a server's turn is one of `ServerStep`.** -/
theorem serverStep_of_runConnection {throws : ℕ → Option Str} {db db' : Process}
    {from_addr : Host} {s_buffer : Str} {out : List Send} (hserver : db.server = true)
    (h : runConnection throws db from_addr s_buffer = .ok (db', out)) :
    ServerStep db from_addr s_buffer db' out := by
  unfold runConnection at h
  simp only at h
  split_ifs at h with hM hI hC hR hU hD hE
  · obtain ⟨m, hm, h⟩ := bind_eq_ok.mp h
    cases h
    exact ServerStep.response hM hm
  · obtain ⟨i, hi, h⟩ := bind_eq_ok.mp h
    exact ServerStep.info hI hi (infoStep_of_infoBranch h)
  · exact serverStep_of_nodeBranch hserver hC h
  · exact serverStep_of_queryBranch hserver hR h
  · exact serverStep_of_updateBranch hserver hU h
  · exact serverStep_of_deleteBranch hserver hD h
  · cases h
    exact ServerStep.register hE
  · cases h
    refine ServerStep.ignore ?_
    simp only [List.mem_cons, List.not_mem_nil, hM, hI, hC, hR, hU, hD, hE, or_self,
      not_false_eq_true]

theorem ServerStep.server {db db' : Process} {from_addr : Host} {s_buffer : Str} {out : List Send}
    (h : ServerStep db from_addr s_buffer db' out) : db'.server = db.server := by
  cases h with
  | info _ _ hstep => cases hstep <;> rfl
  | _ => rfl

/-! ## Well-formed requests

The turn of the server on a request whose fields fit and that it does not refuse. -/

theorem accept_ok (db : Process) (from_addr : Host) {index : UInt8 → ℕ → Result ℤ}
    (hindex : ∀ c n, index c n = indexPlusOne c n)
    (h2 : 2 ≤ db.repositories.length) (s_buffer : Str) (request_id : ℤ)
    (state : Option QueryState) (msg : Msg) :
    ∃ (r : ℕ) (host : Host),
      indexPlusOne (s_buffer.headD 0) db.repositories.length = .ok (r : ℤ) ∧
      db.repositories[r]? = some host ∧
      accept index db from_addr s_buffer request_id state msg =
        .ok ({ db.file (toInt db.current_request) ⟨from_addr, state⟩ with
          current_request := db.current_request + 1 }, [⟨host, msg⟩]) := by
  obtain ⟨r, host, hr, -, hget, hhost⟩ := indexPlusOne_ok (c := s_buffer.headD 0) h2
  refine ⟨r, host, hr, hget, ?_⟩
  unfold accept
  rw [if_neg (by omega), charAt_zero_ok, ok_bind, hindex, hr, ok_bind, hhost, ok_bind]
  rfl

theorem headD_append {x : Str} (hx : x ≠ []) (rest : Str) : (x ++ rest).headD 0 = x.headD 0 := by
  cases x with
  | nil => exact absurd rfl hx
  | cons c x => rfl

section Forward

variable (throws : ℕ → Option Str) {db : Process} (from_addr : Host)

theorem server_node (hserver : db.server = true) (hfree : db.cud_blocking = false)
    (h2 : 2 ≤ db.repositories.length) {m : NodeMsg} (hm : m.Fits) (hne : m.nameA ≠ []) :
    ∃ (r : ℕ) (host : Host),
      indexPlusOne (m.nameA.headD 0) db.repositories.length = .ok (r : ℤ) ∧
      db.repositories[r]? = some host ∧
      runConnection throws db from_addr (Msg.node m).buffer =
        .ok ({ db.file (toInt db.current_request) ⟨from_addr, none⟩ with
            current_request := db.current_request + 1 },
          [⟨host, .node ⟨m.nameA, m.attributes.map Attribute.wire, m.relations,
            db.current_request, db.repositories⟩⟩]) := by
  have hread := readNode_parseNewNode hm.name hm.relations_length hm.relations hm.attributes_length
    hm.attributes hm.id
  rw [runConnection_node]
  unfold nodeBranch
  rw [hfree, if_neg (by simp), hread, ok_bind, if_pos hserver, ← headD_append hne _,
    listHeader, List.append_assoc]
  exact accept_ok db from_addr (fun _ _ => rfl) h2 _ _ _ _

theorem server_query (hserver : db.server = true) (h2 : 2 ≤ db.repositories.length) {m : QueryMsg}
    (hm : m.Fits) (hne : m.nameA ≠ []) :
    ∃ (r : ℕ) (host : Host),
      indexPlusOne (m.nameA.headD 0) db.repositories.length = .ok (r : ℤ) ∧
      db.repositories[r]? = some host ∧
      runConnection throws db from_addr (Msg.query m).buffer =
        .ok ({ db.file (toInt db.current_request) ⟨from_addr, some (QueryState.start m)⟩ with
            current_request := db.current_request + 1, cud_blocking := true },
          [⟨host, .query { m with request_id := db.current_request }⟩]) := by
  obtain ⟨header, -, hread⟩ := readQuery_parseNewQuery hm
  rw [runConnection_query]
  unfold queryBranch
  rw [hread, ok_bind, if_pos hserver, ← headD_append hne header]
  have hn : decide (db.repositories.length < 2) = false := decide_eq_false (by omega)
  simp only [hn, Bool.not_false]
  exact accept_ok { db with cud_blocking := true } from_addr (fun _ _ => rfl) h2 _ _ _ _

theorem server_update (hserver : db.server = true) (hfree : db.cud_blocking = false)
    (h2 : 2 ≤ db.repositories.length) {m : UpdateMsg} (hm : m.Fits) :
    ∃ (r : ℕ) (host : Host),
      indexPlusOne (m.nameA.headD 0) db.repositories.length = .ok (r : ℤ) ∧
      db.repositories[r]? = some host ∧
      runConnection throws db from_addr (Msg.update m).buffer =
        .ok ({ db.file (toInt db.current_request) ⟨from_addr, none⟩ with
            current_request := db.current_request + 1 },
          [⟨host, .update { m with
            attr := if m.is_node then [] else m.attr, request_id := db.current_request }⟩]) := by
  rw [runConnection_update]
  unfold updateBranch
  rw [hfree, if_neg (by simp), readUpdate_parseNewUpdate hm, ok_bind, if_pos hserver]
  exact accept_ok db from_addr indexIncremented_eq h2 _ _ _ _

theorem server_delete (hserver : db.server = true) (hfree : db.cud_blocking = false)
    (h2 : 2 ≤ db.repositories.length) {m : DeleteMsg} (hm : m.Fits) (hne : m.nameA ≠ []) :
    ∃ (r : ℕ) (host : Host),
      indexPlusOne (m.nameA.headD 0) db.repositories.length = .ok (r : ℤ) ∧
      db.repositories[r]? = some host ∧
      runConnection throws db from_addr (Msg.delete m).buffer =
        .ok ({ db.file (toInt db.current_request) ⟨from_addr, none⟩ with
            current_request := db.current_request + 1 },
          [⟨host, .delete ⟨m.nameA, m.object, if 0 < m.object then m.attr_or_rel else [],
            db.current_request, db.repositories⟩⟩]) := by
  rw [runConnection_delete]
  unfold deleteBranch
  rw [hfree, if_neg (by simp), readDelete_parseNewDelete hm.name hm.object hm.attr_or_rel hm.id,
    ok_bind, if_pos hserver, ← headD_append hne _]
  exact accept_ok db from_addr indexIncremented_eq h2 _ _ _ _

theorem server_busy (hbusy : db.cud_blocking = true) {s_buffer : Str} (hhead : WriteHead s_buffer) :
    runConnection throws db from_addr s_buffer = .ok (db, [busy from_addr]) := by
  unfold runConnection
  rcases hhead with h | h | h <;> rw [h]
  · exact if_pos hbusy
  · exact if_pos hbusy
  · exact if_pos hbusy

theorem server_response (db : Process) {m : ResponseMsg} (hm : m.Fits) :
    runConnection throws db from_addr (Msg.response m).buffer = .ok (responseBranch db m) := by
  rw [runConnection_response, readResponse_parseNewMessageResponse hm, ok_bind]
  rfl

theorem server_info (db : Process) {m : InfoMsg} (hm : m.Fits) :
    runConnection throws db from_addr (Msg.info m).buffer =
      infoBranch db { m with attributes := m.attributes.map Attribute.wire } := by
  rw [runConnection_info, readInfo_parseNewInfoResponse hm, ok_bind]

end Forward

end DGDB
