import Mathlib
import DGDB.Ledger

/-!
# Deliveries

The invariant of a deployment whose messages fit the wire, and the turn of every message in transit:
no delivery ends in a fault.
-/

namespace DGDB

open EventSystem GraphSearch

/-- The messages in transit fit the wire and name nodes that start with an ASCII byte, and fewer
than 1000 requests have been accepted. -/
structure World.Admissible (w : World) : Prop where
  fits : ∀ a ∈ w.transit, a.msg.Fits
  ascii : ∀ a ∈ w.transit, a.msg.Ascii
  few : w.server.current_request ≤ 1000

instance : DecidablePred World.Admissible := fun w =>
  decidable_of_iff ((∀ a ∈ w.transit, a.msg.Fits) ∧ (∀ a ∈ w.transit, a.msg.Ascii) ∧
      w.server.current_request ≤ 1000)
    ⟨fun ⟨h₁, h₂, h₃⟩ => ⟨h₁, h₂, h₃⟩, fun h => ⟨h.1, h.2, h.3⟩⟩

/-- The invariant. -/
structure World.Inv (cfg : Config) (w : World) : Prop where
  server : w.server.server = true
  hosts : w.server.repositories = cfg.hosts
  repo : ∀ h ∈ cfg.repos, IsRepository cfg.address (w.repo h)
  placed : ∀ a ∈ w.transit, Placed cfg a
  ledger : Ledger cfg w.server.pending w.server.current_request w.accepted w.transit w.sent

theorem World.Inv.start (cfg : Config) : (World.start cfg).Inv cfg where
  server := rfl
  hosts := rfl
  repo := fun _ _ => ⟨rfl, rfl, rfl, rfl⟩
  placed := fun a ha => absurd ha (Multiset.notMem_zero a)
  ledger := Ledger.start

/-! ## Every placed message has its turn -/

section Handle

variable {cfg : Config} {w : World} {a : Envelope} {throws : ℕ → Option Str} {db : Process}
  {out : List Send}

theorem two_le_hosts (hne : cfg.repos ≠ []) : 2 ≤ cfg.hosts.length := by
  have := List.length_pos_iff.mpr hne
  simp only [Config.hosts, List.length_cons]
  omega

theorem handle_server (hdst : a.dst = cfg.address)
    (hrun : runConnection throws w.server a.src a.msg.buffer = .ok (db, out)) :
    w.handle cfg throws a = some (w.serverTurn cfg a db out) := by
  unfold World.handle
  rw [if_pos hdst, hrun]

theorem handle_repo (hdst : a.dst ∈ cfg.repos)
    (hrun : runConnection throws (w.repo a.dst) a.src a.msg.buffer = .ok (db, out)) :
    w.handle cfg throws a = some (w.repoTurn a db out) := by
  have hne : a.dst ≠ cfg.address := by
    rintro heq
    rw [heq] at hdst
    exact cfg.apart hdst
  unfold World.handle
  rw [if_neg hne, if_pos hdst, hrun]

theorem handle_client (hdst : cfg.IsClient a.dst) : w.handle cfg throws a = some w := by
  unfold World.handle
  rw [if_neg hdst.1, if_neg hdst.2]

theorem serverTurn_keep (h : db.current_request = w.server.current_request) :
    w.serverTurn cfg a db out =
      World.post { w with server := db } (World.stamp cfg.address a.req out) := by
  unfold World.serverTurn
  rw [if_neg (by omega)]

theorem serverTurn_book {client : Host} {msg fwd : Msg} {host : Host} :
    w.serverTurn cfg a (w.server.book client msg) [⟨host, fwd⟩] =
      World.post { w with
          server := w.server.book client msg
          accepted := w.accepted ++ [(w.server.current_request, a)] }
        [⟨cfg.address, host, fwd, w.server.current_request⟩] := by
  have hlt : w.server.current_request < (w.server.book client msg).current_request :=
    Nat.lt_succ_self _
  unfold World.serverTurn
  rw [if_pos hlt]
  rfl

theorem repoTurn_keep :
    w.repoTurn a (w.repo a.dst) out = w.post (World.stamp a.dst a.req out) := by
  unfold World.repoTurn
  rw [Function.update_eq_self]

end Handle

section Turns

variable {cfg : Config} {w : World} {a : Envelope}

theorem toInt_current (h : w.server.current_request ≤ 1000) :
    toInt w.server.current_request = w.server.current_request := toInt_natCast (by omega)

theorem accept_turn (hhosts : w.server.repositories = cfg.hosts) (hne : cfg.repos ≠ [])
    (hserver : w.server.server = true)
    (hfew : w.server.current_request ≤ 1000) (hfits : a.msg.Fits) (hascii : a.msg.Ascii)
    (hreq : a.msg.IsRequest) (hfree : a.msg.isQuery = false → w.server.cud_blocking = false) :
    runConnection noThrow w.server a.src a.msg.buffer = .ok (w.server.book a.src a.msg,
      [⟨owner cfg.hosts a.msg.name, a.msg.forwarded cfg.hosts w.server.current_request⟩]) := by
  have h2 : 2 ≤ w.server.repositories.length := by
    rw [hhosts]
    exact two_le_hosts hne
  have hid := toInt_current hfew
  have howner : ∀ {r : ℕ} {host : Host} {name : Str}, AsciiName name →
      indexPlusOne (name.headD 0) w.server.repositories.length = .ok (r : ℤ) →
      w.server.repositories[r]? = some host → host = owner cfg.hosts name := by
    intro r host name hname hr hget
    rw [← hhosts]
    exact host_eq_owner hname h2 hr hget
  obtain ⟨src, dst, msg, req⟩ := a
  cases msg with
  | node m =>
    obtain ⟨r, host, hr, hget, hrun⟩ := server_node noThrow src hserver
      (hfree rfl) h2 hfits hascii.1.1
    rw [hrun, howner hascii.1 hr hget, hid, hhosts]
    simp [Process.book, Process.file, Msg.state, Msg.isQuery, Msg.forwarded, Msg.name, hhosts]
  | query m =>
    obtain ⟨r, host, hr, hget, hrun⟩ := server_query noThrow src hserver
      h2 hfits hascii.1
    rw [hrun, howner hascii hr hget, hid]
    simp [Process.book, Process.file, Msg.state, Msg.isQuery, Msg.forwarded, Msg.name]
  | update m =>
    obtain ⟨r, host, hr, hget, hrun⟩ := server_update noThrow src hserver
      (hfree rfl) h2 hfits
    rw [hrun, howner hascii hr hget, hid]
    simp [Process.book, Process.file, Msg.state, Msg.isQuery, Msg.forwarded, Msg.name]
  | delete m =>
    obtain ⟨r, host, hr, hget, hrun⟩ := server_delete noThrow src hserver
      (hfree rfl) h2 hfits hascii.1.1
    rw [hrun, howner hascii.1 hr hget, hid, hhosts]
    simp [Process.book, Process.file, Msg.state, Msg.isQuery, Msg.forwarded, Msg.name, hhosts]
  | response m => exact absurd hreq (by simp [Msg.IsRequest])
  | info m => exact absurd hreq (by simp [Msg.IsRequest])
  | register => exact absurd hreq (by simp [Msg.IsRequest])

theorem Msg.IsRequest.request_id {m : Msg} (h : m.IsRequest) : m.request_id = 0 := by
  cases m with
  | node m => exact h.1
  | query m => exact h
  | update m => exact h
  | delete m => exact h.1
  | _ => exact h.elim

theorem Msg.IsRequest.writeHead {m : Msg} (h : m.IsRequest) (hquery : m.isQuery = false) :
    WriteHead m.buffer := by
  cases m with
  | node m => exact Or.inl rfl
  | query m => cases hquery
  | update m => exact Or.inr (Or.inl rfl)
  | delete m => exact Or.inr (Or.inr rfl)
  | _ => exact h.elim

theorem mem_advance_queue {st : QueryState} {top x : Str × ℕ} {queue : List (Str × ℕ)}
    {i : InfoMsg} (h : x ∈ (st.advance top queue i).node_queue) :
    x ∈ queue ∨ x.1 ∈ i.relations ∧ x.2 = top.2 - 1 := by
  obtain ⟨new, heq, -, hmem⟩ := expand_spec top.2 i.relations queue st.visited
  have hqueue : (st.advance top queue i).node_queue = queue ++ new.map (·, top.2 - 1) := by
    simp only [QueryState.advance, heq]
  rw [hqueue, List.mem_append] at h
  rcases h with h | h
  · exact Or.inl h
  · obtain ⟨y, hy, rfl⟩ := List.mem_map.mp h
    exact Or.inr ⟨((hmem y).mp hy).2.1, rfl⟩

end Turns

namespace World.Inv

variable {cfg : Config} {w : World} {a : Envelope} (rest : Multiset Envelope)

theorem request_turn (h : w.Inv cfg) (hadm : w.Admissible) (hne : cfg.repos ≠ [])
    (hmem : a ∈ w.transit) (hdst : a.dst = cfg.address) (hsrc : cfg.IsClient a.src)
    (hmsg : a.msg.IsRequest) :
    ∃ w', handle cfg noThrow { w with transit := rest } a = some w' ∧
      Turn cfg { w with transit := rest } a w' := by
  by_cases hbusy : a.msg.isQuery = false ∧ w.server.cud_blocking = true
  · have hrun := server_busy noThrow a.src hbusy.2
      (hmsg.writeHead hbusy.1)
    refine ⟨_, handle_server hdst hrun, ?_⟩
    rw [serverTurn_keep]
    · exact Turn.busy hdst hsrc hmsg hbusy.1 hbusy.2
    · rfl
  · have hfree : a.msg.isQuery = false → w.server.cud_blocking = false := by
      intro hquery
      by_contra hcud
      exact hbusy ⟨hquery, by simpa using hcud⟩
    have hrun := accept_turn h.hosts hne h.server hadm.few (hadm.fits a hmem) (hadm.ascii a hmem)
      hmsg hfree
    refine ⟨_, handle_server hdst hrun, ?_⟩
    rw [serverTurn_book]
    exact Turn.accept hdst hsrc hmsg hfree

theorem node_turn (h : w.Inv cfg) (hadm : w.Admissible) (hne : cfg.repos ≠ []) {m : NodeMsg}
    (hmem : a ∈ w.transit) (hdst : a.dst ∈ cfg.repos) (hmsg : a.msg = .node m)
    (hhosts : m.master_repos = [] ∨ m.master_repos = cfg.hosts) :
    ∃ w', handle cfg noThrow { w with transit := rest } a = some w' ∧
      Turn cfg { w with transit := rest } a w' := by
  have hfits := hadm.fits a hmem
  have hascii := hadm.ascii a hmem
  rw [hmsg] at hfits hascii
  have hlist : HostList m.master_repos := by
    refine hhosts.imp id fun heq => ?_
    rw [heq]
    exact two_le_hosts hne
  have hrun := repository_node a.src (h.repo a.dst hdst) hfits hlist hascii.2
  rw [← hmsg] at hrun
  exact ⟨_, handle_repo hdst hrun, Turn.stored hdst hmsg hhosts hascii.2⟩

theorem delete_turn (h : w.Inv cfg) (hadm : w.Admissible) (hne : cfg.repos ≠ []) {m : DeleteMsg}
    (hmem : a ∈ w.transit) (hdst : a.dst ∈ cfg.repos) (hmsg : a.msg = .delete m)
    (hhosts : m.master_repos = [] ∨ m.master_repos = cfg.hosts) :
    ∃ w', handle cfg noThrow { w with transit := rest } a = some w' ∧
      Turn cfg { w with transit := rest } a w' := by
  have hfits := hadm.fits a hmem
  have hascii := hadm.ascii a hmem
  rw [hmsg] at hfits hascii
  have hlist : HostList m.master_repos := by
    refine hhosts.imp id fun heq => ?_
    rw [heq]
    exact two_le_hosts hne
  have hrun := repository_delete a.src (h.repo a.dst hdst) hfits hlist hascii.2
  rw [← hmsg] at hrun
  refine ⟨_, handle_repo hdst hrun, ?_⟩
  rw [repoTurn_keep]
  exact Turn.deleted hdst hmsg hhosts hascii.2

theorem query_turn (h : w.Inv cfg) (hadm : w.Admissible) {m : QueryMsg} (hmem : a ∈ w.transit)
    (hdst : a.dst ∈ cfg.repos) (hmsg : a.msg = .query m) :
    ∃ w', handle cfg noThrow { w with transit := rest } a = some w' ∧
      Turn cfg { w with transit := rest } a w' := by
  have hfits := hadm.fits a hmem
  rw [hmsg] at hfits
  have hrun := repository_query a.src (h.repo a.dst hdst) hfits
  rw [← hmsg] at hrun
  refine ⟨_, handle_repo hdst hrun, ?_⟩
  rw [repoTurn_keep]
  exact Turn.asked hdst hmsg

theorem update_turn (h : w.Inv cfg) (hadm : w.Admissible) {m : UpdateMsg} (hmem : a ∈ w.transit)
    (hdst : a.dst ∈ cfg.repos) (hmsg : a.msg = .update m) :
    ∃ w', handle cfg noThrow { w with transit := rest } a = some w' ∧
      Turn cfg { w with transit := rest } a w' := by
  have hfits := hadm.fits a hmem
  rw [hmsg] at hfits
  have hrun := repository_update a.src (h.repo a.dst hdst) hfits
  rw [← hmsg] at hrun
  refine ⟨_, handle_repo hdst hrun, ?_⟩
  rw [repoTurn_keep]
  exact Turn.updated hdst hmsg

theorem client_of_pending (h : w.Inv cfg) {id : ℤ} {e : Pending}
    (hpending : w.server.pending id = some e) : cfg.IsClient e.client_sock := by
  obtain ⟨p, hp, -, hclient⟩ := h.ledger.entry id e hpending
  rw [hclient]
  exact h.ledger.clients p hp

theorem reply_pending (h : w.Inv cfg) (hmem : a ∈ w.transit) (hdst : a.dst = cfg.address)
    (hid : a.msg.request_id = a.req) (hreq : 1 ≤ a.req) :
    ∃ e, w.server.pending a.msg.request_id = some e ∧
      w.transit.filter (Carries cfg a.msg.request_id) = {a} ∧ Awaits cfg e a :=
  h.ledger.pending_of_carries hmem (by omega) ⟨rfl, fun hclient => hclient.1 hdst⟩

theorem response_pending (h : w.Inv cfg) {m : ResponseMsg} (hmem : a ∈ w.transit)
    (hdst : a.dst = cfg.address) (hmsg : a.msg = .response m) (hid : a.msg.request_id = a.req)
    (hreq : 1 ≤ a.req) : ∃ client, w.server.pending m.request_id = some ⟨client, none⟩ := by
  obtain ⟨⟨client, state⟩, hpending, -, hawaits⟩ := h.reply_pending hmem hdst hid hreq
  rw [hmsg] at hpending
  cases state with
  | none => exact ⟨client, hpending⟩
  | some st =>
    obtain ⟨u, t, queue, -, ⟨hrepo, -⟩ | ⟨-, i, hi, -⟩⟩ := hawaits
    · exact absurd (hdst ▸ hrepo) cfg.apart
    · rw [hmsg] at hi
      cases hi

/-- The query that an `I` is for: the name it is about is at the front of the queue. -/
theorem info_pending (h : w.Inv cfg) {i : InfoMsg} (hmem : a ∈ w.transit)
    (hdst : a.dst = cfg.address) (hmsg : a.msg = .info i) (hid : a.msg.request_id = a.req)
    (hreq : 1 ≤ a.req) :
    ∃ client st t queue, w.server.pending i.request_id = some ⟨client, some st⟩ ∧
      st.node_queue = (i.nameA, t) :: queue := by
  obtain ⟨⟨client, state⟩, hpending, -, hawaits⟩ := h.reply_pending hmem hdst hid hreq
  rw [hmsg] at hpending
  cases state with
  | none =>
    rcases hawaits with ⟨-, hrepo⟩ | ⟨-, m, hm⟩
    · exact absurd (hdst ▸ hrepo) cfg.apart
    · rw [hmsg] at hm
      cases hm
  | some st =>
    obtain ⟨u, t, queue, hqueue, ⟨hrepo, -⟩ | ⟨-, i', hi', hu⟩⟩ := hawaits
    · exact absurd (hdst ▸ hrepo) cfg.apart
    · rw [hmsg] at hi'
      cases hi'
      exact ⟨client, st, t, queue, hpending, hu ▸ hqueue⟩

theorem response_turn (h : w.Inv cfg) (hadm : w.Admissible) {m : ResponseMsg}
    (hmem : a ∈ w.transit) (hsrc : a.src ∈ cfg.repos) (hdst : a.dst = cfg.address)
    (hmsg : a.msg = .response m) (hid : a.msg.request_id = a.req) (hreq : 1 ≤ a.req) :
    ∃ w', handle cfg noThrow { w with transit := rest } a = some w' ∧
      Turn cfg { w with transit := rest } a w' := by
  have hfits := hadm.fits a hmem
  rw [hmsg] at hfits
  obtain ⟨client, hpending⟩ := h.response_pending hmem hdst hmsg hid hreq
  have hrun := server_response noThrow a.src w.server hfits
  rw [← hmsg] at hrun
  refine ⟨_, handle_server hdst hrun, ?_⟩
  rw [serverTurn_keep]
  · have := Turn.response (w := { w with transit := rest }) hdst hsrc hmsg hpending
    simpa [responseBranch, hpending, stamp] using this
  · rfl

theorem info_turn (h : w.Inv cfg) (hadm : w.Admissible) (hne : cfg.repos ≠ []) {i : InfoMsg}
    (hmem : a ∈ w.transit) (hsrc : a.src ∈ cfg.repos) (hdst : a.dst = cfg.address)
    (hmsg : a.msg = .info i) (hid : a.msg.request_id = a.req) (hreq : 1 ≤ a.req) :
    ∃ w', handle cfg noThrow { w with transit := rest } a = some w' ∧
      Turn cfg { w with transit := rest } a w' := by
  have hfits := hadm.fits a hmem
  have hascii := hadm.ascii a hmem
  rw [hmsg] at hfits hascii
  obtain ⟨client, st, t, queue, hpending, hqueue⟩ := h.info_pending hmem hdst hmsg hid hreq
  have hinfo := server_info noThrow a.src w.server hfits
  rw [← hmsg] at hinfo
  have hpending' : w.server.pending i.wire.request_id = some ⟨client, some st⟩ := hpending
  cases hnext : (st.advance (i.nameA, t) queue i.wire).node_queue with
  | nil =>
    have hrun := infoBranch_complete (i := i.wire) hpending' hqueue rfl hnext
    rw [InfoMsg.wire_request_id] at hrun
    refine ⟨_, handle_server hdst (hinfo.trans hrun), ?_⟩
    rw [serverTurn_keep]
    · exact Turn.complete hdst hsrc hmsg hpending hqueue hnext
    · rfl
  | cons next queue' =>
    obtain ⟨v, s⟩ := next
    have hv : AsciiName v := by
      have hin : (v, s) ∈ (st.advance (i.nameA, t) queue i.wire).node_queue := by
        rw [hnext]
        exact List.mem_cons_self
      rcases mem_advance_queue hin with hold | ⟨hnew, -⟩
      · refine h.ledger.names _ _ _ hpending (v, s) ?_
        rw [hqueue]
        exact List.mem_cons_of_mem _ hold
      · exact hascii.2 v hnew
    have h2 : 2 ≤ w.server.repositories.length := by
      rw [h.hosts]
      exact two_le_hosts hne
    obtain ⟨r, host, hr, hget, hrun⟩ := infoBranch_next (i := i.wire) hpending' hqueue rfl hnext h2
    have howner : host = owner cfg.hosts v := by
      rw [← h.hosts]
      exact host_eq_owner hv h2 hr hget
    subst howner
    rw [InfoMsg.wire_request_id] at hrun
    refine ⟨_, handle_server hdst (hinfo.trans hrun), ?_⟩
    rw [serverTurn_keep]
    · exact Turn.next hdst hsrc hmsg hpending hqueue hnext hv
    · rfl

/-- **Every message in transit can be handled**, and its turn is one of `Turn`. -/
theorem turn (h : w.Inv cfg) (hadm : w.Admissible) (hne : cfg.repos ≠ []) (hmem : a ∈ w.transit) :
    ∃ w', handle cfg noThrow { w with transit := rest } a = some w' ∧
      Turn cfg { w with transit := rest } a w' := by
  cases h.placed a hmem with
  | request hdst hsrc hmsg _ => exact h.request_turn rest hadm hne hmem hdst hsrc hmsg
  | answer _ hdst _ => exact ⟨_, handle_client hdst, Turn.taken hdst⟩
  | secondary _ hdst hmsg =>
    cases hkind : a.msg with
    | node m =>
      rw [hkind] at hmsg
      exact h.node_turn rest hadm hne hmem hdst hkind (Or.inl hmsg.2)
    | delete m =>
      rw [hkind] at hmsg
      exact h.delete_turn rest hadm hne hmem hdst hkind (Or.inl hmsg.2)
    | _ => rw [hkind] at hmsg; exact hmsg.elim
  | forwarded _ hdst hmsg _ _ =>
    cases hkind : a.msg with
    | node m =>
      rw [hkind] at hmsg
      exact h.node_turn rest hadm hne hmem hdst hkind (Or.inr hmsg)
    | delete m =>
      rw [hkind] at hmsg
      exact h.delete_turn rest hadm hne hmem hdst hkind (Or.inr hmsg)
    | query m => exact h.query_turn rest hadm hmem hdst hkind
    | update m => exact h.update_turn rest hadm hmem hdst hkind
    | _ => rw [hkind] at hmsg; exact hmsg.elim
  | reply hsrc hdst hmsg hid hreq =>
    cases hkind : a.msg with
    | response m => exact h.response_turn rest hadm hmem hsrc hdst hkind hid hreq
    | info i => exact h.info_turn rest hadm hne hmem hsrc hdst hkind hid hreq
    | _ => rw [hkind] at hmsg; exact hmsg.elim

end World.Inv

end DGDB
