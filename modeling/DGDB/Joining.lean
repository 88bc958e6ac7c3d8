import Mathlib
import DGDB.HostList
import DGDB.Storing

/-!
# Repositories that join

The deployment from its start: the server's list holds its own entry only, and a repository joins
it, or joins again, by an `E` at any moment. Nothing is assumed of the names, of the number of
repositories and of the storage. `JoinStep` lists what an event can do.
-/

namespace DGDB

open EventSystem

/-! ## What the server forwards -/

/-- The message a server forwards for the request in `s_buffer`, and the host it chooses. -/
inductive Accepts (db : Process) (s_buffer : Str) (host : Host) : Msg → Prop
  | node {d : Decoded NodeMsg} (hhead : s_buffer.headD 0 = ch 'C')
      (hread : readNode s_buffer = .ok d)
      (hhost : Place.create.host db.repositories d.s_buffer = .ok host) :
      Accepts db s_buffer host (.node { d.fields with
        request_id := db.current_request, master_repos := db.repositories })
  | query {d : Decoded QueryMsg} (hhead : s_buffer.headD 0 = ch 'R')
      (hread : readQuery s_buffer = .ok d)
      (hhost : Place.query.host db.repositories d.s_buffer = .ok host) :
      Accepts db s_buffer host (.query { d.fields with request_id := db.current_request })
  | update {d : Decoded UpdateMsg} (hhead : s_buffer.headD 0 = ch 'U')
      (hread : readUpdate s_buffer = .ok d)
      (hhost : Place.update.host db.repositories d.s_buffer = .ok host) :
      Accepts db s_buffer host (.update { d.fields with request_id := db.current_request })
  | delete {d : Decoded DeleteMsg} (hhead : s_buffer.headD 0 = ch 'D')
      (hread : readDelete s_buffer = .ok d)
      (hhost : Place.delete.host db.repositories d.s_buffer = .ok host) :
      Accepts db s_buffer host (.delete { d.fields with
        request_id := db.current_request, master_repos := db.repositories })

/-- A text of the server's own. -/
def ServerText (message : Str) : Prop :=
  message = busyText ∨ message = notAttachedText ∨ message = internalErrorText ∨
    ∃ response, message = completeText response

/-- A message of the server in a turn in which it accepts nothing: an answer, passed on or its own,
or the next `R` of a query. -/
def Serves (db : Process) (s_buffer : Str) (s : Send) : Prop :=
  (∃ m, s.msg = .response m ∧
      (s_buffer.headD 0 = ch 'M' ∧ readResponse s_buffer = .ok m ∨ ServerText m.message)) ∨
    ∃ q, s.msg = .query q ∧ Place.next.host db.repositories q.nameA = .ok s.host

section Server

variable {throws : ℕ → Option Str} {db db' : Process} {from_addr : Host} {s_buffer b : Str}
  {out : List Send}

theorem accept_outcome {index : UInt8 → ℕ → Result ℤ} (p : Place)
    (hp : ∀ b size, p.index b size = do index (← charAt b 0) size) {request_id : ℤ}
    {state : Option QueryState} {msg : Msg}
    (h : accept index db from_addr b request_id state msg = .ok (db', out)) :
    (db'.current_request = db.current_request + 1 ∧ ∃ host,
      p.host db.repositories b = .ok host ∧ out = [⟨host, msg⟩]) ∨
    (db'.current_request = db.current_request ∧
      out = [⟨from_addr, .response ⟨notAttachedText, request_id⟩⟩]) := by
  by_cases h2 : 2 ≤ db.repositories.length
  · rw [accept_place p hp h2] at h
    obtain ⟨host, hhost, h⟩ := bind_eq_ok.mp h
    cases h
    exact Or.inl ⟨rfl, host, hhost, rfl⟩
  · unfold accept at h
    rw [if_pos (by omega)] at h
    cases h
    exact Or.inr ⟨rfl, rfl⟩

/-- What the server sends in one turn. -/
def Outcomes (db : Process) (s_buffer : Str) (db' : Process) (out : List Send) : Prop :=
  (db'.current_request = db.current_request + 1 ∧
      ∃ host msg, Accepts db s_buffer host msg ∧ out = [⟨host, msg⟩]) ∨
    db'.current_request = db.current_request ∧ ∀ s ∈ out, Serves db s_buffer s

theorem serves_text {host : Host} {message : Str} (request_id : ℤ) (h : ServerText message) :
    ∀ s ∈ [(⟨host, .response ⟨message, request_id⟩⟩ : Send)], Serves db s_buffer s := by
  intro s hs
  rw [List.mem_singleton.mp hs]
  exact Or.inl ⟨_, rfl, Or.inr h⟩

theorem outcomes_of_infoBranch {i : InfoMsg} (h : infoBranch db i = .ok (db', out)) :
    Outcomes db s_buffer db' out := by
  refine Or.inr ?_
  unfold infoBranch at h
  split at h
  · split at h
    · cases h
    · split_ifs at h
      · simp only at h
        split at h
        · cases h
          exact ⟨rfl, serves_text _ (Or.inr (Or.inr (Or.inr ⟨_, rfl⟩)))⟩
        · obtain ⟨s, hs, h⟩ := bind_eq_ok.mp h
          cases h
          rw [nextQuery_place] at hs
          obtain ⟨host, hhost, hs⟩ := bind_eq_ok.mp hs
          cases hs
          refine ⟨rfl, fun s hs => ?_⟩
          rw [List.mem_singleton.mp hs]
          exact Or.inr ⟨_, rfl, hhost⟩
      · cases h
        exact ⟨rfl, serves_text _ (Or.inr (Or.inr (Or.inl rfl)))⟩
  · cases h

/-- **What a turn of the server sends**: one forwarded request, or answers and the next `R`. -/
theorem outcomes_of_runConnection (hserver : db.server = true)
    (h : runConnection throws db from_addr s_buffer = .ok (db', out)) :
    Outcomes db s_buffer db' out := by
  have hbusy : ∀ s ∈ [busy from_addr], Serves db s_buffer s := serves_text _ (Or.inl rfl)
  have hnone : ∀ request_id, ∀ s ∈ [(⟨from_addr, .response ⟨notAttachedText, request_id⟩⟩ : Send)],
      Serves db s_buffer s := fun id => serves_text id (Or.inr (Or.inl rfl))
  unfold runConnection at h
  simp only at h
  split_ifs at h with hM hI hC hR hU hD hE
  · obtain ⟨m, hm, h⟩ := bind_eq_ok.mp h
    cases h
    refine Or.inr ⟨rfl, fun s hs => ?_⟩
    rw [List.mem_singleton.mp hs]
    exact Or.inl ⟨m, rfl, Or.inl ⟨hM, hm⟩⟩
  · obtain ⟨i, -, h⟩ := bind_eq_ok.mp h
    exact outcomes_of_infoBranch h
  · unfold nodeBranch at h
    split_ifs at h with hb
    · cases h
      exact Or.inr ⟨rfl, hbusy⟩
    · obtain ⟨d, hd, h⟩ := bind_eq_ok.mp h
      rcases accept_outcome .create (fun _ _ => rfl) h with ⟨hnew, host, hhost, rfl⟩ | ⟨hold, rfl⟩
      · exact Or.inl ⟨hnew, host, _, Accepts.node hC hd hhost, rfl⟩
      · exact Or.inr ⟨hold, hnone _⟩
  · unfold queryBranch at h
    obtain ⟨d, hd, h⟩ := bind_eq_ok.mp h
    rw [if_pos hserver] at h
    rcases accept_outcome .query (fun _ _ => rfl) h with ⟨hnew, host, hhost, rfl⟩ | ⟨hold, rfl⟩
    · exact Or.inl ⟨hnew, host, _, Accepts.query hR hd hhost, rfl⟩
    · exact Or.inr ⟨hold, hnone _⟩
  · unfold updateBranch at h
    split_ifs at h with hb
    · cases h
      exact Or.inr ⟨rfl, hbusy⟩
    · obtain ⟨d, hd, h⟩ := bind_eq_ok.mp h
      rcases accept_outcome .update (fun _ _ => rfl) h with ⟨hnew, host, hhost, rfl⟩ | ⟨hold, rfl⟩
      · exact Or.inl ⟨hnew, host, _, Accepts.update hU hd hhost, rfl⟩
      · exact Or.inr ⟨hold, hnone _⟩
  · unfold deleteBranch at h
    split_ifs at h with hb
    · cases h
      exact Or.inr ⟨rfl, hbusy⟩
    · obtain ⟨d, hd, h⟩ := bind_eq_ok.mp h
      rcases accept_outcome .delete (fun _ _ => rfl) h with ⟨hnew, host, hhost, rfl⟩ | ⟨hold, rfl⟩
      · exact Or.inl ⟨hnew, host, _, Accepts.delete hD hd hhost, rfl⟩
      · exact Or.inr ⟨hold, hnone _⟩
  · cases h
    exact Or.inr ⟨rfl, fun s hs => absurd hs (by simp)⟩
  · cases h
    exact Or.inr ⟨rfl, fun s hs => absurd hs List.not_mem_nil⟩

end Server

/-! ## Runs with registrations -/

inductive JoinEvent
  /-- A repository starts and sends its `E`. -/
  | register (repo : Host)
  | other (e : Event)

/-- The message `msg` from `src` is delivered to `dst`. -/
def hop (src dst : Host) (msg : Msg) (req : ℕ) : JoinEvent :=
  .other (.deliver ⟨src, dst, msg, req⟩ noThrow)

/-- The deployment before any repository has registered. -/
def World.launch (cfg : Config) : World :=
  ⟨Process.launched cfg.self, fun _ => Process.newRepository cfg, 0, [], []⟩

/-- One event. Any host of `cfg.repos` may register, and register again. -/
def World.join (cfg : Config) (w : World) : JoinEvent → Option World
  | .register repo =>
    if repo ∈ cfg.repos then some (w.post [⟨repo, cfg.address, .register, 0⟩]) else none
  | .other e => w.step cfg e

/-- Every message in transit is a `std::string`. -/
def World.Strings (w : World) : Prop := ∀ a ∈ w.transit, a.msg.buffer.length < 2 ^ 63

instance : DecidablePred World.Strings := fun w =>
  inferInstanceAs (Decidable (∀ a ∈ w.transit, _))

/-- Who is the server and who is a repository. -/
structure World.Roles (w : World) : Prop where
  server : w.server.server = true
  repo_server : ∀ h, (w.repo h).server = false
  repo_repository : ∀ h, (w.repo h).repository = true
  repo_free : ∀ h, (w.repo h).cud_blocking = false

theorem World.Roles.launch (cfg : Config) : (World.launch cfg).Roles :=
  ⟨rfl, fun _ => rfl, fun _ => rfl, fun _ => rfl⟩

theorem RepositoryStep.roles {db db' : Process} {from_addr : Host} {s_buffer : Str}
    {out : List Send} (h : RepositoryStep db from_addr s_buffer db' out)
    (hrepo : db.repository = true) (hfree : db.cud_blocking = false) :
    db'.server = db.server ∧ db'.repository = true ∧ db'.cud_blocking = false := by
  cases h with
  | response => exact ⟨rfl, hrepo, hfree⟩
  | info _ _ hstep =>
    cases hstep with
    | complete => exact ⟨rfl, hrepo, rfl⟩
    | next => exact ⟨rfl, hrepo, hfree⟩
    | mismatch => exact ⟨rfl, hrepo, rfl⟩
  | node _ _ _ hstep =>
    cases hstep with
    | failed => exact ⟨rfl, hrepo, hfree⟩
    | stored => exact ⟨rfl, hrepo, hfree⟩
  | register => exact ⟨rfl, rfl, hfree⟩
  | busy => exact ⟨rfl, hrepo, hfree⟩
  | query => exact ⟨rfl, hrepo, hfree⟩
  | update => exact ⟨rfl, hrepo, hfree⟩
  | delete => exact ⟨rfl, hrepo, hfree⟩
  | ignore => exact ⟨rfl, hrepo, hfree⟩

/-- What an event can do. -/
inductive JoinStep (cfg : Config) (w : World) : JoinEvent → World → Prop
  /-- A client sends a request. -/
  | request {client : Host} {msg : Msg} (hclient : cfg.IsClient client) (hmsg : msg.IsRequest) :
      JoinStep cfg w (.other (.request client msg)) (w.post [⟨client, cfg.address, msg, 0⟩])
  | register {repo : Host} (hrepo : repo ∈ cfg.repos) :
      JoinStep cfg w (.register repo) (w.post [⟨repo, cfg.address, .register, 0⟩])
  /-- The server accepts and forwards a request. -/
  | accept {a : Envelope} {throws : ℕ → Option Str} {rest : Multiset Envelope} {db : Process}
      {host : Host} {msg : Msg}
      (htransit : w.transit = a ::ₘ rest) (hdst : a.dst = cfg.address)
      (haccepts : Accepts w.server a.msg.buffer host msg)
      (hcurrent : db.current_request = w.server.current_request + 1)
      (hserver : db.server = true) (hhosts : db.repositories = w.server.repositories) :
      JoinStep cfg w (.other (.deliver a throws)) ⟨db, w.repo,
        rest + ([⟨cfg.address, host, msg, w.server.current_request⟩] : List Envelope),
        w.accepted ++ [(w.server.current_request, a)],
        w.sent ++ [⟨cfg.address, host, msg, w.server.current_request⟩]⟩
  /-- The server answers, goes on with a query or registers a repository. -/
  | serve {a : Envelope} {throws : ℕ → Option Str} {rest : Multiset Envelope} {db : Process}
      {out : List Send}
      (htransit : w.transit = a ::ₘ rest) (hdst : a.dst = cfg.address)
      (hserves : ∀ s ∈ out, Serves w.server a.msg.buffer s)
      (hcurrent : db.current_request = w.server.current_request)
      (hserver : db.server = true)
      (hhosts : db.repositories =
        w.server.repositories ++ if a.msg.buffer.headD 0 = ch 'E' then [a.src] else []) :
      JoinStep cfg w (.other (.deliver a throws)) ⟨db, w.repo,
        rest + World.stamp cfg.address a.req out, w.accepted,
        w.sent ++ World.stamp cfg.address a.req out⟩
  | repository {a : Envelope} {throws : ℕ → Option Str} {rest : Multiset Envelope} {db : Process}
      {out : List Send}
      (htransit : w.transit = a ::ₘ rest) (hdst : a.dst ∈ cfg.repos)
      (hstep : RepositoryStep (w.repo a.dst) a.src a.msg.buffer db out) :
      JoinStep cfg w (.other (.deliver a throws)) ⟨w.server, Function.update w.repo a.dst db,
        rest + World.stamp a.dst a.req out, w.accepted, w.sent ++ World.stamp a.dst a.req out⟩
  /-- A client takes its answer. -/
  | client {a : Envelope} {throws : ℕ → Option Str} {rest : Multiset Envelope}
      (htransit : w.transit = a ::ₘ rest) (hdst : cfg.IsClient a.dst) :
      JoinStep cfg w (.other (.deliver a throws)) { w with transit := rest }

theorem Accepts.head {db : Process} {s_buffer : Str} {host : Host} {msg : Msg}
    (h : Accepts db s_buffer host msg) : s_buffer.headD 0 ≠ ch 'E' := by
  cases h with
  | node hhead => rw [hhead]; decide
  | query hhead => rw [hhead]; decide
  | update hhead => rw [hhead]; decide
  | delete hhead => rw [hhead]; decide

section Steps

variable {cfg : Config} {w w' : World}

theorem joinStep_of_handle {a : Envelope} {rest : Multiset Envelope} {throws : ℕ → Option Str}
    (hroles : w.Roles) (htransit : w.transit = a ::ₘ rest)
    (h : World.handle cfg throws { w with transit := rest } a = some w') :
    JoinStep cfg w (.other (.deliver a throws)) w' := by
  rcases handle_cases h with ⟨hdst, db, out, hrun, rfl⟩ | ⟨hdst, db, out, hrun, rfl⟩ | ⟨hdst, rfl⟩
  · have hserverStep := serverStep_of_runConnection hroles.server hrun
    have hserver : db.server = true := hserverStep.server.trans hroles.server
    have hhosts := hserverStep.repositories
    rcases outcomes_of_runConnection hroles.server hrun with
      ⟨hnew, host, msg, haccepts, rfl⟩ | ⟨hold, hserves⟩
    · have hkeep : db.repositories = w.server.repositories := by
        rw [hhosts, if_neg haccepts.head, List.append_nil]
      unfold World.serverTurn
      rw [if_pos (show w.server.current_request < db.current_request by omega)]
      exact JoinStep.accept htransit hdst haccepts hnew hserver hkeep
    · unfold World.serverTurn
      rw [if_neg (show ¬ w.server.current_request < db.current_request by omega)]
      exact JoinStep.serve htransit hdst hserves hold hserver hhosts
  · exact JoinStep.repository htransit hdst
      (repositoryStep_of_runConnection (hroles.repo_server _) (hroles.repo_repository _) hrun)
  · exact JoinStep.client htransit hdst

theorem joinStep_of_join {e : JoinEvent} (hroles : w.Roles) (h : w.join cfg e = some w') :
    JoinStep cfg w e w' := by
  cases e with
  | register repo =>
    simp only [World.join] at h
    split_ifs at h with hrepo
    cases h
    exact JoinStep.register hrepo
  | other e =>
    cases e with
    | request client msg =>
      obtain ⟨hclient, hmsg, rfl⟩ := step_request h
      exact JoinStep.request hclient hmsg
    | deliver a throws =>
      obtain ⟨rest, htransit, hhandle⟩ := step_deliver h
      exact joinStep_of_handle hroles htransit hhandle

theorem JoinStep.roles {e : JoinEvent} (h : JoinStep cfg w e w') (hroles : w.Roles) : w'.Roles := by
  cases h with
  | request => exact ⟨hroles.server, hroles.repo_server, hroles.repo_repository, hroles.repo_free⟩
  | register => exact ⟨hroles.server, hroles.repo_server, hroles.repo_repository, hroles.repo_free⟩
  | accept _ _ _ _ hserver =>
    exact ⟨hserver, hroles.repo_server, hroles.repo_repository, hroles.repo_free⟩
  | serve _ _ _ _ hserver =>
    exact ⟨hserver, hroles.repo_server, hroles.repo_repository, hroles.repo_free⟩
  | @repository a throws rest db out htransit hdst hstep =>
    obtain ⟨hserver, hrepo, hfree⟩ :=
      hstep.roles (hroles.repo_repository a.dst) (hroles.repo_free a.dst)
    have hupdate : ∀ h, (Function.update w.repo a.dst db h).server = false ∧
        (Function.update w.repo a.dst db h).repository = true ∧
        (Function.update w.repo a.dst db h).cud_blocking = false := by
      intro h
      by_cases hh : h = a.dst
      · rw [hh, Function.update_self]
        exact ⟨hserver.trans (hroles.repo_server a.dst), hrepo, hfree⟩
      · rw [Function.update_of_ne hh]
        exact ⟨hroles.repo_server h, hroles.repo_repository h, hroles.repo_free h⟩
    exact ⟨hroles.server, fun h => (hupdate h).1, fun h => (hupdate h).2.1,
      fun h => (hupdate h).2.2⟩
  | client => exact ⟨hroles.server, hroles.repo_server, hroles.repo_repository, hroles.repo_free⟩

end Steps

/-! ## Where messages come from -/

namespace Msg

/-- The texts that a server's or a repository's decoder takes from a `C` or a `D` are short. -/
def Short : Msg → Prop
  | node m => ({ m with request_id := 0, master_repos := [] } : NodeMsg).Fits
  | delete m => ShortText m.nameA ∧ ShortText m.attr_or_rel
  | _ => True

/-- A `C` or a `D` as a repository passes it on. -/
def IsReversed : Msg → Prop
  | node m => m.Fits ∧ m.request_id = 0 ∧ m.master_repos = []
  | delete m => m.Fits ∧ m.request_id = 0 ∧ m.master_repos = []
  | _ => False

end Msg

namespace Msg

/-- The first byte of the buffer. -/
def letter : Msg → UInt8
  | node _ => ch 'C'
  | query _ => ch 'R'
  | update _ => ch 'U'
  | delete _ => ch 'D'
  | response _ => ch 'M'
  | info _ => ch 'I'
  | register => ch 'E'

theorem headD_buffer (m : Msg) : m.buffer.headD 0 = m.letter := by
  cases m <;> rfl

theorem eq_register {m : Msg} (h : m.buffer.headD 0 = ch 'E') : m = register := by
  rw [headD_buffer] at h
  revert h
  cases m <;> simp [letter, ch]

theorem eq_response {m : Msg} (h : m.buffer.headD 0 = ch 'M') : ∃ r, m = response r := by
  rw [headD_buffer] at h
  revert h
  cases m <;> simp [letter, ch]

theorem eq_node {m : Msg} (h : m.buffer.headD 0 = ch 'C') : ∃ n, m = node n := by
  rw [headD_buffer] at h
  revert h
  cases m <;> simp [letter, ch]

theorem eq_delete {m : Msg} (h : m.buffer.headD 0 = ch 'D') : ∃ n, m = delete n := by
  rw [headD_buffer] at h
  revert h
  cases m <;> simp [letter, ch]

theorem eq_query {m : Msg} (h : m.buffer.headD 0 = ch 'R') : ∃ q, m = query q := by
  rw [headD_buffer] at h
  revert h
  cases m <;> simp [letter, ch]

theorem eq_info {m : Msg} (h : m.buffer.headD 0 = ch 'I') : ∃ i, m = info i := by
  rw [headD_buffer] at h
  revert h
  cases m <;> simp [letter, ch]

end Msg

/-- Whatever the id is, three characters are read of it. -/
theorem takeNumber_anyId {p r : Str} {s : ℤ} (hs : s = p.length) (hpre : p.length < 2 ^ 32)
    (request_id : ℤ) : ∃ v rest, takeNumber 3 s (p ++ (idText request_id ++ r)) =
      .ok (v, p ++ rest) := by
  have hlt : toSizeT request_id < 2 ^ 64 := by
    unfold toSizeT
    omega
  have hid : idText request_id = idText (toSizeT request_id : ℕ) := by
    rw [idText, idText, toSizeT_natCast hlt]
  obtain ⟨t, extra, -, -, htake⟩ := takeNumber_id (r := r) hs hpre hlt
  exact ⟨_, _, hid ▸ htake⟩

theorem readNode_short {m : NodeMsg} (h : (Msg.node m).Short) :
    ∃ request_id rest, readNode (parseNewNode m) = .ok
      ⟨⟨m.nameA, m.attributes.map Attribute.wire, m.relations, request_id, []⟩,
        m.nameA.length + 2, rest⟩ := by
  have hname : m.nameA.length ≤ 999 := h.name
  have hs : (m.nameA.length : ℤ) + 2 = (listHeader m.nameA m.relations m.attributes).length := by
    rw [length_listHeader]
    rfl
  obtain ⟨request_id, rest, hid⟩ := takeNumber_anyId (r := hostListText m.master_repos) hs
    (by rw [length_listHeader]; omega) m.request_id
  exact ⟨request_id, _, readNode_tail (m := m) h.name h.relations_length h.relations
    h.attributes_length h.attributes hid⟩

theorem readDelete_short {m : DeleteMsg} (h : (Msg.delete m).Short) (hobject : m.object = 2) :
    ∃ request_id rest, readDelete (parseNewDelete m) = .ok
      ⟨⟨m.nameA, 2, m.attr_or_rel, request_id, []⟩, m.nameA.length, rest⟩ := by
  have hname : m.nameA.length ≤ 999 := h.1
  obtain ⟨request_id, rest, hid⟩ := takeNumber_anyId (r := hostListText m.master_repos) rfl
    (show m.nameA.length < 2 ^ 32 by omega) m.request_id
  have hread := readDelete_tail h.1 (by omega) h.2 hid
  rw [hobject, if_pos (by norm_num)] at hread
  exact ⟨request_id, _, hread⟩

theorem Accepts.letter {db : Process} {s_buffer : Str} {host : Host} {msg : Msg}
    (h : Accepts db s_buffer host msg) : msg.letter = s_buffer.headD 0 := by
  cases h with
  | node hhead => exact hhead.symm
  | query hhead => exact hhead.symm
  | update hhead => exact hhead.symm
  | delete hhead => exact hhead.symm

/-- Who sent a `C` or a `D`, and to whom. -/
inductive Origin (cfg : Config) (a : Envelope) : Prop
  | client (hsrc : cfg.IsClient a.src) (hdst : a.dst = cfg.address) (hreq : a.req = 0)
  | server (hsrc : a.src = cfg.address) (hdst : a.dst ∈ cfg.repos) (hreq : 1 ≤ a.req)
      (hmsg : a.msg.Short)
  | repository (hsrc : a.src ∈ cfg.repos) (hreq : 1 ≤ a.req) (hmsg : a.msg.IsReversed)

/-- What holds of everything sent so far. -/
structure World.Traced (cfg : Config) (w : World) : Prop where
  roles : w.Roles
  hosts : ∃ repos, w.server.repositories = cfg.self :: repos ∧ ∀ h ∈ repos, h ∈ cfg.repos
  transit : w.transit ≤ (w.sent : Multiset Envelope)
  current : 1 ≤ w.server.current_request
  req : ∀ a ∈ w.sent, a.req < w.server.current_request
  register : ∀ a ∈ w.sent, a.msg = .register → a.src ∈ cfg.repos
  origin : ∀ a ∈ w.sent, a.msg.spreads = true → Origin cfg a

theorem World.Traced.launch (cfg : Config) : (World.launch cfg).Traced cfg where
  roles := World.Roles.launch cfg
  hosts := ⟨[], rfl, by simp⟩
  transit := Multiset.zero_le _
  current := le_refl 1
  req := by simp [World.launch]
  register := by simp [World.launch]
  origin := by simp [World.launch]

section Origin

variable {cfg : Config} {w w' : World} {db db' : Process} {s_buffer : Str} {host : Host} {msg : Msg}

/-- A server chooses a registered repository, whatever the name. -/
theorem Place.host_mem {p : Place} (hp : ¬ p.IsReverse) {self : Host} {repos : List Host} {b : Str}
    (h : p.host (self :: repos) b = .ok host) : host ∈ repos := by
  unfold Place.host at h
  rw [Place.index_eq, if_neg hp] at h
  obtain ⟨r, hr, h⟩ := bind_eq_ok.mp h
  have hrange := indexPlusOne_range hr
  obtain ⟨h0, hget⟩ := hostAt_eq_ok.mp h
  obtain ⟨k, hk⟩ : ∃ k, r.toNat = k + 1 := ⟨r.toNat - 1, by omega⟩
  rw [hk, List.getElem?_cons_succ] at hget
  exact List.mem_of_getElem? hget

theorem Accepts.host_mem (h : Accepts db s_buffer host msg) {self : Host} {repos : List Host}
    (hrepos : db.repositories = self :: repos) : host ∈ repos := by
  cases h with
  | node _ _ hhost => exact Place.host_mem (by decide) (hrepos ▸ hhost)
  | query _ _ hhost => exact Place.host_mem (by decide) (hrepos ▸ hhost)
  | update _ _ hhost => exact Place.host_mem (by decide) (hrepos ▸ hhost)
  | delete _ _ hhost => exact Place.host_mem (by decide) (hrepos ▸ hhost)

theorem Accepts.short (h : Accepts db s_buffer host msg) (hlen : s_buffer.length < 2 ^ 63) :
    msg.Short := by
  cases h with
  | @node d _ hread _ =>
    have hfits := readNode_fits hlen hread
    exact ⟨hfits.name, hfits.relations_length, hfits.relations, hfits.attributes_length,
      hfits.attributes, hfits.id, Nat.zero_le 9, List.forall_mem_nil _⟩
  | query => trivial
  | update => trivial
  | delete _ hread _ => exact readDelete_fits hlen hread

theorem IsReverse.reversed {node_name rel : Str} {master_repos : List Host} {s : Send}
    (h : IsReverse node_name master_repos rel s) (hname : ShortText node_name)
    (hrel : ShortText rel) : s.msg.IsReversed := by
  obtain ⟨-, host, -, rfl⟩ := h
  refine ⟨⟨hrel, by simp, ?_, by simp, by simp, by simp [ShortId], by simp, by simp⟩, rfl, rfl⟩
  intro x hx
  rwa [List.mem_singleton.mp hx]

theorem IsReverseDelete.reversed {m : DeleteMsg} {master_repos : List Host} {out : List Send}
    (h : IsReverseDelete m master_repos out) (hname : ShortText m.nameA)
    (hattr : ShortText m.attr_or_rel) : ∀ s ∈ out, s.msg.IsReversed := by
  intro s hs
  rcases h with ⟨-, rfl⟩ | ⟨hobject, -, host, -, rfl⟩
  · simp at hs
  · rw [List.mem_singleton.mp hs]
    refine ⟨⟨hattr, ?_, hname, by simp [ShortId], by simp, by simp⟩, rfl, rfl⟩
    show 0 ≤ m.object ∧ m.object ≤ 9
    omega

theorem exists_of_forall₂ {α β : Type} {R : α → β → Prop} {l : List α} {l' : List β}
    (h : List.Forall₂ R l l') {b : β} (hb : b ∈ l') : ∃ a ∈ l, R a b := by
  induction h with
  | nil => simp at hb
  | @cons a b' l l' hr _ ih =>
    rcases List.mem_cons.mp hb with rfl | hb
    · exact ⟨a, List.mem_cons_self, hr⟩
    · obtain ⟨a', ha', hr'⟩ := ih hb
      exact ⟨a', List.mem_cons_of_mem _ ha', hr'⟩

theorem RepositoryStep.reversed {from_addr : Host} {out : List Send}
    (h : RepositoryStep db from_addr s_buffer db' out) (hfree : db.cud_blocking = false)
    (hlen : s_buffer.length < 2 ^ 63) :
    ∀ s ∈ out, s.msg.spreads = true → s.msg.IsReversed := by
  intro s hs hspreads
  have hmem : s ∈ out.filter fun s => s.msg.spreads := List.mem_filter.mpr ⟨hs, hspreads⟩
  rcases h.spread hfree with ⟨d, hosts, rest, sent, -, hread, -, hsub, hreverses⟩ |
    ⟨d, hosts, rest, -, hread, -, hreverse⟩ | ⟨-, -, hnil⟩
  · have hfits := readNode_fits hlen hread
    obtain ⟨rel, hrel, hrev⟩ := exists_of_forall₂ hreverses hmem
    exact hrev.reversed hfits.name (hfits.relations rel (hsub.subset hrel))
  · obtain ⟨hname, hattr⟩ := readDelete_fits hlen hread
    exact hreverse.reversed hname hattr s hmem
  · rw [hnil] at hmem
    simp at hmem

theorem mem_stamp {src : Host} {req : ℕ} {out : List Send} {b : Envelope} :
    b ∈ World.stamp src req out ↔ ∃ s ∈ out, b = ⟨src, s.host, s.msg, req⟩ := by
  unfold World.stamp
  rw [List.mem_map]
  exact exists_congr fun s => and_congr_right fun _ => eq_comm

theorem Serves.spreads {s : Send} (h : Serves db s_buffer s) : s.msg.spreads = false := by
  rcases h with ⟨m, hm, -⟩ | ⟨q, hq, -⟩
  · rw [hm]
    rfl
  · rw [hq]
    rfl

theorem Serves.ne_register {s : Send} (h : Serves db s_buffer s) : s.msg ≠ .register := by
  rcases h with ⟨m, hm, -⟩ | ⟨q, hq, -⟩
  · simp [hm]
  · simp [hq]

theorem Accepts.ne_register (h : Accepts db s_buffer host msg) : msg ≠ .register := by
  cases h <;> simp

theorem RepositoryStep.spreads_of_mem {from_addr : Host} {m : Msg} {out : List Send}
    (h : RepositoryStep db from_addr m.buffer db' out) (hfree : db.cud_blocking = false) {s : Send}
    (hs : s ∈ out) (hspreads : s.msg.spreads = true) : m.spreads = true := by
  have hmem : s ∈ out.filter fun s => s.msg.spreads := List.mem_filter.mpr ⟨hs, hspreads⟩
  rcases h.spread hfree with ⟨d, hosts, rest, sent, hhead, -⟩ | ⟨d, hosts, rest, hhead, -⟩ |
    ⟨-, -, hnil⟩
  · obtain ⟨n, rfl⟩ := Msg.eq_node hhead
    rfl
  · obtain ⟨n, rfl⟩ := Msg.eq_delete hhead
    rfl
  · rw [hnil] at hmem
    simp at hmem

theorem IsReply.ne_register {request_id : ℤ} {message : Str} {out : List Send}
    (h : IsReply db request_id message out) : ∀ s ∈ out, s.msg ≠ .register := by
  rcases h with ⟨-, rfl⟩ | ⟨-, host, -, rfl⟩
  · simp
  · simp

theorem RepositoryStep.ne_register {from_addr : Host} {out : List Send}
    (h : RepositoryStep db from_addr s_buffer db' out) : ∀ s ∈ out, s.msg ≠ .register := by
  cases h with
  | response => simp [responseBranch]
  | info _ _ hstep => cases hstep <;> simp
  | busy => simp [DGDB.busy]
  | node _ _ _ hstep =>
    cases hstep with
    | failed hreport =>
      obtain ⟨what, rfl⟩ := hreport
      simp
    | stored hloop hreply =>
      intro s hs hregister
      rcases List.mem_append.mp hs with hs | hs
      · obtain ⟨what, rfl⟩ := hloop.reports s hs (hregister ▸ rfl)
        cases hregister
      · exact hreply.ne_register s hs hregister
  | query => simp
  | update => simp
  | delete _ _ _ hreverse hreply =>
    intro s hs hregister
    rcases List.mem_append.mp hs with hs | hs
    · rcases hreverse with ⟨-, rfl⟩ | ⟨-, -, host, -, rfl⟩
      · simp at hs
      · rw [List.mem_singleton.mp hs] at hregister
        cases hregister
    · exact hreply.ne_register s hs hregister
  | register => simp
  | ignore => simp

theorem transit_le {a : Envelope} {rest : Multiset Envelope} {sent es : List Envelope}
    {transit : Multiset Envelope} (htransit : transit = a ::ₘ rest)
    (h : transit ≤ (sent : Multiset Envelope)) :
    rest + (es : Multiset Envelope) ≤ ((sent ++ es : List Envelope) : Multiset Envelope) := by
  rw [← Multiset.coe_add]
  exact add_le_add_left ((Multiset.le_cons_self rest a).trans (htransit ▸ h)) _

theorem World.Traced.mem_sent (h : w.Traced cfg) {a : Envelope} {rest : Multiset Envelope}
    (htransit : w.transit = a ::ₘ rest) : a ∈ w.sent :=
  Multiset.mem_coe.mp (Multiset.mem_of_le h.transit (htransit ▸ Multiset.mem_cons_self a rest))

theorem World.Traced.extend (h : w.Traced cfg) {es : List Envelope} (hsent : w'.sent = w.sent ++ es)
    (hroles : w'.Roles)
    (hhosts : ∃ repos, w'.server.repositories = cfg.self :: repos ∧ ∀ h ∈ repos, h ∈ cfg.repos)
    (htransit : w'.transit ≤ (w'.sent : Multiset Envelope))
    (hcurrent : w.server.current_request ≤ w'.server.current_request)
    (hnew : ∀ b ∈ es, b.req < w'.server.current_request ∧
      (b.msg = .register → b.src ∈ cfg.repos) ∧ (b.msg.spreads = true → Origin cfg b)) :
    w'.Traced cfg := by
  refine ⟨hroles, hhosts, htransit, h.current.trans hcurrent, ?_, ?_, ?_⟩
  · intro b hb
    rcases List.mem_append.mp (hsent ▸ hb) with hb | hb
    · exact lt_of_lt_of_le (h.req b hb) hcurrent
    · exact (hnew b hb).1
  · intro b hb
    rcases List.mem_append.mp (hsent ▸ hb) with hb | hb
    · exact h.register b hb
    · exact (hnew b hb).2.1
  · intro b hb
    rcases List.mem_append.mp (hsent ▸ hb) with hb | hb
    · exact h.origin b hb
    · exact (hnew b hb).2.2

/-- A `C` or `D` at a repository belongs to an accepted request. -/
theorem Origin.req_pos {a : Envelope} (h : Origin cfg a) (hdst : a.dst ∈ cfg.repos) :
    1 ≤ a.req := by
  cases h with
  | client _ haddress => exact absurd (haddress ▸ hdst) cfg.apart
  | server _ _ hreq => exact hreq
  | repository _ hreq => exact hreq

theorem Msg.IsRequest.ne_register {msg : Msg} (h : msg.IsRequest) : msg ≠ .register := by
  rintro rfl
  exact h

theorem JoinStep.traced {e : JoinEvent} (h : JoinStep cfg w e w') (ht : w.Traced cfg)
    (hstr : w.Strings) :
    w'.Traced cfg := by
  have hroles := h.roles ht.roles
  have hpos : 0 < w.server.current_request := ht.current
  cases h with
  | @request client msg hclient hmsg =>
    have hpost :
        w.transit + (([⟨client, cfg.address, msg, 0⟩] : List Envelope) : Multiset Envelope) ≤
        ((w.sent ++ [⟨client, cfg.address, msg, 0⟩] : List Envelope) : Multiset Envelope) := by
      rw [← Multiset.coe_add]
      exact add_le_add_left ht.transit _
    refine ht.extend rfl hroles ht.hosts hpost le_rfl fun b hb => ?_
    rw [List.mem_singleton.mp hb]
    exact ⟨hpos, fun h => absurd h hmsg.ne_register, fun _ => Origin.client hclient rfl rfl⟩
  | @register repo hrepo =>
    have hpost : w.transit +
        (([⟨repo, cfg.address, .register, 0⟩] : List Envelope) : Multiset Envelope) ≤
        ((w.sent ++ [⟨repo, cfg.address, .register, 0⟩] : List Envelope) : Multiset Envelope) := by
      rw [← Multiset.coe_add]
      exact add_le_add_left ht.transit _
    refine ht.extend rfl hroles ht.hosts hpost le_rfl fun b hb => ?_
    rw [List.mem_singleton.mp hb]
    exact ⟨hpos, fun _ => hrepo, fun h => by cases h⟩
  | @accept a throws rest db host msg htransit hdst haccepts hcurrent hserver hhosts =>
    obtain ⟨repos, hrepos, hmem⟩ := ht.hosts
    have hlen := hstr a (htransit ▸ Multiset.mem_cons_self a rest)
    refine ht.extend rfl hroles ⟨repos, hhosts.trans hrepos, hmem⟩ (transit_le htransit ht.transit)
      ?_ fun b hb => ?_
    · show w.server.current_request ≤ db.current_request
      omega
    · rw [List.mem_singleton.mp hb]
      refine ⟨?_, fun h => absurd h haccepts.ne_register, fun _ =>
        Origin.server rfl (hmem _ (haccepts.host_mem hrepos)) ht.current (haccepts.short hlen)⟩
      show w.server.current_request < db.current_request
      omega
  | @serve a throws rest db out htransit hdst hserves hcurrent hserver hhosts =>
    obtain ⟨repos, hrepos, hmem⟩ := ht.hosts
    have ha := ht.mem_sent htransit
    refine ht.extend rfl hroles ⟨repos ++ if a.msg.buffer.headD 0 = ch 'E' then [a.src] else [],
      ?_, ?_⟩ (transit_le htransit ht.transit) hcurrent.ge fun b hb => ?_
    · show db.repositories = _
      rw [hhosts, hrepos, List.cons_append]
    · intro h hh
      rcases List.mem_append.mp hh with hh | hh
      · exact hmem h hh
      · split_ifs at hh with hhead
        · rw [List.mem_singleton.mp hh]
          exact ht.register a ha (Msg.eq_register hhead)
        · simp at hh
    · obtain ⟨s, hs, rfl⟩ := mem_stamp.mp hb
      refine ⟨?_, fun h => absurd h (hserves s hs).ne_register, fun h => ?_⟩
      · show a.req < db.current_request
        exact hcurrent ▸ ht.req a ha
      · have hno := (hserves s hs).spreads
        rw [hno] at h
        cases h
  | @repository a throws rest db out htransit hdst hstep =>
    have ha := ht.mem_sent htransit
    have hlen := hstr a (htransit ▸ Multiset.mem_cons_self a rest)
    refine ht.extend rfl hroles ht.hosts (transit_le htransit ht.transit) le_rfl fun b hb => ?_
    obtain ⟨s, hs, rfl⟩ := mem_stamp.mp hb
    refine ⟨ht.req a ha, fun h => absurd h (hstep.ne_register s hs), fun h => ?_⟩
    have hspreads : a.msg.spreads = true := hstep.spreads_of_mem (ht.roles.repo_free _) hs h
    exact Origin.repository hdst ((ht.origin a ha hspreads).req_pos hdst)
      (hstep.reversed (ht.roles.repo_free _) hlen s hs h)
  | @client a throws rest htransit hdst =>
    have hsent : w.sent = w.sent ++ [] := (List.append_nil _).symm
    refine ht.extend hsent hroles ht.hosts ?_ le_rfl (by simp)
    exact (Multiset.le_cons_self rest a).trans (htransit ▸ ht.transit)

end Origin

end DGDB
