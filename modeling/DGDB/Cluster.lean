import Mathlib
import DGDB.Lib.Run
import DGDB.Repository

/-!
# Server, repositories and clients

The processes of one deployment and the messages in transit between them. A message in transit is
delivered at any time, in any order and once: its buffer is handed to the receive loop of the
process it is addressed to. What the ghost fields `req`, `accepted` and `sent` record, no process
reads.
-/

namespace DGDB

open EventSystem

/-! ## Worlds -/

/-- The addresses of a deployment: `self` is the server's own entry in its list of repositories,
`address` the one its peers know. -/
structure Config where
  self : Host
  address : Host
  repos : List Host
  apart : address ∉ repos

/-- The list `repositories` of the server. -/
def Config.hosts (cfg : Config) : List Host := cfg.self :: cfg.repos

/-- A host that is neither the server nor a repository. -/
def Config.IsClient (cfg : Config) (h : Host) : Prop := h ≠ cfg.address ∧ h ∉ cfg.repos

instance (cfg : Config) (h : Host) : Decidable (cfg.IsClient h) :=
  inferInstanceAs (Decidable (_ ∧ _))

/-- A message in transit. `req` is the number of the accepted request it belongs to, or 0. -/
structure Envelope where
  src : Host
  dst : Host
  msg : Msg
  req : ℕ
  deriving DecidableEq

/-- The processes and the messages in transit, with the accepted requests by number and everything
that has been sent. -/
structure World where
  server : Process
  repo : Host → Process
  transit : Multiset Envelope
  accepted : List (ℕ × Envelope)
  sent : List Envelope

/-- The server once its repositories have registered. -/
def Process.newServer (cfg : Config) : Process :=
  ⟨true, !cfg.repos.isEmpty, cfg.hosts, false, 1, fun _ => none, Storage.empty⟩

def Process.newRepository (cfg : Config) : Process :=
  ⟨false, true, [cfg.address], false, 1, fun _ => none, Storage.empty⟩

def World.start (cfg : Config) : World :=
  ⟨Process.newServer cfg, fun _ => Process.newRepository cfg, 0, [], []⟩

/-! ## Steps -/

/-- What a client sends: no request id and no host list. -/
def Msg.IsRequest : Msg → Prop
  | .node m => m.request_id = 0 ∧ m.master_repos = []
  | .query m => m.request_id = 0
  | .update m => m.request_id = 0
  | .delete m => m.request_id = 0 ∧ m.master_repos = []
  | _ => False

instance : DecidablePred Msg.IsRequest
  | .node _ => inferInstanceAs (Decidable (_ ∧ _))
  | .query _ => inferInstanceAs (Decidable (_ = _))
  | .update _ => inferInstanceAs (Decidable (_ = _))
  | .delete _ => inferInstanceAs (Decidable (_ ∧ _))
  | .response _ => inferInstanceAs (Decidable False)
  | .info _ => inferInstanceAs (Decidable False)
  | .register => inferInstanceAs (Decidable False)

inductive Event
  /-- A client sends a request. -/
  | request (client : Host) (msg : Msg)
  /-- A message is delivered; `throws` is what the storage calls of the turn throw. -/
  | deliver (a : Envelope) (throws : ℕ → Option Str)

namespace World

/-- New messages in transit. -/
def post (w : World) (es : List Envelope) : World :=
  { w with transit := w.transit + es, sent := w.sent ++ es }

/-- The messages of a turn, as the process at `src` sends them. -/
def stamp (src : Host) (req : ℕ) (out : List Send) : List Envelope :=
  out.map fun s => ⟨src, s.host, s.msg, req⟩

/-- The world after the server's turn on `a`. -/
def serverTurn (cfg : Config) (w : World) (a : Envelope) (db : Process) (out : List Send) : World :=
  if w.server.current_request < db.current_request then
    post { w with server := db, accepted := w.accepted ++ [(w.server.current_request, a)] }
      (stamp cfg.address w.server.current_request out)
  else post { w with server := db } (stamp cfg.address a.req out)

/-- The world after a repository's turn on `a`. -/
def repoTurn (w : World) (a : Envelope) (db : Process) (out : List Send) : World :=
  post { w with repo := Function.update w.repo a.dst db } (stamp a.dst a.req out)

/-- The turn of the process `a` is addressed to, unless it ends in a fault. A client takes its
message and sends nothing. -/
def handle (cfg : Config) (throws : ℕ → Option Str) (w : World) (a : Envelope) : Option World :=
  if a.dst = cfg.address then
    match runConnection throws w.server a.src a.msg.buffer with
    | .ok (db, out) => some (w.serverTurn cfg a db out)
    | .error _ => none
  else if a.dst ∈ cfg.repos then
    match runConnection throws (w.repo a.dst) a.src a.msg.buffer with
    | .ok (db, out) => some (w.repoTurn a db out)
    | .error _ => none
  else some w

def step (cfg : Config) (w : World) : Event → Option World
  | .request client msg =>
    if cfg.IsClient client ∧ msg.IsRequest then some (w.post [⟨client, cfg.address, msg, 0⟩])
    else none
  | .deliver a throws =>
    if a ∈ w.transit then handle cfg throws { w with transit := w.transit.erase a } a else none

end World

section Steps

variable {cfg : Config} {w w' : World}

@[simp] theorem World.post_server (es : List Envelope) : (w.post es).server = w.server := rfl
@[simp] theorem World.post_repo (es : List Envelope) : (w.post es).repo = w.repo := rfl
@[simp] theorem World.post_transit (es : List Envelope) :
    (w.post es).transit = w.transit + es := rfl
@[simp] theorem World.post_accepted (es : List Envelope) : (w.post es).accepted = w.accepted := rfl
@[simp] theorem World.post_sent (es : List Envelope) : (w.post es).sent = w.sent ++ es := rfl

@[simp] theorem World.serverTurn_server (a : Envelope) (db : Process) (out : List Send) :
    (w.serverTurn cfg a db out).server = db := by
  unfold World.serverTurn
  split_ifs <;> rfl

@[simp] theorem World.serverTurn_repo (a : Envelope) (db : Process) (out : List Send) :
    (w.serverTurn cfg a db out).repo = w.repo := by
  unfold World.serverTurn
  split_ifs <;> rfl

@[simp] theorem World.repoTurn_self (a : Envelope) (db : Process) (out : List Send) :
    (w.repoTurn a db out).repo a.dst = db :=
  Function.update_self _ _ _

theorem World.repoTurn_of_ne {a : Envelope} {db : Process} {out : List Send} {host : Host}
    (h : host ≠ a.dst) : (w.repoTurn a db out).repo host = w.repo host :=
  Function.update_of_ne h _ _

theorem World.forall_repoTurn (P : Process → Prop) {a : Envelope} {db : Process} {out : List Send}
    (hself : P db) (hothers : ∀ host ∈ cfg.repos, P (w.repo host)) :
    ∀ host ∈ cfg.repos, P ((w.repoTurn a db out).repo host) := by
  intro host hhost
  by_cases heq : host = a.dst
  · rwa [heq, World.repoTurn_self]
  · rw [World.repoTurn_of_ne heq]
    exact hothers host hhost

theorem step_request {client : Host} {msg : Msg} (h : w.step cfg (.request client msg) = some w') :
    cfg.IsClient client ∧ msg.IsRequest ∧ w' = w.post [⟨client, cfg.address, msg, 0⟩] := by
  simp only [World.step] at h
  split_ifs at h with hok
  exact ⟨hok.1, hok.2, (Option.some.inj h).symm⟩

theorem step_deliver {a : Envelope} {throws : ℕ → Option Str}
    (h : w.step cfg (.deliver a throws) = some w') :
    ∃ rest, w.transit = a ::ₘ rest ∧
      World.handle cfg throws { w with transit := rest } a = some w' := by
  simp only [World.step] at h
  split_ifs at h with hmem
  exact ⟨w.transit.erase a, (Multiset.cons_erase hmem).symm, h⟩

/-- What handling a message does, by the role of its receiver. -/
theorem handle_cases {a : Envelope} {throws : ℕ → Option Str}
    (h : w.handle cfg throws a = some w') :
    (a.dst = cfg.address ∧ ∃ db out,
      runConnection throws w.server a.src a.msg.buffer = .ok (db, out) ∧
      w' = w.serverTurn cfg a db out) ∨
    (a.dst ∈ cfg.repos ∧ ∃ db out,
      runConnection throws (w.repo a.dst) a.src a.msg.buffer = .ok (db, out) ∧
      w' = w.repoTurn a db out) ∨
    (cfg.IsClient a.dst ∧ w' = w) := by
  unfold World.handle at h
  split_ifs at h with hserver hrepo
  · refine Or.inl ⟨hserver, ?_⟩
    split at h
    · rename_i db out hrun
      exact ⟨db, out, hrun, (Option.some.inj h).symm⟩
    · cases h
  · refine Or.inr (Or.inl ⟨hrepo, ?_⟩)
    split at h
    · rename_i db out hrun
      exact ⟨db, out, hrun, (Option.some.inj h).symm⟩
    · cases h
  · exact Or.inr (Or.inr ⟨⟨hserver, hrepo⟩, (Option.some.inj h).symm⟩)

end Steps

end DGDB
