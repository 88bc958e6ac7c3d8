import Mathlib
import DGDB.Cluster

/-!
# The turns of a deployment

Where each message in transit comes from and goes to (`Placed`), which of them carries the request
that an entry of `pending` waits for (`Awaits`), and what a turn on a placed message does (`Turn`).
Every invariant of a deployment is proved by cases on `Turn`.
-/

namespace DGDB

/-! ## Kinds of messages -/

/-- The names in a message start with an ASCII byte. -/
def Msg.Ascii : Msg → Prop
  | .node m => AsciiName m.nameA ∧ ∀ rel ∈ m.relations, AsciiName rel
  | .query m => AsciiName m.nameA
  | .update m => AsciiName m.nameA
  | .delete m => AsciiName m.nameA ∧ (m.object = 2 → AsciiName m.attr_or_rel)
  | .response _ => True
  | .info m => AsciiName m.nameA ∧ ∀ rel ∈ m.relations, AsciiName rel
  | .register => True

instance : DecidablePred Msg.Ascii
  | .node _ => inferInstanceAs (Decidable (_ ∧ _))
  | .query m => inferInstanceAs (Decidable (AsciiName m.nameA))
  | .update m => inferInstanceAs (Decidable (AsciiName m.nameA))
  | .delete _ => inferInstanceAs (Decidable (_ ∧ (_ → _)))
  | .response _ => inferInstanceAs (Decidable True)
  | .info _ => inferInstanceAs (Decidable (_ ∧ _))
  | .register => inferInstanceAs (Decidable True)

namespace Msg

/-- The node a request is about. -/
def name : Msg → Str
  | .node m => m.nameA
  | .query m => m.nameA
  | .update m => m.nameA
  | .delete m => m.nameA
  | .response _ => []
  | .info m => m.nameA
  | .register => []

/-- The message the server forwards for a request, under the request id `n`. -/
def forwarded (hosts : List Host) (n : ℕ) : Msg → Msg
  | .node m => .node ⟨m.nameA, m.attributes.map Attribute.wire, m.relations, n, hosts⟩
  | .query m => .query { m with request_id := n }
  | .update m => .update { m with attr := if m.is_node then [] else m.attr, request_id := n }
  | .delete m => .delete ⟨m.nameA, m.object, if 0 < m.object then m.attr_or_rel else [], n, hosts⟩
  | m => m

/-- The query state the server opens for a request. -/
def state : Msg → Option QueryState
  | .query m => some (QueryState.start m)
  | _ => none

def isQuery : Msg → Bool
  | .query _ => true
  | _ => false

def isResponse : Msg → Bool
  | .response _ => true
  | _ => false

def isInfo : Msg → Bool
  | .info _ => true
  | _ => false

/-- A `C` or a `D` for the reverse of a relation. -/
def IsSecondary : Msg → Prop
  | .node m => m.request_id = 0 ∧ m.master_repos = []
  | .delete m => m.request_id = 0 ∧ m.master_repos = []
  | _ => False

/-- A request as the server forwards it. -/
def IsForwarded (hosts : List Host) : Msg → Prop
  | .node m => m.master_repos = hosts
  | .query _ => True
  | .update _ => True
  | .delete m => m.master_repos = hosts
  | _ => False

/-- A message a repository answers the server with. -/
def IsReply : Msg → Prop
  | .response _ => True
  | .info _ => True
  | _ => False

end Msg

/-! ## Messages in transit -/

/-- Where a message in transit comes from and goes to. -/
inductive Placed (cfg : Config) (a : Envelope) : Prop
  | request (hdst : a.dst = cfg.address) (hsrc : cfg.IsClient a.src) (hmsg : a.msg.IsRequest)
      (hreq : a.req = 0)
  | answer {m : ResponseMsg} (hsrc : a.src = cfg.address) (hdst : cfg.IsClient a.dst)
      (hmsg : a.msg = .response m)
  | secondary (hsrc : a.src ∈ cfg.repos) (hdst : a.dst ∈ cfg.repos) (hmsg : a.msg.IsSecondary)
  | forwarded (hsrc : a.src = cfg.address) (hdst : a.dst ∈ cfg.repos)
      (hmsg : a.msg.IsForwarded cfg.hosts) (hid : a.msg.request_id = a.req) (hreq : 1 ≤ a.req)
  | reply (hsrc : a.src ∈ cfg.repos) (hdst : a.dst = cfg.address) (hmsg : a.msg.IsReply)
      (hid : a.msg.request_id = a.req) (hreq : 1 ≤ a.req)

/-- `a` carries the request `id`: it is on its way to a process that will act on it. -/
def Carries (cfg : Config) (id : ℤ) (a : Envelope) : Prop :=
  a.msg.request_id = id ∧ ¬ cfg.IsClient a.dst

instance (cfg : Config) (id : ℤ) : DecidablePred (Carries cfg id) :=
  fun _ => inferInstanceAs (Decidable (_ ∧ _))

/-- `a` is the message that the entry of `pending` waits for: a forwarded write or its reply, and
for a query the `R` or the `I` for the name at the front of its queue. -/
def Awaits (cfg : Config) (entry : Pending) (a : Envelope) : Prop :=
  match entry.state with
  | none => a.msg.isQuery = false ∧ a.dst ∈ cfg.repos ∨
      a.dst = cfg.address ∧ ∃ m, a.msg = .response m
  | some st => ∃ u t queue, st.node_queue = (u, t) :: queue ∧
      ((a.dst ∈ cfg.repos ∧ ∃ q, a.msg = .query q ∧ q.nameA = u) ∨
        a.dst = cfg.address ∧ ∃ i, a.msg = .info i ∧ i.nameA = u)

/-- The `M`s with the id `id` among what the server has sent. -/
def answers (cfg : Config) (id : ℤ) (sent : List Envelope) : List Envelope :=
  sent.filter fun a =>
    decide (a.src = cfg.address ∧ a.msg.isResponse = true ∧ a.msg.request_id = id)

/-! ## Turns -/

/-- The server once it has accepted the request `msg` of `client`. -/
def Process.book (db : Process) (client : Host) (msg : Msg) : Process :=
  { db.file db.current_request ⟨client, msg.state⟩ with
    current_request := db.current_request + 1
    cud_blocking := db.cud_blocking || msg.isQuery }

/-- A repository once it has stored the node of a `C`. -/
def Process.store (db : Process) (m : NodeMsg) : Process :=
  { db with storage := stored db.storage m.wire }

/-- What the turn on `a` makes of the world. -/
inductive Turn (cfg : Config) (w : World) (a : Envelope) : World → Prop
  /-- The server refuses a write while a query is pending. -/
  | busy (hdst : a.dst = cfg.address) (hsrc : cfg.IsClient a.src) (hmsg : a.msg.IsRequest)
      (hwrite : a.msg.isQuery = false) (hbusy : w.server.cud_blocking = true) :
      Turn cfg w a (w.post [⟨cfg.address, a.src, .response ⟨busyText, 0⟩, a.req⟩])
  /-- The server accepts a request and forwards it. -/
  | accept (hdst : a.dst = cfg.address) (hsrc : cfg.IsClient a.src) (hmsg : a.msg.IsRequest)
      (hfree : a.msg.isQuery = false → w.server.cud_blocking = false) :
      Turn cfg w a (World.post { w with
          server := w.server.book a.src a.msg
          accepted := w.accepted ++ [(w.server.current_request, a)] }
        [⟨cfg.address, owner cfg.hosts a.msg.name,
          a.msg.forwarded cfg.hosts w.server.current_request, w.server.current_request⟩])
  /-- The server passes the answer of a repository on to the client. -/
  | response {m : ResponseMsg} {client : Host} (hdst : a.dst = cfg.address)
      (hsrc : a.src ∈ cfg.repos) (hmsg : a.msg = .response m)
      (hpending : w.server.pending m.request_id = some ⟨client, none⟩) :
      Turn cfg w a (World.post { w with server := w.server.close m.request_id }
        [⟨cfg.address, client, .response m, a.req⟩])
  /-- The last reply of a query. -/
  | complete {i : InfoMsg} {client : Host} {st : QueryState} {t : ℕ} {queue : List (Str × ℕ)}
      (hdst : a.dst = cfg.address) (hsrc : a.src ∈ cfg.repos) (hmsg : a.msg = .info i)
      (hpending : w.server.pending i.request_id = some ⟨client, some st⟩)
      (hqueue : st.node_queue = (i.nameA, t) :: queue)
      (hempty : (st.advance (i.nameA, t) queue i.wire).node_queue = []) :
      Turn cfg w a (World.post
        { w with server := { w.server.close i.request_id with cud_blocking := false } }
        [⟨cfg.address, client, .response
          ⟨completeText (st.advance (i.nameA, t) queue i.wire).response, i.request_id⟩, a.req⟩])
  /-- A reply after which the query goes on. -/
  | next {i : InfoMsg} {client : Host} {st : QueryState} {t s : ℕ} {queue rest : List (Str × ℕ)}
      {v : Str} (hdst : a.dst = cfg.address) (hsrc : a.src ∈ cfg.repos) (hmsg : a.msg = .info i)
      (hpending : w.server.pending i.request_id = some ⟨client, some st⟩)
      (hqueue : st.node_queue = (i.nameA, t) :: queue)
      (hnext : (st.advance (i.nameA, t) queue i.wire).node_queue = (v, s) :: rest)
      (hascii : AsciiName v) :
      Turn cfg w a (World.post
        { w with
          server := w.server.file i.request_id
            ⟨client, some (st.advance (i.nameA, t) queue i.wire)⟩ }
        [⟨cfg.address, owner cfg.hosts v,
          .query ⟨v, toInt s, st.leaf, st.attr, st.conditions, i.request_id⟩, a.req⟩])
  /-- A repository stores a node. -/
  | stored {m : NodeMsg} (hdst : a.dst ∈ cfg.repos) (hmsg : a.msg = .node m)
      (hhosts : m.master_repos = [] ∨ m.master_repos = cfg.hosts)
      (hascii : ∀ rel ∈ m.relations, AsciiName rel) :
      Turn cfg w a (World.post
        { w with repo := Function.update w.repo a.dst ((w.repo a.dst).store m) }
        (World.stamp a.dst a.req (reverses m ++ if m.request_id = 0 then []
          else [⟨cfg.address, .response ⟨storedReply (w.repo a.dst).storage m, m.request_id⟩⟩])))
  /-- A repository answers for a node of a query. -/
  | asked {m : QueryMsg} (hdst : a.dst ∈ cfg.repos) (hmsg : a.msg = .query m) :
      Turn cfg w a (w.post
        [⟨a.dst, cfg.address, .info (queryReply (w.repo a.dst).storage m), a.req⟩])
  | updated {m : UpdateMsg} (hdst : a.dst ∈ cfg.repos) (hmsg : a.msg = .update m) :
      Turn cfg w a (w.post
        [⟨a.dst, cfg.address, .response ⟨updatedText, m.request_id⟩, a.req⟩])
  | deleted {m : DeleteMsg} (hdst : a.dst ∈ cfg.repos) (hmsg : a.msg = .delete m)
      (hhosts : m.master_repos = [] ∨ m.master_repos = cfg.hosts)
      (hascii : m.object = 2 → AsciiName m.attr_or_rel) :
      Turn cfg w a (w.post (World.stamp a.dst a.req (reversesDelete m ++ if m.request_id = 0 then []
        else [⟨cfg.address, .response ⟨deletedText m.object, m.request_id⟩⟩])))
  /-- A client takes its answer. -/
  | taken (hdst : cfg.IsClient a.dst) : Turn cfg w a w

end DGDB
