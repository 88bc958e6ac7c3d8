import Mathlib
import DGDB.Lib.GraphSearch
import DGDB.Wire

/-!
# A process and its receive loop

The state of a `DGDB` object and one turn of the loop in `runConnection`: what it does with one
received string, the messages it sends and the fault that may end it. The same code runs on the
server and on a repository.
-/

namespace DGDB

open GraphSearch

/-! ## State -/

/-- `struct QueryState`. -/
structure QueryState where
  leaf : Bool
  attr : Bool
  depth : ℕ
  conditions : List Condition
  node_queue : List (Str × ℕ)
  visited : Finset Str
  response : Str
  deriving DecidableEq

/-- `struct Pending`. -/
structure Pending where
  client_sock : Host
  state : Option QueryState
  deriving DecidableEq

/-- The entry that `pending[id]` creates for a missing id. -/
def Pending.fresh : Pending := ⟨⟨str "0.0.0.0", 0⟩, none⟩

/-- The members of a `DGDB` object that `runConnection` reads. -/
structure Process where
  server : Bool
  repository : Bool
  repositories : List Host
  cud_blocking : Bool
  current_request : ℕ
  pending : ℤ → Option Pending
  storage : Storage

/-- A call of `parseNew…`: the message and the host it is sent to. -/
structure Send where
  host : Host
  msg : Msg
  deriving DecidableEq

abbrev Outcome := Result (Process × List Send)

namespace Process

/-- `pending[id] = entry`. -/
def file (db : Process) (id : ℤ) (entry : Pending) : Process :=
  { db with pending := Function.update db.pending id (some entry) }

/-- `pending.erase(id)`. -/
def close (db : Process) (id : ℤ) : Process :=
  { db with pending := Function.update db.pending id none }

theorem pending_of_close {db : Process} {id k : ℤ} {entry : Pending}
    (h : (db.close k).pending id = some entry) :
    db.pending id = some entry := by
  unfold close at h
  simp only at h
  by_cases heq : id = k
  · subst heq
    simp at h
  · rwa [Function.update_of_ne heq] at h

theorem pending_of_file {db : Process} {id k : ℤ} {entry entry' : Pending}
    (h : (db.file k entry).pending id = some entry') :
    (id = k ∧ entry' = entry) ∨ db.pending id = some entry' := by
  unfold file at h
  simp only at h
  by_cases heq : id = k
  · subst heq
    rw [Function.update_self] at h
    exact Or.inl ⟨rfl, (Option.some.inj h).symm⟩
  · rw [Function.update_of_ne heq] at h
    exact Or.inr h

end Process

/-! ## Choosing a repository

An index is kept as a mathematical integer: it is below the number of hosts, which an `int`
holds. -/

/-- `hosts[i]`: undefined unless `i` is an index of the vector. -/
def hostAt (hosts : List Host) (i : ℤ) : Result Host :=
  if i < 0 then throw .undefined
  else match hosts[i.toNat]? with
    | some h => pure h
    | none => throw .undefined

/-- `(c % (repositories.size() - 1)) + 1`, in the `C`, `R` and `I` branches. -/
def indexPlusOne (c : UInt8) (size : ℕ) : Result ℤ :=
  if size - 1 = 0 then throw .undefined
  else pure ((toSizeT (signedChar c) % (size - 1) + 1 : ℕ) : ℤ)

/-- `r = c % (repositories.size() - 1)` and `r++`, in the `U` and `D` branches. -/
def indexIncremented (c : UInt8) (size : ℕ) : Result ℤ :=
  if size - 1 = 0 then throw .undefined
  else pure (((toSizeT (signedChar c) % (size - 1) : ℕ) : ℤ) + 1)

/-- `(c % (repo_count - 1)) + 1` between `int`s, in the repository's `C` and `D` branches. -/
def indexOfRelation (c : UInt8) (repo_count : ℕ) : Result ℤ :=
  if repo_count - 1 = 0 then throw .undefined
  else pure ((signedChar c).tmod ((repo_count : ℤ) - 1) + 1)

/-! ## The `M` branch -/

def responseBranch (db : Process) (m : ResponseMsg) : Process × List Send :=
  let client := ((db.pending m.request_id).getD Pending.fresh).client_sock
  (db.close m.request_id, [⟨client, .response m⟩])

/-! ## The `I` branch -/

/-- The lines the response gets for one valid node. -/
def nodeLines (attr : Bool) (node_name : Str) (distance : ℕ) (attributes : List Attribute) : Str :=
  node_name ++ str " [Depth = " ++ Decimal.decimal distance ++ str "]\\n" ++
    if attr then attributes.flatMap fun a => str "  " ++ a.key ++ str ": " ++ a.value ++ str "\\n"
    else []

def completeText (response : Str) : Str := str "OK! Query complete\\n" ++ response

def internalErrorText : Str := str "[ERROR] Internal Error"

/-- The state of the query after a reply for the node at the front of its queue. -/
def QueryState.advance (st : QueryState) (top : Str × ℕ) (queue : List (Str × ℕ)) (i : InfoMsg) :
    QueryState :=
  let (node_queue, visited) := expand top.2 i.relations queue st.visited
  { st with
    node_queue := node_queue
    visited := visited
    response := st.response ++ if i.valid_node
      then nodeLines st.attr i.nameA (subSizeT st.depth top.2) i.attributes else [] }

/-- The `R` for the node at the front of the queue. -/
def nextQuery (db : Process) (st : QueryState) (next : Str × ℕ) (request_id : ℤ) :
    Result Send := do
  let r ← indexPlusOne (← charAt next.1 0) db.repositories.length
  let host ← hostAt db.repositories r
  return ⟨host, .query ⟨next.1, toInt next.2, st.leaf, st.attr, st.conditions, request_id⟩⟩

def infoBranch (db : Process) (i : InfoMsg) : Outcome :=
  match db.pending i.request_id with
  | some ⟨client, some st⟩ =>
    match st.node_queue with
    | [] => throw .undefined
    | top :: queue =>
      if top.1 = i.nameA then
        let st := st.advance top queue i
        match st.node_queue with
        | [] =>
          pure ({ db.close i.request_id with cud_blocking := false },
            [⟨client, .response ⟨completeText st.response, i.request_id⟩⟩])
        | next :: _ => do
          let out ← nextQuery db st next i.request_id
          return (db.file i.request_id ⟨client, some st⟩, [out])
      else
        pure ({ db.close i.request_id with cud_blocking := false },
          [⟨client, .response ⟨internalErrorText, i.request_id⟩⟩])
  | _ => throw .undefined

/-! ## The server's side of `C`, `R`, `U` and `D` -/

def busyText : Str := str "[ERROR] Bussy Server. Try again later"

def busy (from_addr : Host) : Send := ⟨from_addr, .response ⟨busyText, 0⟩⟩

def notAttachedText : Str := str "[ERROR] Repository has not been attached"

/-- What the four branches share: refuse the request without a repository, else file it under
`current_request` and forward it to the repository of its first character. -/
def accept (index : UInt8 → ℕ → Result ℤ) (db : Process) (from_addr : Host) (s_buffer : Str)
    (request_id : ℤ) (state : Option QueryState) (msg : Msg) : Outcome :=
  if db.repositories.length < 2 then
    pure (db, [⟨from_addr, .response ⟨notAttachedText, request_id⟩⟩])
  else do
    let r ← index (← charAt s_buffer 0) db.repositories.length
    let host ← hostAt db.repositories r
    return ({ db.file (toInt db.current_request) ⟨from_addr, state⟩ with
      current_request := db.current_request + 1 }, [⟨host, msg⟩])

/-! ## The `C` branch -/

/-- The `C` for the reverse of a relation, when the message came with a host list. -/
def reverseNode (node_name rel : Str) (master_repos : List Host) : Result (List Send) :=
  if master_repos.length = 0 then pure []
  else do
    let new_r ← indexOfRelation (← charAt rel 0) master_repos.length
    let host ← hostAt master_repos new_r
    return [⟨host, .node ⟨rel, [], [node_name], 0, []⟩⟩]

/-- The relation loop. `throws k` is the text of the `std::system_error` that the `k`-th guarded
block throws, if it does: the loop then reports it and goes on with the next relation. -/
def storeRelations (throws : ℕ → Option Str) (from_addr : Host) (node_name : Str) (request_id : ℤ)
    (master_repos : List Host) :
    ℕ → List Str → Storage → Str → Result (Storage × Str × List Send)
  | _, [], storage, message => pure (storage, message, [])
  | k, rel :: relations, storage, message =>
    match throws k with
    | some what => do
      let message := str "[ERROR] " ++ what
      let (storage, message', out) ←
        storeRelations throws from_addr node_name request_id master_repos (k + 1) relations storage
          message
      return (storage, message', ⟨from_addr, .response ⟨message, request_id⟩⟩ :: out)
    | none => do
      let storage := (storage.insertNode rel).insertRelation ⟨node_name, rel⟩
      let reverse ← reverseNode node_name rel master_repos
      let (storage, message, out) ←
        storeRelations throws from_addr node_name request_id master_repos (k + 1) relations storage
          message
      return (storage, message, reverse ++ out)

def existsText : Str := str "[WARNING] Node already exists. Skipping\\n"

def storedText : Str := str "OK! Node stored successfully"

/-- The attribute loop. -/
def storeAttributes (node_name : Str) (attributes : List Attribute) (storage : Storage) : Storage :=
  attributes.foldl (fun st a => st.insertAttribute { a with node_name := node_name }) storage

/-- The reply to the server, if the message carried a request id. -/
def replyTo (db : Process) (request_id : ℤ) (message : Str) : Result (List Send) :=
  if request_id = 0 then pure []
  else do return [⟨← hostAt db.repositories 0, .response ⟨message, request_id⟩⟩]

/-- The repository's side of `C`. -/
def storeNode (throws : ℕ → Option Str) (db : Process) (from_addr : Host) (m : NodeMsg)
    (master_repos : List Host) : Outcome :=
  match throws 0 with
  | some what => pure (db, [⟨from_addr, .response ⟨str "[ERROR] " ++ what, m.request_id⟩⟩])
  | none => do
    let message := if m.nameA ∈ db.storage.nodes then existsText else []
    let storage := storeAttributes m.nameA m.attributes (db.storage.insertNode m.nameA)
    let (storage, message, out) ←
      storeRelations throws from_addr m.nameA m.request_id master_repos 1 m.relations storage
        message
    let reply ← replyTo db m.request_id (message ++ storedText)
    return ({ db with storage := storage }, out ++ reply)

def nodeBranch (throws : ℕ → Option Str) (db : Process) (from_addr : Host) (s_buffer : Str) :
    Outcome :=
  if db.cud_blocking then pure (db, [busy from_addr])
  else do
    let d ← readNode s_buffer
    if db.server then
      accept indexPlusOne db from_addr d.s_buffer d.fields.request_id none
        (.node { d.fields with
          request_id := db.current_request, master_repos := db.repositories })
    else if db.repository then do
      let (master_repos, _) ← takeHosts d.s d.s_buffer
      storeNode throws db from_addr d.fields master_repos
    else pure (db, [])

/-! ## The `R` branch -/

/-- The state of a query that has just been accepted. -/
def QueryState.start (q : QueryMsg) : QueryState where
  leaf := q.leaf
  attr := q.attr
  depth := toSizeT q.depth
  conditions := q.conditions
  node_queue := [(q.nameA, toSizeT q.depth)]
  visited := {q.nameA}
  response := []

/-- The repository's side of `R`. -/
def answerQuery (db : Process) (q : QueryMsg) : Outcome := do
  let attributes := db.storage.attributesOf q.nameA
  let relations := db.storage.relationsOf q.nameA
  let valid_node := validNode q.depth q.leaf q.conditions attributes
  return (db, [⟨← hostAt db.repositories 0,
    .info ⟨q.nameA, attributes, relations, q.request_id, valid_node⟩⟩])

def queryBranch (db : Process) (from_addr : Host) (s_buffer : Str) : Outcome := do
  let d ← readQuery s_buffer
  if db.server then
    -- `cud_blocking` is cleared where the request is refused and set where it is accepted
    accept indexPlusOne { db with cud_blocking := !decide (db.repositories.length < 2) } from_addr
      d.s_buffer d.fields.request_id (some (QueryState.start d.fields))
      (.query { d.fields with request_id := db.current_request })
  else if db.repository then answerQuery db d.fields
  else pure (db, [])

/-! ## The `U` branch -/

def updatedText : Str := str "OK! Node updated successfully"

def updateBranch (db : Process) (from_addr : Host) (s_buffer : Str) : Outcome :=
  if db.cud_blocking then pure (db, [busy from_addr])
  else do
    let d ← readUpdate s_buffer
    if db.server then
      accept indexIncremented db from_addr d.s_buffer d.fields.request_id none
        (.update { d.fields with request_id := db.current_request })
    else if db.repository then
      return (db, [⟨← hostAt db.repositories 0, .response ⟨updatedText, d.fields.request_id⟩⟩])
    else pure (db, [])

/-! ## The `D` branch -/

/-- The message of a repository after a `D`. -/
def deletedText (object : ℤ) : Str :=
  if object = 2 then str "OK! Relation deleted successfully"
  else if object = 1 then str "OK! Attribute deleted successfully"
  else str "OK! Node deleted successfully"

/-- The `D` for the reverse of a relation, when the message came with a host list. -/
def reverseDelete (m : DeleteMsg) (master_repos : List Host) : Result (List Send) :=
  if m.object = 2 ∧ master_repos.length ≠ 0 then do
    let new_r ← indexOfRelation (← charAt m.attr_or_rel 0) master_repos.length
    let host ← hostAt master_repos new_r
    return [⟨host, .delete ⟨m.attr_or_rel, m.object, m.nameA, 0, []⟩⟩]
  else pure []

def deleteBranch (db : Process) (from_addr : Host) (s_buffer : Str) : Outcome :=
  if db.cud_blocking then pure (db, [busy from_addr])
  else do
    let d ← readDelete s_buffer
    if db.server then
      accept indexIncremented db from_addr d.s_buffer d.fields.request_id none
        (.delete { d.fields with
          request_id := db.current_request, master_repos := db.repositories })
    else if db.repository then do
      let (master_repos, _) ← takeHosts d.s d.s_buffer
      let out ← reverseDelete d.fields master_repos
      let reply ← replyTo db d.fields.request_id (deletedText d.fields.object)
      return (db, out ++ reply)
    else pure (db, [])

/-! ## The loop -/

/-- The `E` branch: `connMasterRepository` sets `repository`, so every sender is registered. -/
def registerBranch (db : Process) (from_addr : Host) : Process × List Send :=
  ({ db with repository := true, repositories := db.repositories ++ [from_addr] }, [])

/-- One turn of the loop of `runConnection`, for the string `s_buffer` received from `from_addr`. -/
def runConnection (throws : ℕ → Option Str) (db : Process) (from_addr : Host) (s_buffer : Str) :
    Outcome :=
  let c := s_buffer.headD 0
  if c = ch 'M' then do return responseBranch db (← readResponse s_buffer)
  else if c = ch 'I' then do infoBranch db (← readInfo s_buffer)
  else if c = ch 'C' then nodeBranch throws db from_addr s_buffer
  else if c = ch 'R' then queryBranch db from_addr s_buffer
  else if c = ch 'U' then updateBranch db from_addr s_buffer
  else if c = ch 'D' then deleteBranch db from_addr s_buffer
  else if c = ch 'E' then pure (registerBranch db from_addr)
  else pure (db, [])

/-- Storage calls that do not throw. -/
def noThrow : ℕ → Option Str := fun _ => none

/-- A string received by a process, and what the storage calls of its turn throw. -/
structure Received where
  from_addr : Host
  s_buffer : Str
  throws : ℕ → Option Str

/-- One turn of a process, without the messages it sends. -/
def Process.receive (db : Process) (e : Received) : Option Process :=
  match runConnection e.throws db e.from_addr e.s_buffer with
  | .ok (db', _) => some db'
  | .error _ => none

/-! The first byte of a string decides which branch it goes to. -/

section Letters

variable {throws : ℕ → Option Str} {db : Process} {from_addr : Host} {s_buffer : Str}

theorem runConnection_M (h : s_buffer.headD 0 = ch 'M') :
    runConnection throws db from_addr s_buffer =
      (do return responseBranch db (← readResponse s_buffer)) := by
  unfold runConnection
  rw [h]
  rfl

theorem runConnection_I (h : s_buffer.headD 0 = ch 'I') :
    runConnection throws db from_addr s_buffer = (do infoBranch db (← readInfo s_buffer)) := by
  unfold runConnection
  rw [h]
  rfl

theorem runConnection_C (h : s_buffer.headD 0 = ch 'C') :
    runConnection throws db from_addr s_buffer = nodeBranch throws db from_addr s_buffer := by
  unfold runConnection
  rw [h]
  rfl

theorem runConnection_R (h : s_buffer.headD 0 = ch 'R') :
    runConnection throws db from_addr s_buffer = queryBranch db from_addr s_buffer := by
  unfold runConnection
  rw [h]
  rfl

theorem runConnection_U (h : s_buffer.headD 0 = ch 'U') :
    runConnection throws db from_addr s_buffer = updateBranch db from_addr s_buffer := by
  unfold runConnection
  rw [h]
  rfl

theorem runConnection_D (h : s_buffer.headD 0 = ch 'D') :
    runConnection throws db from_addr s_buffer = deleteBranch db from_addr s_buffer := by
  unfold runConnection
  rw [h]
  rfl

end Letters

section Dispatch

variable (throws : ℕ → Option Str) (db : Process) (from_addr : Host)

theorem runConnection_response (m : ResponseMsg) :
    runConnection throws db from_addr (Msg.response m).buffer =
      (do return responseBranch db (← readResponse (parseNewMessageResponse m))) := rfl

theorem runConnection_info (m : InfoMsg) :
    runConnection throws db from_addr (Msg.info m).buffer =
      (do infoBranch db (← readInfo (parseNewInfoResponse m))) := rfl

theorem runConnection_node (m : NodeMsg) :
    runConnection throws db from_addr (Msg.node m).buffer =
      nodeBranch throws db from_addr (parseNewNode m) := rfl

theorem runConnection_query (m : QueryMsg) :
    runConnection throws db from_addr (Msg.query m).buffer =
      queryBranch db from_addr (parseNewQuery m) := rfl

theorem runConnection_update (m : UpdateMsg) :
    runConnection throws db from_addr (Msg.update m).buffer =
      updateBranch db from_addr (parseNewUpdate m) := rfl

theorem runConnection_delete (m : DeleteMsg) :
    runConnection throws db from_addr (Msg.delete m).buffer =
      deleteBranch db from_addr (parseNewDelete m) := rfl

end Dispatch

end DGDB
