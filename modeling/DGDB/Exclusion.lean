import Mathlib
import DGDB.Cluster

/-!
# Write exclusion

One flag, `cud_blocking`, keeps writes away from the repositories while queries are pending. It is
set when a query is accepted and cleared when any query ends, so it excludes writes exactly as long
as no query ends while another one is pending.
-/

namespace DGDB

open EventSystem GraphSearch

/-- The entry `id` of `pending` holds a `QueryState`. -/
def QueryPending (db : Process) (id : ℤ) : Prop :=
  ∃ client st, db.pending id = some ⟨client, some st⟩

/-- While a query is pending, the flag is set and no `C`, `U` or `D` is forwarded. -/
def WritesExcluded (db : Process) : Prop :=
  (∃ id, QueryPending db id) → db.cud_blocking = true ∧
    ∀ throws from_addr s_buffer, WriteHead s_buffer →
      runConnection throws db from_addr s_buffer = .ok (db, [busy from_addr])

/-- The reply `i` ends its query: it is not for the node at the front of the queue, or that node is
the last one and brings no new name. -/
def EndsQuery (db : Process) (i : InfoMsg) : Prop :=
  ∃ client st top queue, db.pending i.request_id = some ⟨client, some st⟩ ∧
    st.node_queue = top :: queue ∧
    (top.1 = i.nameA → queue = [] ∧ (top.2 = 0 ∨ ∀ y ∈ i.relations, y ∈ st.visited))

/-- A reply that ends a query arrives only while no other query is pending. -/
def EndsAlone (db : Process) (s_buffer : Str) : Prop :=
  s_buffer.headD 0 = ch 'I' → ∀ i, readInfo s_buffer = .ok i → EndsQuery db i →
    ∀ id, QueryPending db id → id = i.request_id

theorem writesExcluded_iff {db : Process} :
    WritesExcluded db ↔ ((∃ id, QueryPending db id) → db.cud_blocking = true) := by
  constructor
  · intro h hq
    exact (h hq).1
  · intro h hq
    exact ⟨h hq, fun throws from_addr s_buffer hhead => server_busy throws from_addr (h hq) hhead⟩

/-! ## The `I` branch -/

section File

variable {db : Process} {id other : ℤ} {entry : Pending}

theorem queryPending_close :
    QueryPending (db.close id) other ↔ other ≠ id ∧ QueryPending db other := by
  unfold QueryPending Process.close
  by_cases h : other = id
  · subst h
    simp
  · simp [h]

theorem QueryPending.of_file_write {client : Host}
    (h : QueryPending (db.file id ⟨client, none⟩) other) : QueryPending db other := by
  unfold QueryPending Process.file at *
  by_cases heq : other = id
  · subst heq
    simp at h
  · simpa [Function.update_of_ne heq] using h

end File

/-! ## One turn -/

/-- Queries are only accepted with a repository. -/
def QueriesServed (db : Process) : Prop :=
  (∃ id, QueryPending db id) → 2 ≤ db.repositories.length

/-- The flag protects the queries that are pending after the end of one exactly if there are
none. -/
theorem excluded_after_end {db : Process} {id : ℤ} :
    WritesExcluded { db.close id with cud_blocking := false } ↔
      ∀ other, QueryPending db other → other = id := by
  rw [writesExcluded_iff]
  constructor
  · intro h other hother
    by_contra hne
    have : QueryPending (db.close id) other := queryPending_close.mpr ⟨hne, hother⟩
    exact absurd (h ⟨other, this⟩) (by simp)
  · rintro h ⟨other, hother⟩
    have hclosed := queryPending_close.mp (show QueryPending (db.close id) other from hother)
    exact absurd (h other hclosed.2) hclosed.1

section Turn

variable {db db' : Process} {from_addr : Host} {s_buffer : Str} {out : List Send}

theorem InfoStep.excluded {i : InfoMsg} (h : InfoStep db i db' out) (hgood : WritesExcluded db) :
    WritesExcluded db' ↔
      (EndsQuery db i → ∀ id, QueryPending db id → id = i.request_id) := by
  cases h with
  | complete hpending hqueue hname hempty =>
    have hends : EndsQuery db i :=
      ⟨_, _, _, _, hpending, hqueue, fun _ => advance_node_queue_eq_nil.mp hempty⟩
    rw [excluded_after_end]
    exact ⟨fun h _ => h, fun h => h hends⟩
  | mismatch hpending hqueue hname =>
    have hends : EndsQuery db i :=
      ⟨_, _, _, _, hpending, hqueue, fun heq => absurd heq hname⟩
    rw [excluded_after_end]
    exact ⟨fun h _ => h, fun h => h hends⟩
  | @next client host st top next queue rest hpending hqueue hname hnext hhost =>
    have hbusy : db.cud_blocking = true := (hgood ⟨_, _, _, hpending⟩).1
    have hnot : ¬ EndsQuery db i := by
      rintro ⟨client', st', top', queue', hpending', hqueue', hlast⟩
      rw [hpending] at hpending'
      obtain ⟨rfl, rfl⟩ : client = client' ∧ st = st' := by simpa using hpending'
      rw [hqueue] at hqueue'
      obtain ⟨rfl, rfl⟩ : top = top' ∧ queue = queue' := by simpa using hqueue'
      rw [advance_node_queue_eq_nil.mpr (hlast hname)] at hnext
      cases hnext
    rw [writesExcluded_iff]
    exact ⟨fun _ h => absurd h hnot, fun _ _ => hbusy⟩

/-- **One turn of the server keeps the exclusion exactly under `EndsAlone`.** -/
theorem ServerStep.excluded (h : ServerStep db from_addr s_buffer db' out)
    (hserved : QueriesServed db) (hgood : WritesExcluded db) :
    WritesExcluded db' ↔ EndsAlone db s_buffer := by
  have hother : s_buffer.headD 0 ≠ ch 'I' → WritesExcluded db' →
      (WritesExcluded db' ↔ EndsAlone db s_buffer) :=
    fun hne hgood' => ⟨fun _ hhead => absurd hhead hne, fun _ => hgood'⟩
  have hgood' := writesExcluded_iff.mp hgood
  cases h with
  | info hhead hread hstep =>
    rw [hstep.excluded hgood]
    refine ⟨fun h _ i' hread' => ?_, fun h => h hhead _ hread⟩
    rw [hread] at hread'
    cases hread'
    exact h
  | response hhead _ =>
    refine hother (by rw [hhead]; decide) (writesExcluded_iff.mpr ?_)
    rintro ⟨id, hid⟩
    exact hgood' ⟨id, (queryPending_close.mp hid).2⟩
  | busy hhead _ =>
    refine hother ?_ hgood
    rcases hhead with h | h | h <;> rw [h] <;> decide
  | refuseWrite hhead _ _ =>
    refine hother ?_ hgood
    rcases hhead with h | h | h <;> rw [h] <;> decide
  | write hhead _ _ _ _ =>
    refine hother ?_ (writesExcluded_iff.mpr ?_)
    · rcases hhead with h | h | h <;> rw [h] <;> decide
    · rintro ⟨id, hid⟩
      have hid' : QueryPending (db.file (toInt db.current_request) ⟨from_addr, none⟩) id := hid
      exact hgood' ⟨id, hid'.of_file_write⟩
  | refuseQuery hhead hnone =>
    refine hother (by rw [hhead]; decide) (writesExcluded_iff.mpr ?_)
    rintro ⟨id, hid⟩
    have := hserved ⟨id, hid⟩
    omega
  | query hhead _ _ _ =>
    refine hother (by rw [hhead]; decide) (writesExcluded_iff.mpr ?_)
    intro _
    rfl
  | register hhead =>
    exact hother (by rw [hhead]; decide) (writesExcluded_iff.mpr hgood')
  | ignore hhead =>
    refine hother (fun hI => hhead ?_) hgood
    rw [hI]
    simp

theorem ServerStep.served (h : ServerStep db from_addr s_buffer db' out)
    (hserved : QueriesServed db) : QueriesServed db' := by
  rintro ⟨id, hid⟩
  cases h with
  | response => exact hserved ⟨id, (queryPending_close.mp hid).2⟩
  | info _ _ hstep =>
    cases hstep with
    | complete hpending _ _ _ => exact hserved ⟨_, _, _, hpending⟩
    | next hpending _ _ _ _ => exact hserved ⟨_, _, _, hpending⟩
    | mismatch hpending _ _ => exact hserved ⟨_, _, _, hpending⟩
  | write _ _ hsome => exact hsome
  | query _ _ hsome => exact hsome
  | register =>
    have := hserved ⟨id, hid⟩
    simp only [registerBranch, List.length_append]
    omega
  | _ => exact hserved ⟨id, hid⟩

end Turn

/-! ## Runs -/

/-- The condition on a step of the deployment: what reaches the server ends a query only alone. -/
def World.EndsAlone (cfg : Config) (w : World) : Event → Prop
  | .request _ _ => True
  | .deliver a _ => a.dst = cfg.address → DGDB.EndsAlone w.server a.msg.buffer

theorem excluded_step {cfg : Config} {w w' : World} {e : Event}
    (hinv : w.server.server = true ∧ QueriesServed w.server) (hgood : WritesExcluded w.server)
    (h : w.step cfg e = some w') :
    (w'.server.server = true ∧ QueriesServed w'.server) ∧
      (WritesExcluded w'.server ↔ w.EndsAlone cfg e) := by
  cases e with
  | request client msg =>
    obtain ⟨-, -, rfl⟩ := step_request h
    exact ⟨hinv, fun _ => trivial, fun _ => hgood⟩
  | deliver a throws =>
    obtain ⟨rest, -, h⟩ := step_deliver h
    rcases handle_cases h with ⟨hdst, db, out, hrun, rfl⟩ | ⟨hdst, db, out, -, rfl⟩ | ⟨hdst, rfl⟩
    · have hturn := serverStep_of_runConnection hinv.1 hrun
      rw [World.serverTurn_server]
      refine ⟨⟨hturn.server.trans hinv.1, hturn.served hinv.2⟩, ?_⟩
      rw [hturn.excluded hinv.2 hgood]
      exact ⟨fun h _ => h, fun h => h hdst⟩
    · refine ⟨hinv, fun _ heq => ?_, fun _ => hgood⟩
      exact absurd (heq ▸ hdst) cfg.apart
    · exact ⟨hinv, fun _ heq => absurd heq hdst.1, fun _ => hgood⟩

/-- **Write exclusion.** Along a run, writes are excluded while a query is pending exactly if no
query ends while another one is pending. -/
theorem writes_excluded_iff (cfg : Config) (es : List Event) :
    Along (World.step cfg) (fun w => WritesExcluded w.server) (World.start cfg) es ↔
      Meets (World.step cfg) (World.EndsAlone cfg) (World.start cfg) es := by
  have hnone : ¬ ∃ id, QueryPending (World.start cfg).server id := by
    rintro ⟨id, client, st, h⟩
    cases h
  exact along_iff_meets (J := fun w => w.server.server = true ∧ QueriesServed w.server)
    (fun _ _ _ => excluded_step) ⟨rfl, fun h => absurd h hnone⟩ fun h => absurd h hnone

/-! ### Two overlapping queries -/

/-- A deployment with one repository. -/
def oneRepository : Config where
  self := ⟨str "127.0.0.1", 50000⟩
  address := ⟨str "10.0.0.1", 50000⟩
  repos := [⟨str "10.0.0.2", 50001⟩]
  apart := by decide

/-- Client `k`. -/
def clientHost (k : UInt16) : Host := ⟨str "10.0.0.9", k⟩

/-- A query for one node and the reply to it, under the request id `n`. -/
def lookup (x : Str) (n : ℤ) : Msg := .query ⟨x, 0, false, false, [], n⟩

def found (x : Str) (n : ℤ) : Msg := .info ⟨x, [], [], n, true⟩

/-- Clients 1 and 2 ask for a node each, the query of client 1 is answered, and then client 3
creates a node. -/
def overlapping : List Event :=
  let server := oneRepository.address
  let repository : Host := ⟨str "10.0.0.2", 50001⟩
  let create : Msg := .node ⟨str "c", [], [], 0, []⟩
  [.request (clientHost 1) (lookup (str "a") 0),
    .deliver ⟨clientHost 1, server, lookup (str "a") 0, 0⟩ noThrow,
    .request (clientHost 2) (lookup (str "b") 0),
    .deliver ⟨clientHost 2, server, lookup (str "b") 0, 0⟩ noThrow,
    .deliver ⟨server, repository, lookup (str "a") 1, 1⟩ noThrow,
    .deliver ⟨repository, server, found (str "a") 1, 1⟩ noThrow,
    .request (clientHost 3) create,
    .deliver ⟨clientHost 3, server, create, 0⟩ noThrow]

/-- The create is forwarded to the repository while the query of client 2 is pending. -/
theorem writes_not_excluded :
    ∃ w, run (World.step oneRepository) (World.start oneRepository) overlapping = some w ∧
      w.server.pending 2 = some ⟨clientHost 2, some ⟨false, false, 0, [], [(str "b", 0)],
        {str "b"}, []⟩⟩ ∧
      w.server.cud_blocking = false ∧
      ⟨oneRepository.address, ⟨str "10.0.0.2", 50001⟩,
        .node ⟨str "c", [], [], 3, oneRepository.hosts⟩, 3⟩ ∈ w.sent := by
  exact exists_of_check (by decide +kernel)

end DGDB
