import Mathlib
import DGDB.Joining
import DGDB.Recorded
import DGDB.Visibility
import DGDB.Writing

/-!
# Which names a response lists

A repository judges a node by its attribute rows and never looks at `Nodes`: a name that it does not
have is valid for every query without conditions that is not stopped by its leaf test. In a run
whose creates have been stored only the root of a query can be such a name.
-/

namespace DGDB

open EventSystem

/-! ## What a repository answers for a name without rows -/

/-- No node without attributes is valid for the query. -/
def Rejected (q : QueryMsg) : Prop := q.conditions ≠ [] ∨ q.leaf = true ∧ q.depth ≠ 0

instance : DecidablePred Rejected := fun _ => inferInstanceAs (Decidable (_ ∨ _))

/-- Without attributes every condition fails, and none makes up for it. -/
theorem evaluate_nil_false (conditions : List Condition) (next_or : Bool) :
    evaluate [] conditions false next_or = false := by
  induction conditions generalizing next_or with
  | nil => rfl
  | cons c conditions ih =>
    have hholds : c.holds [] = false := rfl
    rw [evaluate, hholds, Bool.or_false, Bool.and_false, ite_self]
    exact ih _

theorem validNode_nil {q : QueryMsg} :
    validNode q.depth q.leaf q.conditions [] = false ↔ Rejected q := by
  unfold validNode Rejected
  cases q.conditions with
  | nil => simp [evaluate, and_comm]
  | cons c conditions =>
    have hholds : c.holds [] = false := rfl
    rw [evaluate, hholds, Bool.and_false, if_neg Bool.false_ne_true]
    exact iff_of_true (evaluate_nil_false conditions c.is_or) (Or.inl (List.cons_ne_nil _ _))

/-- The attribute rows of a repository belong to nodes it has. -/
def OwnRows (st : Storage) : Prop := ∀ r ∈ st.attributes, r.node_name ∈ st.nodes

theorem attributesOf_eq_nil {st : Storage} (h : OwnRows st) {x : Str} (hx : x ∉ st.nodes) :
    st.attributesOf x = [] := by
  apply List.filter_eq_nil_iff.mpr
  intro r hr heq
  exact hx (beq_iff_eq.mp heq ▸ h r hr)

/-- A repository calls a name that it does not have valid exactly if the query does not reject
it. -/
theorem valid_queryReply {st : Storage} (h : OwnRows st) {q : QueryMsg} (hx : q.nameA ∉ st.nodes) :
    (queryReply st q).valid_node = false ↔ Rejected q := by
  unfold queryReply
  rw [attributesOf_eq_nil h hx]
  exact validNode_nil

/-! ## The tables of nodes -/

theorem OwnRows.stored {st : Storage} {m : NodeMsg} (h : OwnRows st) : OwnRows (stored st m) := by
  intro r hr
  rw [attributes_stored] at hr
  apply mem_nodes_stored.mpr
  rcases List.mem_append.mp hr with hr | hr
  · exact Or.inl (h r hr)
  · obtain ⟨a, -, rfl⟩ := List.mem_map.mp hr
    exact Or.inr (Or.inl rfl)

theorem nodes_of_turn {throws : ℕ → Option Str} {db db' : Process} {from_addr : Host}
    {s_buffer : Str} {out : List Send} (hserver : db.server = false) (hrepo : db.repository = true)
    (hrun : runConnection throws db from_addr s_buffer = .ok (db', out)) :
    db.storage.nodes ⊆ db'.storage.nodes ∧ (OwnRows db.storage → OwnRows db'.storage) := by
  obtain ⟨-, -, hstorage⟩ := tables_of_turn hserver hrepo hrun
  rw [hstorage]
  cases written throws db s_buffer with
  | none => exact ⟨List.Subset.refl _, id⟩
  | some m => exact ⟨fun x hx => mem_nodes_stored.mpr (Or.inl hx), OwnRows.stored⟩

/-! ## What a turn sends and files -/

section Sends

variable {db db' : Process} {from_addr : Host} {s_buffer : Str} {out : List Send} {s : Send}
  {i : InfoMsg}

theorem InfoStep.not_info {i' : InfoMsg} (h : InfoStep db i' db' out) (hs : s ∈ out) :
    s.msg ≠ .info i := by
  cases h with
  | complete => rw [List.mem_singleton.mp hs]; exact nofun
  | next => rw [List.mem_singleton.mp hs]; exact nofun
  | mismatch => rw [List.mem_singleton.mp hs]; exact nofun

theorem ServerStep.not_info (h : ServerStep db from_addr s_buffer db' out) (hs : s ∈ out) :
    s.msg ≠ .info i := by
  cases h with
  | info _ _ hstep => exact hstep.not_info hs
  | write _ _ _ _ hmsg =>
    rw [List.mem_singleton.mp hs]
    rcases hmsg with ⟨d, -, rfl⟩ | ⟨d, -, rfl⟩ | ⟨-, d, -, rfl⟩ <;> exact nofun
  | register => exact absurd hs List.not_mem_nil
  | ignore => exact absurd hs List.not_mem_nil
  | _ => rw [List.mem_singleton.mp hs]; exact nofun

theorem IsReply.not_info {request_id : ℤ} {message : Str} (h : IsReply db request_id message out)
    (hs : s ∈ out) : s.msg ≠ .info i := by
  rcases h with ⟨-, rfl⟩ | ⟨-, host, -, rfl⟩
  · exact absurd hs List.not_mem_nil
  · rw [List.mem_singleton.mp hs]
    exact nofun

theorem RepositoryStep.info_sent (h : RepositoryStep db from_addr s_buffer db' out) (hs : s ∈ out)
    (hi : s.msg = .info i) : s_buffer.headD 0 = ch 'R' ∧
      ∃ d, readQuery s_buffer = .ok d ∧ i = queryReply db.storage d.fields := by
  cases h with
  | @query d host hhead hread hhost =>
    rw [List.mem_singleton.mp hs] at hi
    cases hi
    exact ⟨hhead, d, hread, rfl⟩
  | info _ _ hstep => exact absurd hi (hstep.not_info hs)
  | node _ _ _ hstep =>
    refine absurd hi ?_
    cases hstep with
    | failed hreport =>
      obtain ⟨what, rfl⟩ := hreport
      rw [List.mem_singleton.mp hs]
      exact nofun
    | stored hloop hreply =>
      rcases List.mem_append.mp hs with hs | hs
      · intro hi
        obtain ⟨what, rfl⟩ := hloop.reports s hs (by rw [hi]; rfl)
        cases hi
      · exact hreply.not_info hs
  | delete _ _ _ hreverse hreply =>
    refine absurd hi ?_
    rcases List.mem_append.mp hs with hs | hs
    · rcases hreverse with ⟨-, rfl⟩ | ⟨-, -, host, -, rfl⟩
      · exact absurd hs List.not_mem_nil
      · rw [List.mem_singleton.mp hs]
        exact nofun
    · exact hreply.not_info hs
  | register => exact absurd hs List.not_mem_nil
  | ignore => exact absurd hs List.not_mem_nil
  | _ =>
    rw [List.mem_singleton.mp hs] at hi
    cases hi

/-- A query that is pending after a turn was pending before, has just started, or goes on with the
reply for the node at the front of its queue. -/
theorem ServerStep.pending_cases {id : ℤ} {client : Host} {st' : QueryState}
    (h : ServerStep db from_addr s_buffer db' out)
    (hpending : db'.pending id = some ⟨client, some st'⟩) :
    db.pending id = some ⟨client, some st'⟩ ∨ st'.response = [] ∨
      ∃ i st top queue, s_buffer.headD 0 = ch 'I' ∧ readInfo s_buffer = .ok i ∧
        db.pending id = some ⟨client, some st⟩ ∧ st' = st.advance top queue i := by
  cases h with
  | response => exact Or.inl (Process.pending_of_close hpending)
  | @info i _ _ hhead hread hstep =>
    cases hstep with
    | complete => exact Or.inl (Process.pending_of_close hpending)
    | mismatch => exact Or.inl (Process.pending_of_close hpending)
    | @next client' host st top next queue rest hold hqueue hname hnext hhost =>
      rcases Process.pending_of_file hpending with ⟨rfl, heq⟩ | hpending
      · cases heq
        exact Or.inr (Or.inr ⟨i, st, top, queue, hhead, hread, hold, rfl⟩)
      · exact Or.inl hpending
  | write =>
    have hfile : (db.file (toInt db.current_request) ⟨from_addr, none⟩).pending id =
        some ⟨client, some st'⟩ := hpending
    rcases Process.pending_of_file hfile with ⟨-, heq⟩ | hpending
    · cases heq
    · exact Or.inl hpending
  | @query _ d =>
    have hfile : (db.file (toInt db.current_request)
        ⟨from_addr, some (QueryState.start d.fields)⟩).pending id = some ⟨client, some st'⟩ :=
      hpending
    rcases Process.pending_of_file hfile with ⟨-, heq⟩ | hpending
    · cases heq
      exact Or.inr (Or.inl rfl)
    · exact Or.inl hpending
  | _ => exact Or.inl hpending

end Sends

/-! ## What the responses of a run list -/

/-- A repository that was asked for `x` has it in its table `Nodes`. -/
def World.Stores (cfg : Config) (w : World) (x : Str) : Prop :=
  ∃ h ∈ cfg.repos, (∃ e ∈ w.sent, e.dst = h ∧ ∃ q d, e.msg = .query q ∧
    readQuery (parseNewQuery q) = .ok d ∧ d.fields.nameA = x) ∧ x ∈ (w.repo h).storage.nodes

/-- The lines of `text` are about names that a repository asked for them has. -/
def World.ListsStored (cfg : Config) (w : World) (attr : Bool) (text : Str) : Prop :=
  ∃ log : List (Str × ℕ × List Attribute), text = linesText attr log ∧ ∀ l ∈ log, w.Stores cfg l.1

/-- If a step ends a query, its response lists stored names. -/
def World.ListsExisting (cfg : Config) (w : World) : Event → Prop
  | .request _ _ => True
  | .deliver a throws => a.dst = cfg.address → a.msg.isInfo = true → ∀ db client text id,
      runConnection throws w.server a.src a.msg.buffer =
        .ok (db, [⟨client, .response ⟨completeText text, id⟩⟩]) →
      ∃ attr, w.ListsStored cfg attr text

/-- The `R` in `s_buffer` asks for a node of the tables, unless it rejects those without
attributes. -/
def KnowsAsked (st : Storage) (s_buffer : Str) : Prop :=
  match readQuery s_buffer with
  | .ok d => d.fields.nameA ∈ st.nodes ∨ Rejected d.fields
  | .error _ => True

instance (st : Storage) (s_buffer : Str) : Decidable (KnowsAsked st s_buffer) :=
  match h : readQuery s_buffer with
  | .ok d => decidable_of_iff (d.fields.nameA ∈ st.nodes ∨ Rejected d.fields)
      (by rw [KnowsAsked, h])
  | .error _ => isTrue (by rw [KnowsAsked, h]; trivial)

/-- The condition on a step: a repository is asked for what it has, or rejects it, and what it
answers fits the wire. -/
def World.AsksKnown (cfg : Config) (w : World) : Event → Prop
  | .request _ _ => True
  | .deliver a _ =>
    (a.dst ∈ cfg.repos → a.msg.isQuery = true →
      KnowsAsked (w.repo a.dst).storage a.msg.buffer) ∧
    (a.dst = cfg.address → a.msg.isInfo = true → a.msg.Fits)

instance (cfg : Config) (w : World) : DecidablePred (w.AsksKnown cfg)
  | .request _ _ => inferInstanceAs (Decidable True)
  | .deliver _ _ => inferInstanceAs (Decidable ((_ → _ → _) ∧ (_ → _ → _)))

/-- What holds of the names on their way into a response. -/
structure World.Listing (cfg : Config) (w : World) : Prop where
  server : w.server.server = true
  repos : w.AreRepositories cfg
  rows : ∀ h ∈ cfg.repos, OwnRows (w.repo h).storage
  sent : ∀ a ∈ w.transit, a ∈ w.sent
  valid : ∀ a ∈ w.transit, ∀ i, a.msg = .info i → i.valid_node = true → w.Stores cfg i.nameA
  listed : ∀ id client st, w.server.pending id = some ⟨client, some st⟩ →
    w.ListsStored cfg st.attr st.response

section Listing

variable {cfg : Config} {w w' : World} {a : Envelope} {rest : Multiset Envelope}

theorem World.Listing.start : (World.start cfg).Listing cfg where
  server := rfl
  repos := fun _ _ => ⟨rfl, rfl⟩
  rows := fun _ _ _ hr => absurd hr List.not_mem_nil
  sent := fun _ ha => absurd ha (Multiset.notMem_zero _)
  valid := fun _ ha => absurd ha (Multiset.notMem_zero _)
  listed := fun _ _ _ hpending => by cases hpending

theorem World.Stores.mono {x : Str} (h : w.Stores cfg x) (hsent : w.sent ⊆ w'.sent)
    (hnodes : ∀ host ∈ cfg.repos,
      (w.repo host).storage.nodes ⊆ (w'.repo host).storage.nodes) : w'.Stores cfg x := by
  obtain ⟨host, hhost, ⟨e, he, hasked⟩, hx⟩ := h
  exact ⟨host, hhost, ⟨e, hsent he, hasked⟩, hnodes host hhost hx⟩

theorem World.ListsStored.mono {attr : Bool} {text : Str} (h : w.ListsStored cfg attr text)
    (hstores : ∀ x, w.Stores cfg x → w'.Stores cfg x) : w'.ListsStored cfg attr text := by
  obtain ⟨log, htext, hlog⟩ := h
  exact ⟨log, htext, fun l hl => hstores l.1 (hlog l hl)⟩

theorem World.ListsStored.advance {st : QueryState} {top : Str × ℕ} {queue : List (Str × ℕ)}
    {i : InfoMsg} (h : w.ListsStored cfg st.attr st.response)
    (hi : i.valid_node = true → w.Stores cfg i.nameA) :
    w.ListsStored cfg (st.advance top queue i).attr (st.advance top queue i).response := by
  obtain ⟨log, htext, hlog⟩ := h
  have hresponse : (st.advance top queue i).response = st.response ++ if i.valid_node
      then nodeLines st.attr i.nameA (subSizeT st.depth top.2) i.attributes else [] := rfl
  have hattr : (st.advance top queue i).attr = st.attr := rfl
  rw [hresponse, hattr]
  cases hvalid : i.valid_node with
  | false => exact ⟨log, by simpa using htext, hlog⟩
  | true =>
    refine ⟨log ++ [(i.nameA, subSizeT st.depth top.2, i.attributes)], ?_, ?_⟩
    · rw [htext]
      simp [linesText]
    · intro l hl
      rcases List.mem_append.mp hl with hl | hl
      · exact hlog l hl
      · rw [List.mem_singleton.mp hl]
        exact hi hvalid

theorem serverTurn_post (cfg : Config) (w : World) (a : Envelope) (db : Process)
    (out : List Send) : ∃ k accepted,
    w.serverTurn cfg a db out =
      World.post { w with server := db, accepted := accepted } (World.stamp cfg.address k out) := by
  unfold World.serverTurn
  split_ifs
  · exact ⟨_, _, rfl⟩
  · exact ⟨_, _, rfl⟩

/-- The messages in transit after a turn have been sent, and an `I` among them speaks of stored
names if the ones sent in the turn do. -/
theorem World.Listing.frame (h : w.Listing cfg) (htransit : w.transit = a ::ₘ rest) (w' : World)
    {es : List Envelope} (ht : w'.transit = rest + es) (hs : w'.sent = w.sent ++ es)
    (hnodes : ∀ host ∈ cfg.repos,
      (w.repo host).storage.nodes ⊆ (w'.repo host).storage.nodes)
    (hes : ∀ b ∈ es, ∀ i, b.msg = .info i → i.valid_node = true → w.Stores cfg i.nameA) :
    (∀ b ∈ w'.transit, b ∈ w'.sent) ∧
      (∀ b ∈ w'.transit, ∀ i, b.msg = .info i → i.valid_node = true → w'.Stores cfg i.nameA) ∧
      ∀ x, w.Stores cfg x → w'.Stores cfg x := by
  have hold : ∀ b ∈ rest, b ∈ w.transit := fun b hb => htransit ▸ Multiset.mem_cons_of_mem hb
  have hstores : ∀ x, w.Stores cfg x → w'.Stores cfg x := fun x hx =>
    hx.mono (hs ▸ List.subset_append_left _ _) hnodes
  refine ⟨?_, ?_, hstores⟩
  · intro b hb
    rw [ht] at hb
    rw [hs]
    rcases Multiset.mem_add.mp hb with hb | hb
    · exact List.mem_append_left _ (h.sent b (hold b hb))
    · exact List.mem_append_right _ hb
  · intro b hb i hi hvalid
    rw [ht] at hb
    rcases Multiset.mem_add.mp hb with hb | hb
    · exact hstores _ (h.valid b (hold b hb) i hi hvalid)
    · exact hstores _ (hes b hb i hi hvalid)

theorem World.Listing.reads (h : w.Listing cfg) (htransit : w.transit = a ::ₘ rest)
    (hfits : a.msg.isInfo = true → a.msg.Fits) {i : InfoMsg}
    (hhead : a.msg.buffer.headD 0 = ch 'I') (hread : readInfo a.msg.buffer = .ok i)
    (hvalid : i.valid_node = true) : w.Stores cfg i.nameA := by
  obtain ⟨i', hmsg⟩ := Msg.eq_info hhead
  have hi : i'.Fits := by
    have := hfits (by rw [hmsg]; rfl)
    rwa [hmsg] at this
  rw [hmsg, Msg.buffer, readInfo_parseNewInfoResponse hi] at hread
  cases hread
  exact h.valid a (by simp [htransit]) i' hmsg hvalid

end Listing

section Steps

variable {cfg : Config} {w w' : World} {a : Envelope} {rest : Multiset Envelope}
  {throws : ℕ → Option Str} {db : Process} {out : List Send}

theorem ServerStep.completed {client : Host} {text : Str} {id : ℤ} {from_addr : Host}
    {s_buffer : Str} {db' : Process} (h : ServerStep db from_addr s_buffer db' out)
    (hhead : s_buffer.headD 0 = ch 'I')
    (hout : out = [⟨client, .response ⟨completeText text, id⟩⟩]) :
    ∃ i st top queue, readInfo s_buffer = .ok i ∧
      db.pending i.request_id = some ⟨client, some st⟩ ∧
      text = (st.advance top queue i).response := by
  have hne : ∀ {c : UInt8}, c ≠ ch 'I' → s_buffer.headD 0 ≠ c := fun hc heq => hc (heq ▸ hhead)
  have hwrite : ¬ WriteHead s_buffer := by
    rintro (h | h | h)
    · exact hne (by decide) h
    · exact hne (by decide) h
    · exact hne (by decide) h
  cases h with
  | @info i _ _ _ hread hstep =>
    cases hstep with
    | @complete client' st top queue hpending hqueue hname hempty =>
      have hsend := List.singleton_inj.mp hout
      injection hsend with hclient hmsg
      injection hmsg with hresponse
      injection hresponse with htext
      refine ⟨i, st, top, queue, hread, hclient ▸ hpending, ?_⟩
      exact (List.append_cancel_left htext).symm
    | next =>
      injection List.singleton_inj.mp hout with _ hmsg
      cases hmsg
    | mismatch =>
      -- the internal error starts with another character
      injection List.singleton_inj.mp hout with _ hmsg
      injection hmsg with hresponse
      injection hresponse with htext
      have hfirst : ch '[' = ch 'O' := congrArg (fun x : Str => x.headD 0) htext
      exact absurd hfirst (by decide)
  | response h => exact absurd h (hne (by decide))
  | busy h => exact absurd h hwrite
  | refuseWrite h => exact absurd h hwrite
  | write h => exact absurd h hwrite
  | refuseQuery h => exact absurd h (hne (by decide))
  | query h => exact absurd h (hne (by decide))
  | register h => exact absurd h (hne (by decide))
  | ignore h =>
    rw [hhead] at h
    exact absurd (by simp) h

theorem World.Listing.request (h : w.Listing cfg) {client : Host} {msg : Msg}
    (hmsg : msg.IsRequest) : (w.post [⟨client, cfg.address, msg, 0⟩]).Listing cfg := by
  have hstores : ∀ x, w.Stores cfg x → (w.post [⟨client, cfg.address, msg, 0⟩]).Stores cfg x :=
    fun x hx => hx.mono (List.subset_append_left _ _) fun _ _ => List.Subset.refl _
  refine ⟨h.server, h.repos, h.rows, ?_, ?_, fun id client' st hpending =>
    (h.listed id client' st hpending).mono hstores⟩
  · intro b hb
    rcases Multiset.mem_add.mp hb with hb | hb
    · exact List.mem_append_left _ (h.sent b hb)
    · exact List.mem_append_right _ hb
  · intro b hb i hi hvalid
    rcases Multiset.mem_add.mp hb with hb | hb
    · exact hstores _ (h.valid b hb i hi hvalid)
    · rw [List.mem_singleton.mp hb] at hi
      rw [show msg = .info i from hi] at hmsg
      exact hmsg.elim

theorem World.Listing.server_turn (h : w.Listing cfg) (htransit : w.transit = a ::ₘ rest)
    (hfits : a.msg.isInfo = true → a.msg.Fits)
    (hrun : runConnection throws w.server a.src a.msg.buffer = .ok (db, out)) :
    (World.serverTurn cfg { w with transit := rest } a db out).Listing cfg := by
  have hturn := serverStep_of_runConnection h.server hrun
  obtain ⟨k, accepted, hpost⟩ := serverTurn_post cfg { w with transit := rest } a db out
  rw [hpost]
  have hes : ∀ b ∈ World.stamp cfg.address k out, ∀ i, b.msg = .info i → i.valid_node = true →
      w.Stores cfg i.nameA := by
    intro b hb i hi
    obtain ⟨s, hs, rfl⟩ := List.mem_map.mp hb
    exact absurd hi (hturn.not_info hs)
  obtain ⟨hsent, hvalid, hstores⟩ := h.frame htransit (World.post { w with
      transit := rest, server := db, accepted := accepted } (World.stamp cfg.address k out))
    rfl rfl (fun _ _ => List.Subset.refl _) hes
  refine ⟨hturn.server.trans h.server, h.repos, h.rows, hsent, hvalid, ?_⟩
  intro id client st' hpending
  refine World.ListsStored.mono ?_ hstores
  rcases hturn.pending_cases hpending with hold | hstart | ⟨i, st, top, queue, hhead, hread, hold,
    rfl⟩
  · exact h.listed id client st' hold
  · exact ⟨[], hstart, fun l hl => absurd hl List.not_mem_nil⟩
  · exact (h.listed id client st hold).advance (h.reads htransit hfits hhead hread)

theorem World.Listing.repo_turn (h : w.Listing cfg) (htransit : w.transit = a ::ₘ rest)
    (hdst : a.dst ∈ cfg.repos)
    (hknown : a.msg.isQuery = true → KnowsAsked (w.repo a.dst).storage a.msg.buffer)
    (hrun : runConnection throws (w.repo a.dst) a.src a.msg.buffer = .ok (db, out)) :
    (World.repoTurn { w with transit := rest } a db out).Listing cfg := by
  obtain ⟨hserver, hrepo⟩ := h.repos a.dst hdst
  obtain ⟨hserver', hrepo', -⟩ := tables_of_turn hserver hrepo hrun
  obtain ⟨hgrow, hown⟩ := nodes_of_turn hserver hrepo hrun
  have hturn := repositoryStep_of_runConnection hserver hrepo hrun
  have hes : ∀ b ∈ World.stamp a.dst a.req out, ∀ i, b.msg = .info i → i.valid_node = true →
      w.Stores cfg i.nameA := by
    intro b hb i hi hvalid
    obtain ⟨s, hs, rfl⟩ := List.mem_map.mp hb
    obtain ⟨hhead, d, hread, rfl⟩ := hturn.info_sent hs hi
    obtain ⟨q, hmsg⟩ := Msg.eq_query hhead
    have hasks := hknown (by rw [hmsg]; rfl)
    simp only [KnowsAsked, hread] at hasks
    have hquery : readQuery (parseNewQuery q) = .ok d := by
      rw [hmsg] at hread
      exact hread
    refine ⟨a.dst, hdst, ⟨a, h.sent a (by simp [htransit]), rfl, q, d, hmsg, hquery, rfl⟩, ?_⟩
    by_contra hx
    have hinvalid := (valid_queryReply (h.rows a.dst hdst) hx).mpr (hasks.resolve_left hx)
    rw [hvalid] at hinvalid
    cases hinvalid
  have hnodes : ∀ host ∈ cfg.repos, (w.repo host).storage.nodes ⊆
      ((World.repoTurn { w with transit := rest } a db out).repo host).storage.nodes := by
    intro host _
    by_cases heq : host = a.dst
    · rw [heq, World.repoTurn_self]
      exact hgrow
    · rw [World.repoTurn_of_ne heq]
      exact List.Subset.refl _
  obtain ⟨hsent, hvalid, hstores⟩ := h.frame htransit
    (World.repoTurn { w with transit := rest } a db out) rfl rfl hnodes hes
  refine ⟨h.server, ?_, ?_, hsent, hvalid, fun id client st hpending =>
    (h.listed id client st hpending).mono hstores⟩
  · exact World.forall_repoTurn (fun db => db.server = false ∧ db.repository = true)
      ⟨hserver', hrepo'⟩ h.repos
  · exact World.forall_repoTurn (fun db => OwnRows db.storage) (hown (h.rows a.dst hdst)) h.rows

/-- **A step that asks for what the repository has lists stored names.** -/
theorem World.Listing.step (h : w.Listing cfg) {e : Event} (hknown : w.AsksKnown cfg e)
    (hstep : w.step cfg e = some w') : w'.Listing cfg ∧ w.ListsExisting cfg e := by
  cases e with
  | request client msg =>
    obtain ⟨-, hmsg, rfl⟩ := step_request hstep
    exact ⟨h.request hmsg, trivial⟩
  | deliver a throws =>
    obtain ⟨rest, htransit, hhandle⟩ := step_deliver hstep
    refine ⟨?_, fun hdst hinfo db client text id hrun => ?_⟩
    · rcases handle_cases hhandle with ⟨hdst, db, out, hrun, rfl⟩ | ⟨hdst, db, out, hrun, rfl⟩ |
        ⟨hdst, rfl⟩
      · exact h.server_turn htransit (hknown.2 hdst) hrun
      · exact h.repo_turn htransit hdst (hknown.1 hdst) hrun
      · have hmem : ∀ b ∈ rest, b ∈ w.transit := fun b hb => htransit ▸ Multiset.mem_cons_of_mem hb
        exact ⟨h.server, h.repos, h.rows, fun b hb => h.sent b (hmem b hb),
          fun b hb => h.valid b (hmem b hb), h.listed⟩
    · obtain ⟨i, hmsg⟩ : ∃ i, a.msg = .info i := by
        cases hmsg : a.msg with
        | info i => exact ⟨i, rfl⟩
        | _ => rw [hmsg] at hinfo; cases hinfo
      have hhead : a.msg.buffer.headD 0 = ch 'I' := by rw [hmsg]; rfl
      obtain ⟨i, st, top, queue, hread, hpending, rfl⟩ :=
        (serverStep_of_runConnection h.server hrun).completed hhead rfl
      exact ⟨_, (h.listed _ _ _ hpending).advance
        (h.reads htransit (hknown.2 hdst) hhead hread)⟩

end Steps

/-! ## Whose roots exist -/

section Runs

variable {cfg : Config} {w : World}

/-- No `C` is on its way to a repository. -/
def World.Settled (cfg : Config) (w : World) : Prop :=
  ∀ b ∈ w.transit, b.dst ∈ cfg.repos → ∀ m, b.msg ≠ .node m

/-- Once the creates have settled, a repository is asked for a node it has, or for the root of a
query that no create mentions. -/
theorem knowsAsked_iff (hadm : w.Admissible) (hne : cfg.repos ≠ [])
    (hrows : Rows cfg w.repo w.accepted w.transit)
    (hrecorded : Recorded cfg w.repo w.accepted w.transit)
    (hsearched : Searched cfg w.server.pending w.accepted w.transit) (hsettled : w.Settled cfg)
    {a : Envelope} (ha : a ∈ w.transit) (hdst : a.dst ∈ cfg.repos) {q : QueryMsg}
    (hmsg : a.msg = .query q) :
    (KnowsAsked (w.repo a.dst).storage a.msg.buffer ↔
      Mentioned w.accepted q.nameA ∨ Rejected q) ∧
    (¬ Mentioned w.accepted q.nameA → IsRoot w.accepted q.request_id q.nameA) := by
  have hfits : q.Fits := by
    have := hadm.fits a ha
    rwa [hmsg] at this
  have howner : a.dst = owner cfg.hosts q.nameA := by
    have := hrows.routed a ha hdst
    rwa [hmsg] at this
  obtain ⟨header, -, hread⟩ := readQuery_parseNewQuery hfits
  constructor
  · rw [hmsg, Msg.buffer, KnowsAsked, hread, hrecorded.mentioned_iff hrows hne hsettled, ← howner]
  · exact (hsearched.asked a ha hdst q hmsg).resolve_right

/-- **Queries list existing nodes** in every run, with any exceptions of the storage, in which no
repository is asked for a name that it does not have, unless the query rejects nodes without
attributes, and no `I` breaks the widths. In a run whose messages fit and whose storage does not
throw, once the creates have settled, the tables have exactly the mentioned names, and only the root
of a query can be another one. -/
theorem queries_list_existing (cfg : Config) (es : List Event) :
    (Meets (World.step cfg) (World.AsksKnown cfg) (World.start cfg) es →
      Meets (World.step cfg) (World.ListsExisting cfg) (World.start cfg) es) ∧
    (cfg.repos ≠ [] → (∀ e ∈ es, e.Steady) →
      Along (World.step cfg) (fun w => ∀ a ∈ w.transit, a.msg.Fits) (World.start cfg) es →
      Along (World.step cfg) (fun w => ∀ a ∈ w.transit, a.msg.Ascii) (World.start cfg) es →
      ∀ w, run (World.step cfg) (World.start cfg) es = some w → w.Settled cfg →
        (∀ x, Mentioned w.accepted x ↔ x ∈ (w.repo (owner cfg.hosts x)).storage.nodes) ∧
        ∀ a ∈ w.transit, a.dst ∈ cfg.repos → ∀ q, a.msg = .query q →
          (KnowsAsked (w.repo a.dst).storage a.msg.buffer ↔
            Mentioned w.accepted q.nameA ∨ Rejected q) ∧
          (¬ Mentioned w.accepted q.nameA → IsRoot w.accepted q.request_id q.nameA)) := by
  constructor
  · exact Meets.of_step (fun w e w' hI hC hstep => hI.step hC hstep) World.Listing.start
  · intro hne hsteady hfits hascii w hrun hsettled
    have halong := along_turns hne (I := fun w => Rows cfg w.repo w.accepted w.transit ∧
        Recorded cfg w.repo w.accepted w.transit ∧
        Searched cfg w.server.pending w.accepted w.transit) ?_ ?_ (World.Inv.start cfg)
      ⟨Rows.start, Recorded.start, Searched.start⟩ hsteady
      (along_admissible hne hsteady hfits hascii)
    · obtain ⟨⟨-, hadm⟩, hrows, hrecorded, hsearched⟩ := halong.last hrun
      exact ⟨hrecorded.mentioned_iff hrows hne hsettled, fun a ha hdst q hmsg =>
        knowsAsked_iff hadm hne hrows hrecorded hsearched hsettled ha hdst hmsg⟩
    · rintro w client msg ⟨hrows, hrecorded, hsearched⟩ - hmsg
      exact ⟨hrows.request client msg, hrecorded.request client msg,
        hsearched.request client hmsg⟩
    · rintro w a rest w' hinv hadm ⟨hrows, hrecorded, hsearched⟩ htransit hturn
      exact ⟨hturn.rows hinv hne htransit hrows, hturn.recorded hinv hne htransit hrows hrecorded,
        hturn.searched htransit hrows hsearched⟩

end Runs

/-- Client 1 asks for x, and the repository answers as request `n`. -/
def askFor (x : Str) (relations : List Str) (n : ℕ) : List Event :=
  let server := oneRepository.address
  let repository : Host := ⟨str "10.0.0.2", 50001⟩
  [.request (clientHost 1) (lookup x 0),
    .deliver ⟨clientHost 1, server, lookup x 0, 0⟩ noThrow,
    .deliver ⟨server, repository, lookup x n, n⟩ noThrow,
    .deliver ⟨repository, server, .info ⟨x, [], relations, n, true⟩, n⟩ noThrow]

/-- A query behind the create of its root. -/
theorem queries_list_existing_create :
    Meets (World.step oneRepository) (World.ListsExisting oneRepository) (World.start oneRepository)
      (oneCreate ++ askFor (str "a") [str "b"] 2) ∧
    ∃ w, run (World.step oneRepository) (World.start oneRepository)
        (oneCreate ++ (askFor (str "a") [str "b"] 2).take 2) = some w ∧
      KnowsAsked (w.repo ⟨str "10.0.0.2", 50001⟩).storage (lookup (str "a") 2).buffer := by
  refine ⟨(queries_list_existing oneRepository _).1 (by decide +kernel), ?_⟩
  have hrun : ∃ w, run (World.step oneRepository) (World.start oneRepository)
      (oneCreate ++ (askFor (str "a") [str "b"] 2).take 2) = some w ∧
      w.transit = {⟨oneRepository.address, ⟨str "10.0.0.2", 50001⟩, lookup (str "a") 2, 2⟩} ∧
      w.accepted.map (fun p => p.2.msg) =
        [.node ⟨str "a", [], [str "b"], 0, []⟩, lookup (str "a") 0] :=
    exists_of_check (by decide +kernel)
  obtain ⟨w, hw, htransit, haccepted⟩ := hrun
  refine ⟨w, hw, ?_⟩
  have hsettled : w.Settled oneRepository := by
    intro b hb _ m hm
    rw [htransit, Multiset.mem_singleton] at hb
    subst hb
    cases hm
  have hmem : (⟨oneRepository.address, ⟨str "10.0.0.2", 50001⟩, lookup (str "a") 2, 2⟩ : Envelope) ∈
      w.transit := by
    rw [htransit]
    exact Multiset.mem_singleton_self _
  obtain ⟨-, hasked⟩ := (queries_list_existing oneRepository
    (oneCreate ++ (askFor (str "a") [str "b"] 2).take 2)).2 (by decide)
    (by simp [oneCreate, askFor, Event.Steady]) (by decide +kernel) (by decide +kernel) w hw
    hsettled
  refine (hasked _ hmem (by decide) _ rfl).1.mpr (Or.inl ?_)
  have hcreate : Msg.node ⟨str "a", [], [str "b"], 0, []⟩ ∈ w.accepted.map (fun p => p.2.msg) := by
    rw [haccepted]
    exact List.mem_cons_self
  obtain ⟨p, hp, hmsg⟩ := List.mem_map.mp hcreate
  exact ⟨p, hp, _, hmsg, Or.inl rfl⟩

/-- The response to a query for a name that nobody created lists it. -/
theorem missing_root_listed : ∃ w,
    run (World.step oneRepository) (World.start oneRepository) (askFor (str "z") [] 1) = some w ∧
    (∀ h ∈ oneRepository.repos, (w.repo h).storage.nodes = []) ∧
    ⟨oneRepository.address, clientHost 1,
      .response ⟨completeText (str "z [Depth = 0]\\n"), 1⟩, 1⟩ ∈ w.sent ∧
    ¬ Meets (World.step oneRepository) (World.ListsExisting oneRepository)
      (World.start oneRepository) (askFor (str "z") [] 1) := by
  have hrun : ∃ w,
      run (World.step oneRepository) (World.start oneRepository) (askFor (str "z") [] 1) = some w ∧
      (∀ h ∈ oneRepository.repos, (w.repo h).storage.nodes = []) ∧
      ⟨oneRepository.address, clientHost 1,
        .response ⟨completeText (str "z [Depth = 0]\\n"), 1⟩, 1⟩ ∈ w.sent :=
    exists_of_check (by decide +kernel)
  have hinit : ∃ w, run (World.step oneRepository) (World.start oneRepository)
        ((askFor (str "z") [] 1).take 3) = some w ∧
      (∀ h ∈ oneRepository.repos, (w.repo h).storage.nodes = []) ∧
      w.server.pending 1 = some ⟨clientHost 1, some (QueryState.start
        ⟨str "z", 0, false, false, [], 1⟩)⟩ := exists_of_check (by decide +kernel)
  obtain ⟨w, hw, hnodes, hsent⟩ := hrun
  obtain ⟨w₁, hw₁, hnodes₁, hpending⟩ := hinit
  refine ⟨w, hw, hnodes, hsent, fun hmeets => ?_⟩
  have hsplit : askFor (str "z") [] 1 = (askFor (str "z") [] 1).take 3 ++
      (askFor (str "z") [] 1).drop 3 := (List.take_append_drop 3 _).symm
  rw [hsplit] at hmeets hw
  rw [run_append, hw₁, Option.bind_some] at hw
  obtain ⟨w₂, hstep, -⟩ := run_cons.mp hw
  obtain ⟨hlast, -⟩ := hmeets.append hw₁ w₂ hstep
  have hbranch : runConnection noThrow w₁.server ⟨str "10.0.0.2", 50001⟩
      (found (str "z") 1).buffer = .ok ({ w₁.server.close 1 with cud_blocking := false },
        [⟨clientHost 1, .response ⟨completeText (str "z [Depth = 0]\\n"), 1⟩⟩]) := by
    rw [found, server_info noThrow ⟨str "10.0.0.2", 50001⟩ w₁.server (by constructor <;> decide)]
    have hempty : ((QueryState.start ⟨str "z", 0, false, false, [], 1⟩).advance (str "z", 0) []
        ⟨str "z", [], [], 1, true⟩).node_queue = [] := by decide +kernel
    exact infoBranch_complete hpending rfl rfl hempty
  obtain ⟨attr, log, htext, hlog⟩ := hlast rfl rfl _ _ _ _ hbranch
  cases log with
  | nil =>
    have hnil : str "z [Depth = 0]\\n" = [] := htext
    exact absurd hnil (by decide)
  | cons l log =>
    obtain ⟨host, hhost, -, hx⟩ := hlog l List.mem_cons_self
    rw [hnodes₁ host hhost] at hx
    cases hx

end DGDB
