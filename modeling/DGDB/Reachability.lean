import Mathlib
import DGDB.Joining

/-!
# Created nodes and repositories that join

A stored row stays where it is: no message takes one out of the tables or moves it to another
repository. The repository of a name is chosen from the current list at every request, so a read
finds the rows of a create as long as the list selects the host it selected for the create.
-/

namespace DGDB

open EventSystem Decimal

/-! ## Rows -/

/-- The rows that a `C` stores for its node. -/
structure HoldsRows (st : Storage) (n : NodeMsg) : Prop where
  node : n.nameA ∈ st.nodes
  attributes : (n.attributes.map fun a => { a with node_name := n.nameA }).Sublist st.attributes
  relations : (n.relations.map fun rel => (⟨n.nameA, rel⟩ : Relation)).Sublist st.relations

instance (st : Storage) (n : NodeMsg) : Decidable (HoldsRows st n) :=
  decidable_of_iff (n.nameA ∈ st.nodes ∧
      (n.attributes.map fun a => { a with node_name := n.nameA }).Sublist st.attributes ∧
      (n.relations.map fun rel => (⟨n.nameA, rel⟩ : Relation)).Sublist st.relations)
    ⟨fun h => ⟨h.1, h.2.1, h.2.2⟩, fun h => ⟨h.node, h.attributes, h.relations⟩⟩

/-- `st'` holds all that `st` holds. -/
structure Storage.Grows (st st' : Storage) : Prop where
  nodes : st.nodes ⊆ st'.nodes
  attributes : st.attributes.Sublist st'.attributes
  relations : st.relations.Sublist st'.relations

theorem Storage.Grows.refl (st : Storage) : st.Grows st :=
  ⟨List.Subset.refl _, List.Sublist.refl _, List.Sublist.refl _⟩

theorem HoldsRows.mono {st st' : Storage} {n : NodeMsg} (h : HoldsRows st n) (hst : st.Grows st') :
    HoldsRows st' n :=
  ⟨hst.nodes h.node, h.attributes.trans hst.attributes, h.relations.trans hst.relations⟩

section Stored

variable {db db' : Process} {from_addr : Host} {s_buffer : Str} {out : List Send} {m : NodeMsg}
  {hosts : List Host}

theorem Looped.grows {st storage' : Storage} {message message' : Str}
    (h : Looped from_addr m.nameA m.request_id hosts m.relations
      (storeAttributes m.nameA m.attributes (st.insertNode m.nameA)) message storage' message'
      out) :
    st.Grows storage' ∧ m.nameA ∈ storage'.nodes ∧ storage'.attributes =
      st.attributes ++ m.attributes.map fun a => { a with node_name := m.nameA } := by
  obtain ⟨kept, -, hrel, -⟩ := h.rows
  have hnodes := h.nodes
  have hattr : storage'.attributes =
      st.attributes ++ m.attributes.map fun a => { a with node_name := m.nameA } := by
    rw [h.attributes, attributes_storeAttributes, Storage.attributes_insertNode]
  rw [nodes_storeAttributes] at hnodes
  rw [relations_storeAttributes, Storage.relations_insertNode] at hrel
  refine ⟨⟨?_, ?_, ?_⟩, hnodes (st.mem_nodes_insertNode m.nameA), hattr⟩
  · exact List.Subset.trans (st.nodes_insertNode_subset m.nameA) hnodes
  · rw [hattr]
    exact List.sublist_append_left _ _
  · rw [hrel]
    exact List.sublist_append_left _ _

theorem InfoStep.storage {i : InfoMsg} (h : InfoStep db i db' out) : db'.storage = db.storage := by
  cases h <;> rfl

/-- **Rows stay.** No turn of a repository takes a row out. -/
theorem RepositoryStep.grows (h : RepositoryStep db from_addr s_buffer db' out) :
    db.storage.Grows db'.storage := by
  cases h with
  | node _ _ _ hstep =>
    cases hstep with
    | failed => exact Storage.Grows.refl _
    | stored hloop => exact hloop.grows.1
  | info _ _ hstep =>
    rw [hstep.storage]
    exact Storage.Grows.refl _
  | _ => exact Storage.Grows.refl _

end Stored

/-! ## The answer to a create -/

/-- The text of a reply to a `C` that has stored everything. -/
def OkText (message : Str) : Prop := message = storedText ∨ message = existsText ++ storedText

instance (message : Str) : Decidable (OkText message) := inferInstanceAs (Decidable (_ ∨ _))

theorem OkText.not_error {what : Str} : ¬ OkText (str "[ERROR] " ++ what) := by
  have hstr : str "[ERROR] " = 91 :: 69 :: [82, 82, 79, 82, 93, 32] := by decide
  have hstored : storedText.headD 0 = 79 := by decide
  have hexists : (existsText ++ storedText).tail.headD 0 = 87 := by decide
  rintro (h | h)
  · rw [← h, hstr] at hstored
    cases hstored
  · rw [← h, hstr] at hexists
    cases hexists

theorem OkText.not_serverText {message : Str} (h : OkText message) : ¬ ServerText message := by
  have hcomplete : ∀ response, completeText response ≠ storedText ∧
      completeText response ≠ existsText ++ storedText := by
    intro response
    have hstr : str "OK! Query complete\\n" = 79 :: 75 :: 33 :: 32 :: 81 ::
        (str "OK! Query complete\\n").drop 5 := by decide
    refine ⟨fun heq => ?_, fun heq => ?_⟩
    · have hstored : storedText[4]? = some 78 := by decide
      rw [← heq, completeText, hstr] at hstored
      cases hstored
    · have hexists : (existsText ++ storedText).headD 0 = 91 := by decide
      rw [← heq, completeText, hstr] at hexists
      cases hexists
  rintro (rfl | rfl | rfl | ⟨response, rfl⟩)
  · exact absurd h (by decide)
  · exact absurd h (by decide)
  · exact absurd h (by decide)
  · exact h.elim (hcomplete response).1 (hcomplete response).2

/-- A text of 1000 bytes or more is read from its length's fourth digit on. -/
theorem readResponse_message {m m' : ResponseMsg}
    (h : readResponse (parseNewMessageResponse m) = .ok m') :
    m'.message = m.message ∨ m'.message = [] ∨ isDigit (m'.message.headD 0) = true := by
  obtain ⟨b, b₁, t, hb, hmessage, -, -⟩ := readResponse_ok h
  rw [parseNewMessageResponse, erase_head] at hb
  cases hb
  by_cases hlen : m.message.length ≤ 999
  · have hread := takeSized_sized (p := []) (r := idText m.request_id) (s := 0) rfl (by simp) hlen
    rw [List.nil_append, hmessage] at hread
    exact Or.inl (congrArg Prod.fst (Except.ok.inj hread))
  · refine Or.inr ?_
    obtain ⟨t, extra, hsplit, htlen, ht, hextra, hiff⟩ := padded_split m.message.length
    have hne : extra ≠ [] := fun hnil => hlen (hiff.mp hnil)
    obtain ⟨c, extra, rfl⟩ := List.exists_cons_of_ne_nil hne
    have htne : t ≠ [] := by
      rintro rfl
      simp at htlen
    have hnum := takeNumber_digits (p := []) (s := 0) (w := 3)
      (r := (c :: extra) ++ (m.message ++ idText m.request_id)) rfl (by rw [htlen]; rfl) (by simp)
      htne htlen.le ht
    unfold takeSized at hmessage
    rw [sized, hsplit, List.append_assoc, List.append_assoc,
      show t ++ (c :: extra ++ (m.message ++ idText m.request_id)) =
        [] ++ (t ++ (c :: extra ++ (m.message ++ idText m.request_id))) from rfl, hnum,
      ok_bind] at hmessage
    obtain ⟨x, hx, hmessage⟩ := bind_eq_ok.mp hmessage
    obtain ⟨b₂, -, hmessage⟩ := bind_eq_ok.mp hmessage
    cases hmessage
    by_cases hnil : m'.message = []
    · exact Or.inl hnil
    · have hhead := headD_of_substr hx hnil
      refine Or.inr ?_
      rw [← hhead]
      exact hextra c List.mem_cons_self

theorem OkText.sent {m m' : ResponseMsg} (h : readResponse (parseNewMessageResponse m) = .ok m')
    (hok : OkText m'.message) : OkText m.message := by
  rcases readResponse_message h with heq | hnil | hdigit
  · exact heq ▸ hok
  · rw [hnil] at hok
    exact absurd hok (by decide)
  · rcases hok with hok | hok
    · rw [hok] at hdigit
      exact absurd hdigit (by decide)
    · rw [hok] at hdigit
      exact absurd hdigit (by decide)

section Answer

variable {db db' : Process} {from_addr : Host} {out : List Send}

theorem IsReport.not_ok {request_id : ℤ} {s : Send} (h : IsReport from_addr request_id s)
    {r : ResponseMsg} (hr : s.msg = .response r) : ¬ OkText r.message := by
  obtain ⟨what, rfl⟩ := h
  cases hr
  exact OkText.not_error

theorem IsReply.message {request_id : ℤ} {message : Str} (h : IsReply db request_id message out)
    {s : Send} (hs : s ∈ out) {r : ResponseMsg} (hr : s.msg = .response r) :
    request_id ≠ 0 ∧ r.message = message := by
  rcases h with ⟨-, rfl⟩ | ⟨hid, host, -, rfl⟩
  · exact absurd hs List.not_mem_nil
  · rw [List.mem_singleton.mp hs] at hr
    cases hr
    exact ⟨hid, rfl⟩

theorem InfoStep.not_ok {i : InfoMsg} (h : InfoStep db i db' out) {s : Send} (hs : s ∈ out)
    {r : ResponseMsg} (hr : s.msg = .response r) : ¬ OkText r.message := by
  have htext : ServerText r.message → ¬ OkText r.message := fun h hok => hok.not_serverText h
  cases h with
  | complete =>
    rw [List.mem_singleton.mp hs] at hr
    cases hr
    exact htext (Or.inr (Or.inr (Or.inr ⟨_, rfl⟩)))
  | next =>
    rw [List.mem_singleton.mp hs] at hr
    cases hr
  | mismatch =>
    rw [List.mem_singleton.mp hs] at hr
    cases hr
    exact htext (Or.inr (Or.inr (Or.inl rfl)))

theorem StoreStep.ok_answer {m : NodeMsg} {hosts : List Host}
    (h : StoreStep db from_addr m hosts db' out) {s : Send} (hs : s ∈ out) {r : ResponseMsg}
    (hr : s.msg = .response r) (hok : OkText r.message) :
    m.request_id ≠ 0 ∧ HoldsRows db'.storage m := by
  cases h with
  | failed hreport =>
    rw [List.mem_singleton.mp hs] at hr
    exact absurd hok (hreport.not_ok hr)
  | @stored storage message out reply hloop hreply =>
    rcases List.mem_append.mp hs with hs | hs
    · exact absurd hok ((hloop.reports s hs (by rw [hr]; rfl)).not_ok hr)
    · obtain ⟨hid, hmessage⟩ := hreply.message hs hr
      obtain ⟨hgrows, hnode, hattr⟩ := hloop.grows
      obtain ⟨kept, -, hrel, ⟨-, hkept⟩ | ⟨what, hwhat⟩⟩ := hloop.rows
      · refine ⟨hid, hnode, ?_, ?_⟩
        · show List.Sublist _ storage.attributes
          rw [hattr]
          exact List.sublist_append_right _ _
        · show List.Sublist _ storage.relations
          rw [hrel, hkept]
          exact List.sublist_append_right _ _
      · rw [hmessage, hwhat, List.append_assoc] at hok
        exact absurd hok OkText.not_error

/-- **Where an OK comes from**: a repository sends it for a `C` whose rows it holds then, or passes
one on. -/
theorem RepositoryStep.ok_answer {m : Msg} (h : RepositoryStep db from_addr m.buffer db' out)
    {s : Send} (hs : s ∈ out) {r : ResponseMsg} (hr : s.msg = .response r)
    (hok : OkText r.message) :
    (∃ r₀, m = .response r₀ ∧ OkText r₀.message) ∨ ∃ n d, m = .node n ∧
      readNode m.buffer = .ok d ∧ d.fields.request_id ≠ 0 ∧ HoldsRows db'.storage d.fields := by
  cases h with
  | response hhead hread =>
    obtain ⟨r₀, rfl⟩ := Msg.eq_response hhead
    rw [List.mem_singleton.mp hs] at hr
    cases hr
    exact Or.inl ⟨r₀, rfl, OkText.sent hread hok⟩
  | info _ _ hstep => exact absurd hok (hstep.not_ok hs hr)
  | busy =>
    rw [List.mem_singleton.mp hs] at hr
    cases hr
    exact absurd (Or.inl rfl) hok.not_serverText
  | node hhead hread _ hstep =>
    obtain ⟨n, rfl⟩ := Msg.eq_node hhead
    exact Or.inr ⟨n, _, rfl, hread, hstep.ok_answer hs hr hok⟩
  | query =>
    rw [List.mem_singleton.mp hs] at hr
    cases hr
  | update =>
    rw [List.mem_singleton.mp hs] at hr
    cases hr
    have hupdated : ¬ OkText updatedText := by decide
    exact absurd hok hupdated
  | @delete d _ _ _ _ _ _ _ hreverse hreply =>
    rcases List.mem_append.mp hs with hs | hs
    · rcases hreverse with ⟨-, rfl⟩ | ⟨-, -, host, -, rfl⟩
      · exact absurd hs List.not_mem_nil
      · rw [List.mem_singleton.mp hs] at hr
        cases hr
    · rw [(hreply.message hs hr).2] at hok
      have hdeleted : ∀ object, ¬ OkText (deletedText object) := by
        intro object
        unfold deletedText
        split_ifs <;> decide
      exact absurd hok (hdeleted _)
  | register => exact absurd hs List.not_mem_nil
  | ignore => exact absurd hs List.not_mem_nil

end Answer

/-! ## The invariant -/

/-- The server has sent an OK for the request `k`. -/
def AnsweredOk (cfg : Config) (w : World) (k : ℕ) : Prop :=
  ∃ b ∈ w.sent, b.src = cfg.address ∧ b.req = k ∧ ∃ m, b.msg = .response m ∧ OkText m.message

/-- The server's `C` for the request `k` is at a repository that holds its rows. -/
def Kept (cfg : Config) (w : World) (k : ℕ) : Prop :=
  ∃ c ∈ w.sent, c.src = cfg.address ∧ c.req = k ∧
    ∃ n, c.msg = .node n ∧ HoldsRows (w.repo c.dst).storage n

/-- What the server has sent for its creates and what has been answered. -/
structure World.Filed (cfg : Config) (w : World) : Prop where
  traced : w.Traced cfg
  single : ∀ c ∈ w.sent, ∀ c' ∈ w.sent, c.src = cfg.address → c'.src = cfg.address →
    c.msg.spreads = true → c'.msg.spreads = true → c.req = c'.req → c = c'
  placed : ∀ c ∈ w.sent, c.src = cfg.address → ∀ n, c.msg = .node n → n.nameA ≠ [] →
    Place.next.host n.master_repos n.nameA = .ok c.dst
  answered : ∀ b ∈ w.sent, ∀ m, b.msg = .response m → OkText m.message → Kept cfg w b.req

theorem World.Filed.launch (cfg : Config) : (World.launch cfg).Filed cfg where
  traced := World.Traced.launch cfg
  single := by simp [World.launch]
  placed := by simp [World.launch]
  answered := by simp [World.launch]

section Filed

variable {cfg : Config} {w w' : World} {es : List Envelope}

theorem Kept.mono {k : ℕ} (h : Kept cfg w k) (hsent : w'.sent = w.sent ++ es)
    (hgrows : ∀ host, (w.repo host).storage.Grows (w'.repo host).storage) : Kept cfg w' k := by
  obtain ⟨c, hc, hsrc, hreq, n, hn, hrows⟩ := h
  exact ⟨c, hsent ▸ List.mem_append_left es hc, hsrc, hreq, n, hn, hrows.mono (hgrows c.dst)⟩

theorem World.Filed.extend (h : w.Filed cfg) (ht : w'.Traced cfg) (hsent : w'.sent = w.sent ++ es)
    (hgrows : ∀ host, (w.repo host).storage.Grows (w'.repo host).storage)
    (hsingle : ∀ b ∈ es, b.src = cfg.address → b.msg.spreads = true →
      w.server.current_request ≤ b.req ∧ es = [b])
    (hplaced : ∀ b ∈ es, b.src = cfg.address → ∀ n, b.msg = .node n → n.nameA ≠ [] →
      Place.next.host n.master_repos n.nameA = .ok b.dst)
    (hanswered : ∀ b ∈ es, ∀ m, b.msg = .response m → OkText m.message →
      (∃ a ∈ w.sent, a.req = b.req ∧ ∃ m, a.msg = .response m ∧ OkText m.message) ∨
        Kept cfg w' b.req) : w'.Filed cfg := by
  have hfresh : ∀ c ∈ w.sent, ∀ b ∈ es, b.src = cfg.address → b.msg.spreads = true →
      c.req ≠ b.req := by
    intro c hc b hb hsrc hspreads
    have hlt := h.traced.req c hc
    have hle := (hsingle b hb hsrc hspreads).1
    omega
  refine ⟨ht, ?_, ?_, ?_⟩
  · intro c hc c' hc' hsrc hsrc' hspreads hspreads' hreq
    rcases List.mem_append.mp (hsent ▸ hc) with hc | hc <;>
      rcases List.mem_append.mp (hsent ▸ hc') with hc' | hc'
    · exact h.single c hc c' hc' hsrc hsrc' hspreads hspreads' hreq
    · exact absurd hreq (hfresh c hc c' hc' hsrc' hspreads')
    · exact absurd hreq.symm (hfresh c' hc' c hc hsrc hspreads)
    · rw [(hsingle c hc hsrc hspreads).2] at hc'
      exact (List.mem_singleton.mp hc').symm
  · intro c hc
    rcases List.mem_append.mp (hsent ▸ hc) with hc | hc
    · exact h.placed c hc
    · exact hplaced c hc
  · intro b hb m hm hok
    rcases List.mem_append.mp (hsent ▸ hb) with hb | hb
    · exact (h.answered b hb m hm hok).mono hsent hgrows
    · rcases hanswered b hb m hm hok with ⟨a, ha, hreq, m₀, hm₀, hok₀⟩ | hkept
      · exact hreq ▸ (h.answered a ha m₀ hm₀ hok₀).mono hsent hgrows
      · exact hkept

/-- A non-empty name selects the same host wherever the server looks at it. -/
theorem Place.host_eq_next {p : Place} (hp : ¬ p.IsReverse) {name b : Str} (h : p.Reads name b)
    (hne : name ≠ []) (hosts : List Host) : p.host hosts b = Place.next.host hosts name := by
  unfold Place.host
  rw [Place.index_eq, Place.index_eq, if_neg hp, if_neg (by decide), h.headD hne]

theorem Msg.IsRequest.ne_response {msg : Msg} (h : msg.IsRequest) (m : ResponseMsg) :
    msg ≠ .response m := by
  rintro rfl
  exact h

theorem JoinStep.filed {e : JoinEvent} (h : JoinStep cfg w e w') (hI : w.Filed cfg)
    (hstr : w.Strings) : w'.Filed cfg := by
  have ht := h.traced hI.traced hstr
  have hsame : ∀ host, (w.repo host).storage.Grows (w.repo host).storage :=
    fun _ => Storage.Grows.refl _
  cases h with
  | request hclient hmsg =>
    refine hI.extend ht rfl hsame ?_ ?_ ?_
    · intro b hb hsrc
      rw [List.mem_singleton.mp hb] at hsrc
      exact absurd hsrc hclient.1
    · intro b hb hsrc
      rw [List.mem_singleton.mp hb] at hsrc
      exact absurd hsrc hclient.1
    · intro b hb m hm
      rw [List.mem_singleton.mp hb] at hm
      exact absurd hm (hmsg.ne_response m)
  | register hrepo =>
    refine hI.extend ht rfl hsame ?_ ?_ ?_
    · intro b hb _ hspreads
      rw [List.mem_singleton.mp hb] at hspreads
      cases hspreads
    · intro b hb _ n hn
      rw [List.mem_singleton.mp hb] at hn
      cases hn
    · intro b hb m hm
      rw [List.mem_singleton.mp hb] at hm
      cases hm
  | @accept a throws rest db host msg htransit hdst haccepts =>
    refine hI.extend ht rfl hsame ?_ ?_ ?_
    · intro b hb _ _
      rw [List.mem_singleton.mp hb]
      exact ⟨le_rfl, rfl⟩
    · intro b hb _ n hn hne
      rw [List.mem_singleton.mp hb] at hn ⊢
      cases haccepts with
      | @node d _ hread hhost =>
        cases hn
        rw [← hhost]
        have hreads : Place.create.Reads d.fields.nameA d.s_buffer := ⟨_, d, hread, rfl, rfl⟩
        exact (Place.host_eq_next (by decide) hreads hne _).symm
      | query => cases hn
      | update => cases hn
      | delete => cases hn
    · intro b hb m hm
      rw [List.mem_singleton.mp hb] at hm
      cases haccepts <;> cases hm
  | @serve a throws rest db out htransit hdst hserves =>
    refine hI.extend ht rfl hsame ?_ ?_ ?_
    · intro b hb _ hspreads
      obtain ⟨s, hs, rfl⟩ := mem_stamp.mp hb
      exact absurd hspreads (by simp [(hserves s hs).spreads])
    · intro b hb _ n hn
      obtain ⟨s, hs, rfl⟩ := mem_stamp.mp hb
      have hno := (hserves s hs).spreads
      rw [show s.msg = .node n from hn] at hno
      cases hno
    · intro b hb m hm hok
      obtain ⟨s, hs, rfl⟩ := mem_stamp.mp hb
      rcases hserves s hs with ⟨m', hm', ⟨hhead, hread⟩ | htext⟩ | ⟨q, hq, -⟩
      · obtain ⟨m₀, hm₀⟩ := Msg.eq_response hhead
        rw [hm₀] at hread
        cases hm'.symm.trans hm
        exact Or.inl ⟨a, hI.traced.mem_sent htransit, rfl, m₀, hm₀, OkText.sent hread hok⟩
      · cases hm'.symm.trans hm
        exact absurd htext hok.not_serverText
      · cases hq.symm.trans hm
  | @repository a throws rest db out htransit hdst hstep =>
    have ha := hI.traced.mem_sent htransit
    have hadst : a.dst ≠ cfg.address := fun heq => cfg.apart (heq ▸ hdst)
    have hnew : ∀ b ∈ World.stamp a.dst a.req out, b.src ≠ cfg.address := by
      intro b hb
      obtain ⟨s, -, rfl⟩ := mem_stamp.mp hb
      exact hadst
    refine hI.extend ht rfl ?_ (fun b hb hsrc => absurd hsrc (hnew b hb))
      (fun b hb hsrc => absurd hsrc (hnew b hb)) ?_
    · intro host
      by_cases hhost : host = a.dst
      · subst hhost
        show (w.repo a.dst).storage.Grows (Function.update w.repo a.dst db a.dst).storage
        rw [Function.update_self]
        exact hstep.grows
      · show (w.repo host).storage.Grows (Function.update w.repo a.dst db host).storage
        rw [Function.update_of_ne hhost]
        exact Storage.Grows.refl _
    · intro b hb m hm hok
      obtain ⟨s, hs, rfl⟩ := mem_stamp.mp hb
      rcases hstep.ok_answer hs hm hok with ⟨m₀, hm₀, hok₀⟩ | ⟨n, d, hn, hread, hid, hrows⟩
      · exact Or.inl ⟨a, ha, rfl, m₀, hm₀, hok₀⟩
      · -- a `C` with an id is the server's
        have hread' : readNode (parseNewNode n) = .ok d := by
          rw [hn] at hread
          exact hread
        cases hI.traced.origin a ha (by rw [hn]; rfl) with
        | client _ haddress => exact absurd haddress hadst
        | repository _ _ hmsg =>
          rw [hn] at hmsg
          obtain ⟨hfits, hzero, -⟩ := hmsg
          rw [readNode_parseNewNode hfits.name hfits.relations_length hfits.relations
            hfits.attributes_length hfits.attributes hfits.id] at hread'
          cases hread'
          exact absurd hzero hid
        | server hsrc _ _ hshort =>
          rw [hn] at hshort
          obtain ⟨request_id, r, hd⟩ := readNode_short hshort
          rw [hd] at hread'
          cases hread'
          refine Or.inr ⟨a, List.mem_append_left _ ha, hsrc, rfl, n, hn, ?_⟩
          show HoldsRows (Function.update w.repo a.dst db a.dst).storage n
          rw [Function.update_self]
          refine ⟨hrows.node, ?_, hrows.relations⟩
          have hattr := hrows.attributes
          rwa [List.map_map] at hattr
  | client =>
    have hsent : w.sent = w.sent ++ [] := (List.append_nil _).symm
    exact hI.extend ht hsent hsame (by simp) (by simp) (by simp)

theorem JoinStep.query_host {e : JoinEvent} (h : JoinStep cfg w e w') {r : Envelope}
    (hr : r ∈ w'.sent.drop w.sent.length) (hsrc : r.src = cfg.address) {q : QueryMsg}
    (hq : r.msg = .query q) (hne : q.nameA ≠ []) :
    Place.next.host w.server.repositories q.nameA = .ok r.dst ∧ w'.repo = w.repo := by
  have hdrop : ∀ es : List Envelope, (w.sent ++ es).drop w.sent.length = es :=
    fun es => List.drop_left
  cases h with
  | request hclient =>
    rw [World.post_sent, hdrop] at hr
    rw [List.mem_singleton.mp hr] at hsrc
    exact absurd hsrc hclient.1
  | register =>
    rw [World.post_sent, hdrop] at hr
    rw [List.mem_singleton.mp hr] at hq
    cases hq
  | accept _ _ haccepts =>
    rw [hdrop] at hr
    rw [List.mem_singleton.mp hr] at hq ⊢
    cases haccepts with
    | @query d _ hread hhost =>
      cases hq
      rw [← hhost]
      have hreads : Place.query.Reads d.fields.nameA d.s_buffer := ⟨_, d, hread, rfl, rfl⟩
      exact ⟨(Place.host_eq_next (by decide) hreads hne _).symm, rfl⟩
    | node => cases hq
    | update => cases hq
    | delete => cases hq
  | serve _ _ hserves =>
    rw [hdrop] at hr
    obtain ⟨s, hs, rfl⟩ := mem_stamp.mp hr
    rcases hserves s hs with ⟨m, hm, -⟩ | ⟨q', hq', hhost⟩
    · cases hm.symm.trans hq
    · cases hq'.symm.trans hq
      exact ⟨hhost, rfl⟩
  | repository _ hdst =>
    rw [hdrop] at hr
    obtain ⟨s, -, rfl⟩ := mem_stamp.mp hr
    exact absurd (hsrc ▸ hdst) cfg.apart
  | client => simp at hr

end Filed

/-- **Created nodes stay reachable** as long as their name selects the host of the create: an `R`
that the server sends after a create has been answered with an OK goes to a repository that holds
the rows of the create. -/
theorem created_reachable {cfg : Config} {es : List JoinEvent} {e : JoinEvent} {w w' : World}
    (hstr : Along (World.join cfg) World.Strings (World.launch cfg) es)
    (hrun : run (World.join cfg) (World.launch cfg) es = some w) (hstep : w.join cfg e = some w')
    {c r : Envelope} {n : NodeMsg} {q : QueryMsg} (hc : c ∈ w.sent) (hcsrc : c.src = cfg.address)
    (hn : c.msg = .node n) (hok : AnsweredOk cfg w c.req) (hr : r ∈ w'.sent.drop w.sent.length)
    (hrsrc : r.src = cfg.address) (hq : r.msg = .query q) (hname : q.nameA = n.nameA)
    (hne : n.nameA ≠ []) (hentry : Place.next.host w.server.repositories n.nameA =
      Place.next.host n.master_repos n.nameA) : HoldsRows (w'.repo r.dst).storage n := by
  have hfiled : Along (World.join cfg) (fun w => w.Filed cfg) (World.launch cfg) es :=
    Along.of_step (fun _ _ _ hA _ _ hI hs => (joinStep_of_join hI.traced.roles hs).filed hI hA)
      (World.Filed.launch cfg) hstr (meets_true _ _)
  have hI := hfiled.last hrun
  obtain ⟨hhost, hrepo⟩ :=
    (joinStep_of_join hI.traced.roles hstep).query_host hr hrsrc hq (hname ▸ hne)
  have hdst : r.dst = c.dst := by
    rw [hname, hentry, hI.placed c hc hcsrc n hn hne] at hhost
    exact (Except.ok.inj hhost).symm
  obtain ⟨b, hb, -, hreq, m, hm, hmok⟩ := hok
  obtain ⟨c', hc', hsrc', hreq', n', hn', hrows⟩ := hI.answered b hb m hm hmok
  have hcc : c = c' := hI.single c hc c' hc' hcsrc hsrc' (by rw [hn]; rfl) (by rw [hn']; rfl)
    (hreq.symm.trans hreq'.symm)
  subst hcc
  cases hn.symm.trans hn'
  rw [hrepo, hdst]
  exact hrows

/-! ### A repository that joins between a create and a read -/

/-- A deployment with two repositories. -/
def twoRepositories : Config where
  self := ⟨str "127.0.0.1", 50000⟩
  address := ⟨str "10.0.0.1", 50000⟩
  repos := [⟨str "10.0.0.2", 50001⟩, ⟨str "10.0.0.3", 50002⟩]
  apart := by decide

def firstRepository : Host := ⟨str "10.0.0.2", 50001⟩

def secondRepository : Host := ⟨str "10.0.0.3", 50002⟩

def joins (repo : Host) : List JoinEvent :=
  [.register repo, hop repo twoRepositories.address .register 0]

/-- Client 1 creates a node with one attribute at the first repository, the server's list being
`hosts`, and gets its OK. -/
def creates (name : Str) (hosts : List Host) : List JoinEvent :=
  let server := twoRepositories.address
  let node (request_id : ℤ) (hosts : List Host) : Msg :=
    .node ⟨name, [⟨[], str "k", str "v"⟩], [], request_id, hosts⟩
  [.other (.request (clientHost 1) (node 0 [])), hop (clientHost 1) server (node 0 []) 0,
    hop server firstRepository (node 1 hosts) 1,
    hop firstRepository server (.response ⟨storedText, 1⟩) 1]

/-- Client 2 asks for a node, and the server handles this. -/
def requestsRead (name : Str) : JoinEvent :=
  .other (.request (clientHost 2) (.query ⟨name, 1, false, true, [], 0⟩))

def handlesRead (name : Str) : JoinEvent :=
  hop (clientHost 2) twoRepositories.address (.query ⟨name, 1, false, true, [], 0⟩) 0

/-- After the events `es`, the event `e` makes the server send an `R` for a created node to a
repository that lacks its rows. -/
def MissesRows (cfg : Config) (es : List JoinEvent) (e : JoinEvent) : Prop :=
  ∃ w, run (World.join cfg) (World.launch cfg) es = some w ∧ ∃ w', w.join cfg e = some w' ∧
    ∃ c ∈ w.sent, ∃ r ∈ w'.sent.drop w.sent.length, ∃ n q, c.src = cfg.address ∧ c.msg = .node n ∧
      AnsweredOk cfg w c.req ∧ r.src = cfg.address ∧ r.msg = .query q ∧ q.nameA = n.nameA ∧
      ¬ HoldsRows (w'.repo r.dst).storage n

/-- The `C` of the server in `creates`, its `R` in `handlesRead` and its OK. -/
def createOf (name : Str) (hosts : List Host) : NodeMsg :=
  ⟨name, [⟨[], str "k", str "v"⟩], [], 1, hosts⟩

def queryOf (name : Str) : QueryMsg := ⟨name, 1, false, true, [], 2⟩

def okOf : Envelope :=
  ⟨twoRepositories.address, clientHost 1, .response ⟨storedText, 1⟩, 1⟩

theorem missesRows_of_check {es : List JoinEvent} {name : Str} (hosts : List Host) (host : Host)
    (h : ((run (World.join twoRepositories) (World.launch twoRepositories) es).any fun w =>
      (w.join twoRepositories (handlesRead name)).any fun w' => decide
        (⟨twoRepositories.address, firstRepository, .node (createOf name hosts), 1⟩ ∈ w.sent ∧
          okOf ∈ w.sent ∧ ⟨twoRepositories.address, host, .query (queryOf name), 2⟩ ∈
            w'.sent.drop w.sent.length ∧
          ¬ HoldsRows (w'.repo host).storage (createOf name hosts))) = true) :
    MissesRows twoRepositories es (handlesRead name) := by
  obtain ⟨w, hw, h⟩ := (Option.any_eq_true _ _).mp h
  obtain ⟨w', hw', h⟩ := (Option.any_eq_true _ _).mp h
  obtain ⟨hc, hok, hr, hno⟩ := of_decide_eq_true h
  exact ⟨w, hw, w', hw', _, hc, _, hr, _, _, rfl, rfl,
    ⟨_, hok, rfl, rfl, _, rfl, Or.inl rfl⟩, rfl, rfl, rfl, hno⟩

/-- The second repository joins between the create and the read of a. Without any registration in
between, the empty name selects by the byte behind it, which differs in a create and a read. -/
theorem created_missed :
    MissesRows twoRepositories (joins firstRepository ++
      creates (str "a") [twoRepositories.self, firstRepository] ++ joins secondRepository ++
      [requestsRead (str "a")]) (handlesRead (str "a")) ∧
    MissesRows twoRepositories (joins firstRepository ++ joins secondRepository ++
      creates [] [twoRepositories.self, firstRepository, secondRepository] ++ [requestsRead []])
      (handlesRead []) := by
  constructor
  · exact missesRows_of_check [twoRepositories.self, firstRepository] secondRepository
      (by decide +kernel)
  · exact missesRows_of_check [twoRepositories.self, firstRepository, secondRepository]
      secondRepository (by decide +kernel)

/-- b selects the first repository in both lists. -/
theorem created_reachable_joined : ∃ w w',
    run (World.join twoRepositories) (World.launch twoRepositories) (joins firstRepository ++
      creates (str "b") [twoRepositories.self, firstRepository] ++ joins secondRepository ++
      [requestsRead (str "b")]) = some w ∧
      w.join twoRepositories (handlesRead (str "b")) = some w' ∧
      HoldsRows (w'.repo firstRepository).storage
        (createOf (str "b") [twoRepositories.self, firstRepository]) := by
  set hosts := [twoRepositories.self, firstRepository] with hhosts
  set es := joins firstRepository ++ creates (str "b") hosts ++ joins secondRepository ++
    [requestsRead (str "b")] with hes
  have h : ((run (World.join twoRepositories) (World.launch twoRepositories) es).any fun w =>
      (w.join twoRepositories (handlesRead (str "b"))).any fun w' => decide
        (⟨twoRepositories.address, firstRepository, .node (createOf (str "b") hosts), 1⟩ ∈ w.sent ∧
          okOf ∈ w.sent ∧
          ⟨twoRepositories.address, firstRepository, .query (queryOf (str "b")), 2⟩ ∈
            w'.sent.drop w.sent.length ∧ Place.next.host w.server.repositories (str "b") =
              Place.next.host hosts (str "b"))) = true := by
    decide +kernel
  obtain ⟨w, hw, h⟩ := (Option.any_eq_true _ _).mp h
  obtain ⟨w', hw', h⟩ := (Option.any_eq_true _ _).mp h
  obtain ⟨hc, hok, hr, hentry⟩ := of_decide_eq_true h
  exact ⟨w, w', hw, hw', created_reachable (by decide +kernel) hw hw' hc rfl rfl
    ⟨_, hok, rfl, rfl, _, rfl, Or.inl rfl⟩ hr rfl rfl rfl (by decide) hentry⟩

end DGDB
