import Mathlib
import DGDB.Repository
import DGDB.Widths

/-!
# Agreement of the places that choose a repository

Seven places of the program choose a repository for a name. Five compute with `size_t`, the two for
reverse relations with `int`; four read the first byte of a partly decoded buffer, the others that
of a name. All seven agree exactly for a byte below 128 and where the number of repositories is a
power of two that divides the byte.
-/

namespace DGDB

/-! ## The seven places -/

/-- A place of `runConnection` that chooses a repository. -/
inductive Place
  /-- The server's `C` branch. -/
  | create
  /-- The server's `R` branch. -/
  | query
  /-- The server's `U` branch. -/
  | update
  /-- The server's `D` branch. -/
  | delete
  /-- The next node in the `I` branch. -/
  | next
  /-- The reverse of a relation in the repository's `C` branch. -/
  | reverseCreate
  /-- The reverse of a relation in the repository's `D` branch. -/
  | reverseDelete
  deriving DecidableEq, Repr

namespace Place

/-- The index a place computes from the string it looks at and the number of hosts. -/
def index : Place → Str → ℕ → Result ℤ
  | create, b, size => do indexPlusOne (← charAt b 0) size
  | query, b, size => do indexPlusOne (← charAt b 0) size
  | update, b, size => do indexIncremented (← charAt b 0) size
  | delete, b, size => do indexIncremented (← charAt b 0) size
  | next, b, size => do indexPlusOne (← charAt b 0) size
  | reverseCreate, b, size => do indexOfRelation (← charAt b 0) size
  | reverseDelete, b, size => do indexOfRelation (← charAt b 0) size

/-- The host a place chooses. -/
def host (p : Place) (hosts : List Host) (b : Str) : Result Host := do
  hostAt hosts (← p.index b hosts.length)

/-- `b` is a string that a place looks at when it chooses for `name`: what is left of a buffer whose
name has been decoded, or the name itself. -/
def Reads : Place → Str → Str → Prop
  | create, name, b =>
    ∃ s_buffer d, readNode s_buffer = .ok d ∧ d.fields.nameA = name ∧ d.s_buffer = b
  | query, name, b =>
    ∃ s_buffer d, readQuery s_buffer = .ok d ∧ d.fields.nameA = name ∧ d.s_buffer = b
  | update, name, b =>
    ∃ s_buffer d, readUpdate s_buffer = .ok d ∧ d.fields.nameA = name ∧ d.s_buffer = b
  | delete, name, b =>
    ∃ s_buffer d, readDelete s_buffer = .ok d ∧ d.fields.nameA = name ∧ d.s_buffer = b
  | next, name, b => b = name
  | reverseCreate, name, b => b = name
  | reverseDelete, name, b => b = name

/-- The two places that compute with `int`. -/
def IsReverse (p : Place) : Prop := p = reverseCreate ∨ p = reverseDelete

instance (p : Place) : Decidable p.IsReverse := inferInstanceAs (Decidable (_ ∨ _))

end Place

/-! ## Where the branches use them -/

section Branches

variable {throws : ℕ → Option Str} {db : Process} {from_addr : Host} {s_buffer : Str}

/-- What the four branches of the server do with the host they have chosen. -/
def forwardTo (db : Process) (from_addr : Host) (state : Option QueryState) (msg : Msg)
    (host : Host) : Outcome :=
  pure ({ db.file (toInt db.current_request) ⟨from_addr, state⟩ with
    current_request := db.current_request + 1 }, [⟨host, msg⟩])

theorem accept_place {index : UInt8 → ℕ → Result ℤ} (p : Place)
    (hp : ∀ b size, p.index b size = do index (← charAt b 0) size)
    (h2 : 2 ≤ db.repositories.length) (b : Str) (request_id : ℤ) (state : Option QueryState)
    (msg : Msg) : accept index db from_addr b request_id state msg =
      (p.host db.repositories b >>= forwardTo db from_addr state msg) := by
  unfold accept Place.host
  rw [if_neg (by omega), hp]
  simp only [bind_assoc]
  rfl

section Server

variable (hserver : db.server = true) (hfree : db.cud_blocking = false)
  (h2 : 2 ≤ db.repositories.length)
include hserver h2

include hfree in
theorem nodeBranch_place {d : Decoded NodeMsg} (hd : readNode s_buffer = .ok d) :
    nodeBranch throws db from_addr s_buffer = (Place.create.host db.repositories d.s_buffer >>=
      forwardTo db from_addr none (.node { d.fields with
        request_id := db.current_request, master_repos := db.repositories })) := by
  unfold nodeBranch
  rw [hfree, if_neg (by simp), hd, ok_bind, if_pos hserver]
  exact accept_place _ (fun _ _ => rfl) h2 _ _ _ _

theorem queryBranch_place {d : Decoded QueryMsg} (hd : readQuery s_buffer = .ok d) :
    queryBranch db from_addr s_buffer = (Place.query.host db.repositories d.s_buffer >>=
      forwardTo { db with cud_blocking := true } from_addr (some (QueryState.start d.fields))
        (.query { d.fields with request_id := db.current_request })) := by
  unfold queryBranch
  have hn : decide (db.repositories.length < 2) = false := decide_eq_false (by omega)
  have h2' : 2 ≤ ({ db with cud_blocking := true } : Process).repositories.length := h2
  rw [hd, ok_bind, if_pos hserver, hn]
  exact accept_place _ (fun _ _ => rfl) h2' _ _ _ _

include hfree in
theorem updateBranch_place {d : Decoded UpdateMsg} (hd : readUpdate s_buffer = .ok d) :
    updateBranch db from_addr s_buffer = (Place.update.host db.repositories d.s_buffer >>=
      forwardTo db from_addr none
        (.update { d.fields with request_id := db.current_request })) := by
  unfold updateBranch
  rw [hfree, if_neg (by simp), hd, ok_bind, if_pos hserver]
  exact accept_place _ (fun _ _ => rfl) h2 _ _ _ _

include hfree in
theorem deleteBranch_place {d : Decoded DeleteMsg} (hd : readDelete s_buffer = .ok d) :
    deleteBranch db from_addr s_buffer = (Place.delete.host db.repositories d.s_buffer >>=
      forwardTo db from_addr none (.delete { d.fields with
        request_id := db.current_request, master_repos := db.repositories })) := by
  unfold deleteBranch
  rw [hfree, if_neg (by simp), hd, ok_bind, if_pos hserver]
  exact accept_place _ (fun _ _ => rfl) h2 _ _ _ _

end Server

theorem nextQuery_place (db : Process) (st : QueryState) (next : Str × ℕ) (request_id : ℤ) :
    nextQuery db st next request_id = (do
      let host ← Place.next.host db.repositories next.1
      return ⟨host, .query
        ⟨next.1, toInt next.2, st.leaf, st.attr, st.conditions, request_id⟩⟩) := by
  unfold nextQuery Place.host Place.index
  simp only [bind_assoc]

theorem reverseNode_place (node_name rel : Str) {master_repos : List Host} (h : master_repos ≠ []) :
    reverseNode node_name rel master_repos = (do
      let host ← Place.reverseCreate.host master_repos rel
      return [⟨host, .node ⟨rel, [], [node_name], 0, []⟩⟩]) := by
  unfold reverseNode Place.host Place.index
  rw [if_neg (by simpa using h)]
  simp only [bind_assoc]

theorem reverseDelete_place {m : DeleteMsg} (hobject : m.object = 2) {master_repos : List Host}
    (h : master_repos ≠ []) : reverseDelete m master_repos = (do
      let host ← Place.reverseDelete.host master_repos m.attr_or_rel
      return [⟨host, .delete ⟨m.attr_or_rel, m.object, m.nameA, 0, []⟩⟩]) := by
  unfold reverseDelete Place.host Place.index
  rw [if_pos ⟨hobject, by simpa using h⟩]
  simp only [bind_assoc]

end Branches

/-! ## The two remainders -/

section Remainders

variable {c : UInt8} {size : ℕ}

theorem headD_of_substr {b name : Str} {n : ℤ} (h : substr b 0 n = .ok name) (hne : name ≠ []) :
    b.headD 0 = name.headD 0 := by
  obtain ⟨-, rfl⟩ := substr_ok h
  have h0 : toSizeT 0 = 0 := rfl
  rw [h0, List.drop_zero] at hne ⊢
  cases b with
  | nil => simp at hne
  | cons c b =>
    cases hn : toSizeT n with
    | zero => simp [hn] at hne
    | succ k => rfl

/-- Whatever string a place looks at, it starts with the name. -/
theorem Place.Reads.headD {p : Place} {name b : Str} (h : p.Reads name b) (hne : name ≠ []) :
    b.headD 0 = name.headD 0 := by
  cases p with
  | create =>
    obtain ⟨s_buffer, d, hd, rfl, rfl⟩ := h
    obtain ⟨b, b₁, b₂, b₃, c₁, c₂, -, -, -, -, -, -, -, hsub, -⟩ := readNode_ok hd
    exact headD_of_substr hsub hne
  | query =>
    obtain ⟨s_buffer, d, hd, rfl, rfl⟩ := h
    obtain ⟨b, b₁, b₂, c, c₁, c₂, cnt, -, -, -, -, -, -, -, hsub, -⟩ := readQuery_ok hd
    exact headD_of_substr hsub hne
  | update =>
    obtain ⟨s_buffer, d, hd, rfl, rfl⟩ := h
    obtain ⟨b, b₁, b₂, b₃, b₄, flag, -, -, -, -, -, -, hsub, -⟩ := readUpdate_ok hd
    exact headD_of_substr hsub hne
  | delete =>
    obtain ⟨s_buffer, d, hd, rfl, rfl⟩ := h
    obtain ⟨b, b₁, b₂, b₃, flag, -, -, -, -, -, hsub, -⟩ := readDelete_ok hd
    exact headD_of_substr hsub hne
  | next => rw [h]
  | reverseCreate => rw [h]
  | reverseDelete => rw [h]

/-- A place computes with the first byte only, in one of two ways. -/
theorem Place.index_eq (p : Place) (b : Str) (size : ℕ) : p.index b size =
    if p.IsReverse then indexOfRelation (b.headD 0) size else indexPlusOne (b.headD 0) size := by
  cases p <;> simp [Place.index, Place.IsReverse, charAt_zero_ok, indexIncremented_eq]

theorem Place.Reads.index {p : Place} {name b : Str} (h : p.Reads name b) (hne : name ≠ [])
    {r : ℤ} (hr : indexPlusOne (name.headD 0) size = .ok r)
    (hr' : indexOfRelation (name.headD 0) size = .ok r) : p.index b size = .ok r := by
  rw [Place.index_eq, h.headD hne]
  split_ifs
  · exact hr'
  · exact hr

theorem signedChar_negative (hc : 128 ≤ c.toNat) : signedChar c = -((256 - c.toNat : ℕ) : ℤ) := by
  have hlt : c.toNat < 256 := c.toNat_lt
  unfold signedChar
  rw [Int.bmod_def, Int.emod_eq_of_lt (by omega) (by omega), if_neg (by omega)]
  omega

theorem indexPlusOne_negative (hc : 128 ≤ c.toNat) (h2 : 2 ≤ size) :
    indexPlusOne c size = .ok (((2 ^ 64 - (256 - c.toNat)) % (size - 1) + 1 : ℕ) : ℤ) := by
  have hlt : c.toNat < 256 := c.toNat_lt
  have hsize : toSizeT (signedChar c) = 2 ^ 64 - (256 - c.toNat) := by
    rw [signedChar_negative hc]
    unfold toSizeT
    omega
  unfold indexPlusOne
  rw [if_neg (by omega), hsize]
  rfl

theorem indexOfRelation_negative (hc : 128 ≤ c.toNat) (h2 : 2 ≤ size) :
    indexOfRelation c size = .ok (1 - (((256 - c.toNat) % (size - 1) : ℕ) : ℤ)) := by
  unfold indexOfRelation
  rw [if_neg (by omega), signedChar_negative hc, Int.neg_tmod,
    show ((size : ℤ) - 1) = ((size - 1 : ℕ) : ℤ) by omega, ← Int.ofNat_tmod, neg_add_eq_sub]
  rfl

theorem two_pow_dvd {k a n : ℕ} (ha : 0 < a) (hlt : a < 256) (h : 2 ^ k ∣ a) (hn : 8 ≤ n) :
    2 ^ k ∣ 2 ^ n := by
  have hle := Nat.le_of_dvd ha h
  have hk : k < 8 := by
    refine (Nat.pow_lt_pow_iff_right (show 1 < 2 by omega)).mp ?_
    omega
  exact pow_dvd_pow 2 (by omega)

/-- The first byte is ASCII, or the number of repositories is a power of two that divides it. -/
def SafeByte (c : UInt8) (size : ℕ) : Prop :=
  c.toNat < 128 ∨ ∃ k, size - 1 = 2 ^ k ∧ 2 ^ k ∣ c.toNat

theorem indexes_eq_iff (h2 : 2 ≤ size) :
    (∃ r : ℤ, indexPlusOne c size = .ok r ∧ indexOfRelation c size = .ok r) ↔ SafeByte c size := by
  by_cases hc : c.toNat < 128
  · refine iff_of_true ?_ (Or.inl hc)
    have hname : AsciiName [c] := ⟨List.cons_ne_nil _ _, hc⟩
    exact ⟨_, indexPlusOne_ascii hname h2, indexOfRelation_ascii hname h2⟩
  · have hlt : c.toNat < 256 := c.toNat_lt
    set m := size - 1 with hm
    have hpos : 0 < m := by omega
    rw [indexPlusOne_negative (not_lt.mp hc) h2, indexOfRelation_negative (not_lt.mp hc) h2]
    constructor
    · rintro ⟨r, hr, hr'⟩
      injection hr with hr
      injection hr' with hr'
      -- one remainder counts up from 1 and the other down, so they only meet where both are zero
      have hzero : (2 ^ 64 - (256 - c.toNat)) % m = 0 ∧ (256 - c.toNat) % m = 0 := by
        generalize (2 ^ 64 - (256 - c.toNat)) % m = x at hr ⊢
        generalize (256 - c.toNat) % m = y at hr' ⊢
        omega
      have hadd : 2 ^ 64 - (256 - c.toNat) + (256 - c.toNat) = 2 ^ 64 := by omega
      have hdvd : m ∣ 2 ^ 64 := by
        rw [← hadd]
        exact Nat.dvd_add (Nat.dvd_of_mod_eq_zero hzero.1) (Nat.dvd_of_mod_eq_zero hzero.2)
      obtain ⟨k, -, hk⟩ := (Nat.dvd_prime_pow Nat.prime_two).mp hdvd
      refine Or.inr ⟨k, hk, ?_⟩
      have hrest : 2 ^ k ∣ 256 - c.toNat := hk ▸ Nat.dvd_of_mod_eq_zero hzero.2
      have hwhole : 2 ^ k ∣ 2 ^ 8 := two_pow_dvd (by omega) (by omega) hrest le_rfl
      have hc' : 2 ^ 8 - (256 - c.toNat) = c.toNat := by omega
      rw [← hc']
      exact Nat.dvd_sub hwhole hrest
    · rintro (h | ⟨k, hk, hdvd⟩)
      · exact absurd h hc
      · have hwhole : 2 ^ k ∣ 2 ^ 8 := two_pow_dvd (by omega) hlt hdvd le_rfl
        have hrest : 2 ^ k ∣ 256 - c.toNat := Nat.dvd_sub hwhole hdvd
        have hsize : 2 ^ k ∣ 2 ^ 64 - (256 - c.toNat) :=
          Nat.dvd_sub (two_pow_dvd (by omega) hlt hdvd (by omega)) hrest
        refine ⟨1, ?_, ?_⟩
        · rw [hk, Nat.mod_eq_zero_of_dvd hsize]
          rfl
        · rw [hk, Nat.mod_eq_zero_of_dvd hrest]
          rfl

end Remainders

/-! ## Agreement -/

/-- All seven places choose the same index for `name`, one of a repository. -/
def RoutingAgrees (name : Str) (size : ℕ) : Prop :=
  ∃ r : ℤ, 1 ≤ r ∧ r ≤ size - 1 ∧ ∀ (p : Place) (b : Str), p.Reads name b → p.index b size = .ok r

theorem indexPlusOne_range {c : UInt8} {size : ℕ} {r : ℤ} (h : indexPlusOne c size = .ok r) :
    1 ≤ r ∧ r ≤ size - 1 := by
  unfold indexPlusOne at h
  split_ifs at h with hsize
  injection h with h
  have := Nat.mod_lt (toSizeT (signedChar c)) (Nat.pos_of_ne_zero hsize)
  omega

/-- **Routing agreement.** All seven places choose the same index for a name, and one between 1 and
the number of repositories, exactly when its first byte is below 128 or the number of repositories
is a power of two that divides the byte. -/
theorem routing_agrees_iff {name : Str} (hne : name ≠ []) {size : ℕ} (h2 : 2 ≤ size) :
    RoutingAgrees name size ↔ SafeByte (name.headD 0) size := by
  rw [← indexes_eq_iff h2]
  constructor
  · rintro ⟨r, -, -, hall⟩
    have hnext := hall .next name rfl
    have hreverse := hall .reverseCreate name rfl
    rw [Place.index_eq] at hnext hreverse
    exact ⟨r, hnext, hreverse⟩
  · rintro ⟨r, hr, hr'⟩
    obtain ⟨hlow, hhigh⟩ := indexPlusOne_range hr
    exact ⟨r, hlow, hhigh, fun p b hreads => hreads.index hne hr hr'⟩

section Branches

variable {name : Str} {hosts : List Host} {host : Host}

/-- The seven branches send what they have for `name` to `host`. -/
structure BranchesChoose (name : Str) (hosts : List Host) (host : Host) : Prop where
  create : ∀ {throws : ℕ → Option Str} {db : Process} {from_addr : Host} {s_buffer : Str}
    {d : Decoded NodeMsg}, db.server = true → db.cud_blocking = false → db.repositories = hosts →
    readNode s_buffer = .ok d → d.fields.nameA = name →
    nodeBranch throws db from_addr s_buffer = forwardTo db from_addr none
      (.node { d.fields with request_id := db.current_request, master_repos := hosts }) host
  query : ∀ {db : Process} {from_addr : Host} {s_buffer : Str} {d : Decoded QueryMsg},
    db.server = true → db.repositories = hosts → readQuery s_buffer = .ok d →
    d.fields.nameA = name →
    queryBranch db from_addr s_buffer = forwardTo { db with cud_blocking := true } from_addr
      (some (QueryState.start d.fields))
      (.query { d.fields with request_id := db.current_request }) host
  update : ∀ {db : Process} {from_addr : Host} {s_buffer : Str} {d : Decoded UpdateMsg},
    db.server = true → db.cud_blocking = false → db.repositories = hosts →
    readUpdate s_buffer = .ok d → d.fields.nameA = name →
    updateBranch db from_addr s_buffer = forwardTo db from_addr none
      (.update { d.fields with request_id := db.current_request }) host
  delete : ∀ {db : Process} {from_addr : Host} {s_buffer : Str} {d : Decoded DeleteMsg},
    db.server = true → db.cud_blocking = false → db.repositories = hosts →
    readDelete s_buffer = .ok d → d.fields.nameA = name →
    deleteBranch db from_addr s_buffer = forwardTo db from_addr none
      (.delete { d.fields with request_id := db.current_request, master_repos := hosts }) host
  next : ∀ {db : Process} (st : QueryState) (depth : ℕ) (request_id : ℤ), db.repositories = hosts →
    nextQuery db st (name, depth) request_id =
      .ok ⟨host, .query ⟨name, toInt depth, st.leaf, st.attr, st.conditions, request_id⟩⟩
  reverseCreate : ∀ node_name : Str, reverseNode node_name name hosts =
    .ok [⟨host, .node ⟨name, [], [node_name], 0, []⟩⟩]
  reverseDelete : ∀ {m : DeleteMsg}, m.object = 2 → m.attr_or_rel = name →
    DGDB.reverseDelete m hosts = .ok [⟨host, .delete ⟨name, m.object, m.nameA, 0, []⟩⟩]

theorem branches_choose (h2 : 2 ≤ hosts.length)
    (hplaces : ∀ (p : Place) (b : Str), p.Reads name b → p.host hosts b = .ok host) :
    BranchesChoose name hosts host where
  create := by
    intro throws db from_addr s_buffer d hserver hfree hhosts hd hname
    subst hhosts
    rw [nodeBranch_place hserver hfree h2 hd, hplaces .create _ ⟨s_buffer, d, hd, hname, rfl⟩,
      ok_bind]
  query := by
    intro db from_addr s_buffer d hserver hhosts hd hname
    subst hhosts
    rw [queryBranch_place hserver h2 hd, hplaces .query _ ⟨s_buffer, d, hd, hname, rfl⟩, ok_bind]
  update := by
    intro db from_addr s_buffer d hserver hfree hhosts hd hname
    subst hhosts
    rw [updateBranch_place hserver hfree h2 hd, hplaces .update _ ⟨s_buffer, d, hd, hname, rfl⟩,
      ok_bind]
  delete := by
    intro db from_addr s_buffer d hserver hfree hhosts hd hname
    subst hhosts
    rw [deleteBranch_place hserver hfree h2 hd, hplaces .delete _ ⟨s_buffer, d, hd, hname, rfl⟩,
      ok_bind]
  next := by
    intro db st depth request_id hhosts
    subst hhosts
    rw [nextQuery_place, hplaces .next name rfl, ok_bind]
    rfl
  reverseCreate := by
    intro node_name
    have hne : hosts ≠ [] := List.ne_nil_of_length_pos (by omega)
    rw [reverseNode_place _ _ hne, hplaces .reverseCreate name rfl, ok_bind]
    rfl
  reverseDelete := by
    intro m hobject hname
    subst hname
    have hne : hosts ≠ [] := List.ne_nil_of_length_pos (by omega)
    rw [reverseDelete_place hobject hne, hplaces .reverseDelete m.attr_or_rel rfl, ok_bind]
    rfl

/-- **Agreement of the branches.** In a host list without repetitions, all seven branches send what
they have for a name to the same registered repository exactly where their indices agree. -/
theorem branches_agree_iff (hne : name ≠ []) (h2 : 2 ≤ hosts.length) (hnodup : hosts.Nodup) :
    (∃ host ∈ hosts.tail, BranchesChoose name hosts host) ↔
      SafeByte (name.headD 0) hosts.length := by
  rw [← indexes_eq_iff h2]
  constructor
  · rintro ⟨host, -, h⟩
    -- the next node of a query and the reverse of a relation
    obtain ⟨db, hdb⟩ : ∃ db : Process, db.repositories = hosts :=
      ⟨⟨true, false, hosts, false, 1, fun _ => none, Storage.empty⟩, rfl⟩
    have hnext := h.next (QueryState.start ⟨name, 0, false, false, [], 0⟩) 0 0 hdb
    rw [nextQuery_place, hdb] at hnext
    obtain ⟨host₁, hhost₁, hnext⟩ := bind_eq_ok.mp hnext
    cases hnext
    have hreverse := h.reverseCreate []
    rw [reverseNode_place _ _ (List.ne_nil_of_length_pos (by omega))] at hreverse
    obtain ⟨host₂, hhost₂, hreverse⟩ := bind_eq_ok.mp hreverse
    cases hreverse
    obtain ⟨r₁, hr₁, hget₁⟩ := bind_eq_ok.mp hhost₁
    obtain ⟨r₂, hr₂, hget₂⟩ := bind_eq_ok.mp hhost₂
    rw [Place.index_eq, if_neg (by decide)] at hr₁
    rw [Place.index_eq, if_pos (by decide)] at hr₂
    obtain ⟨h0₁, hget₁⟩ := hostAt_eq_ok.mp hget₁
    obtain ⟨h0₂, hget₂⟩ := hostAt_eq_ok.mp hget₂
    have hlt : r₁.toNat < hosts.length := (List.getElem?_eq_some_iff.mp hget₁).1
    have heq : r₁.toNat = r₂.toNat := (List.getElem?_inj hlt hnodup).mp (hget₁.trans hget₂.symm)
    exact ⟨r₁, hr₁, by rwa [show r₁ = r₂ by omega]⟩
  · rintro ⟨r, hr, hr'⟩
    obtain ⟨hlow, hhigh⟩ := indexPlusOne_range hr
    obtain ⟨k, rfl⟩ : ∃ k : ℕ, r = ((k + 1 : ℕ) : ℤ) := ⟨(r - 1).toNat, by omega⟩
    have hlt : k + 1 < hosts.length := by omega
    have hget : hosts[k + 1]? = some hosts[k + 1] := List.getElem?_eq_getElem hlt
    have hhost : hostAt hosts ((k + 1 : ℕ) : ℤ) = .ok hosts[k + 1] :=
      hostAt_eq_ok.mpr ⟨by omega, by rwa [Int.toNat_natCast]⟩
    refine ⟨hosts[k + 1], ?_, branches_choose h2 fun p b hreads => ?_⟩
    · refine List.mem_of_getElem? (i := k) ?_
      rwa [List.getElem?_tail]
    · unfold Place.host
      rw [hreads.index hne hr hr', ok_bind, hhost]

end Branches

/-- Two repositories, and a name of the byte 255: the server chooses index 2, and index 0, which is
the server itself, is chosen for the reverse of a relation. -/
theorem routing_disagrees : ¬ ∀ (name : Str) (size : ℕ), name ≠ [] → 2 ≤ size →
    RoutingAgrees name size := by
  intro h
  obtain ⟨r, -, -, hall⟩ := h [255] 3 (by decide) (by decide)
  have hnext : Place.next.index [255] 3 = .ok 2 := by decide +kernel
  have hreverse : Place.reverseCreate.index [255] 3 = .ok 0 := by decide +kernel
  rw [hall .next [255] rfl] at hnext
  rw [hall .reverseCreate [255] rfl] at hreverse
  injection hnext with hnext
  injection hreverse with hreverse
  omega

/-- With four repositories the byte 252 is a safe one. -/
theorem routing_agrees_four : RoutingAgrees [252] 5 :=
  (routing_agrees_iff (by decide) (by decide)).mpr (Or.inr ⟨2, by decide, by decide⟩)

end DGDB
