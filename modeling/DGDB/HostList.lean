import Mathlib
import DGDB.Identity

/-!
# The host list of a forwarded write

The server's list of repositories grows with every registration, and a forwarded `C` or `D` carries
it behind the request id, with one digit for the number of hosts. A repository decodes the server's
list exactly if at most eight repositories have registered and the id has three digits: a further
digit of the id is taken for the number of hosts.
-/

namespace DGDB

open Decimal EventSystem

/-! ## Addresses -/

/-- An IPv4 address as `inet_ntop` prints it. -/
def dottedQuad (a b c d : UInt8) : Str :=
  decimal a.toNat ++ ch '.' :: (decimal b.toNat ++ ch '.' :: (decimal c.toNat ++
    ch '.' :: decimal d.toNat))

/-- A host whose address is printed by `inet_ntop`. -/
def Host.IsAddress (h : Host) : Prop := ∃ a b c d : UInt8, h.ip = dottedQuad a b c d

theorem mem_dottedQuad {a b c d x : UInt8} (h : x ∈ dottedQuad a b c d) :
    isDigit x = true ∨ x = ch '.' := by
  simp only [dottedQuad, List.mem_append, List.mem_cons] at h
  rcases h with h | h | h | h | h | h | h
  · exact Or.inl (isDigit_of_mem_decimal h)
  · exact Or.inr h
  · exact Or.inl (isDigit_of_mem_decimal h)
  · exact Or.inr h
  · exact Or.inl (isDigit_of_mem_decimal h)
  · exact Or.inr h
  · exact Or.inl (isDigit_of_mem_decimal h)

theorem length_decimal_toNat (a : UInt8) : (decimal a.toNat).length ≤ 3 :=
  length_decimal_le (by norm_num) (lt_trans a.toNat_lt (by norm_num))

namespace Host.IsAddress

variable {h : Host}

theorem short (ha : h.IsAddress) : ShortHost h := by
  obtain ⟨a, b, c, d, hip⟩ := ha
  constructor
  · have hport : (decimal h.port.toNat).length ≤ 5 :=
      length_decimal_le (by norm_num) (lt_trans h.port.toNat_lt (by norm_num))
    have h₁ := length_decimal_toNat a
    have h₂ := length_decimal_toNat b
    have h₃ := length_decimal_toNat c
    have h₄ := length_decimal_toNat d
    simp only [Host.text, hip, dottedQuad, List.length_append, List.length_cons, List.length_nil]
    omega
  · rw [hip]
    intro hmem
    rcases mem_dottedQuad hmem with hdigit | hdot
    · exact absurd hdigit (by decide)
    · exact absurd hdot (by decide)

theorem dot_mem (ha : h.IsAddress) : ch '.' ∈ h.ip := by
  obtain ⟨a, b, c, d, hip⟩ := ha
  simp [hip, dottedQuad]

end Host.IsAddress

/-! ## Registrations -/

/-- The senders of the registrations among the strings received. -/
def registered (es : List Received) : List Host :=
  (es.filter fun e => e.s_buffer.headD 0 = ch 'E').map Received.from_addr

theorem registered_cons (e : Received) (es : List Received) : registered (e :: es) =
    (if e.s_buffer.headD 0 = ch 'E' then [e.from_addr] else []) ++ registered es := by
  unfold registered
  rw [List.filter_cons]
  by_cases hhead : e.s_buffer.headD 0 = ch 'E'
  · rw [if_pos hhead, if_pos (by simpa using hhead)]
    rfl
  · rw [if_neg hhead, if_neg (by simpa using hhead)]
    rfl

section Registrations

variable {db db' : Process} {from_addr : Host} {s_buffer : Str} {out : List Send}

theorem ServerStep.repositories (h : ServerStep db from_addr s_buffer db' out) :
    db'.repositories =
      db.repositories ++ if s_buffer.headD 0 = ch 'E' then [from_addr] else [] := by
  have hkeep : ∀ {c : UInt8}, s_buffer.headD 0 = c → c ≠ ch 'E' →
      (if s_buffer.headD 0 = ch 'E' then [from_addr] else []) = [] := by
    intro c hc hne
    rw [if_neg (hc ▸ hne)]
  have hwrite : WriteHead s_buffer →
      (if s_buffer.headD 0 = ch 'E' then [from_addr] else []) = [] := by
    rintro (hhead | hhead | hhead)
    · exact hkeep hhead (by decide)
    · exact hkeep hhead (by decide)
    · exact hkeep hhead (by decide)
  cases h with
  | response hhead _ => rw [hkeep hhead (by decide), List.append_nil]; rfl
  | info hhead _ hstep =>
    rw [hkeep hhead (by decide), List.append_nil]
    cases hstep <;> rfl
  | busy hhead _ => rw [hwrite hhead, List.append_nil]
  | refuseWrite hhead _ _ => rw [hwrite hhead, List.append_nil]
  | write hhead _ _ _ _ => rw [hwrite hhead, List.append_nil]; rfl
  | refuseQuery hhead _ => rw [hkeep hhead (by decide), List.append_nil]
  | query hhead _ _ _ => rw [hkeep hhead (by decide), List.append_nil]; rfl
  | register hhead => rw [if_pos hhead]; rfl
  | ignore hhead =>
    rw [if_neg (fun heq => hhead (by rw [heq]; decide)), List.append_nil]

theorem repositories_of_run {es : List Received} :
    ∀ {db db' : Process}, db.server = true → run Process.receive db es = some db' →
      db'.server = true ∧ db'.repositories = db.repositories ++ registered es := by
  induction es with
  | nil =>
    intro db db' hserver hrun
    cases hrun
    exact ⟨hserver, by simp [registered]⟩
  | cons e es ih =>
    intro db db' hserver hrun
    obtain ⟨db₁, hstep, hrun⟩ := run_cons.mp hrun
    unfold Process.receive at hstep
    split at hstep
    · rename_i db₂ out hok
      cases hstep
      have hserverStep := serverStep_of_runConnection hserver hok
      obtain ⟨hserver', hrepositories⟩ := ih (hserverStep.server.trans hserver) hrun
      refine ⟨hserver', ?_⟩
      rw [hrepositories, hserverStep.repositories, List.append_assoc, registered_cons]
    · cases hstep

end Registrations

/-! ## Reading a list behind a longer id -/

section Digits

variable {p r t : Str} {s w : ℤ}

theorem takeNumber_digits (hs : s = p.length) (hw : w = t.length) (hpre : p.length < 2 ^ 32)
    (hne : t ≠ []) (ht : t.length ≤ 3) (hd : ∀ c ∈ t, isDigit c = true) :
    takeNumber w s (p ++ (t ++ r)) = .ok ((value t : ℤ), p ++ r) := by
  have hbound : (p ++ t).length < 2 ^ 64 := by
    rw [List.length_append]
    omega
  have hvalue : value t < 2 ^ 31 :=
    lt_of_lt_of_le (value_lt hd)
      ((Nat.pow_le_pow_right (by norm_num) ht).trans (by norm_num))
  unfold takeNumber
  rw [substr_append hs hw hbound, ok_bind, stoi_digits hne hd hvalue, ok_bind,
    erase_append hs hw hbound, ok_bind]
  rfl

/-- A text that begins with itself behind some digits has no other characters. -/
theorem isDigit_of_prefix_append {extra x : Str} (hne : extra ≠ [])
    (hd : ∀ c ∈ extra, isDigit c = true) (h : x <+: extra ++ x) : ∀ c ∈ x, isDigit c = true := by
  induction hn : x.length using Nat.strong_induction_on generalizing x with
  | _ n ih =>
    subst hn
    rcases List.prefix_or_prefix_of_prefix h (List.prefix_append extra x) with hshort | ⟨y, rfl⟩
    · exact fun c hc => hd c (hshort.subset hc)
    · have hpos := List.length_pos_iff.mpr hne
      have hy : y <+: extra ++ y := (List.prefix_append_right_inj extra).mp h
      have hdigits := ih y.length (by rw [List.length_append]; omega) hy rfl
      intro c hc
      rcases List.mem_append.mp hc with hc | hc
      · exact hd c hc
      · exact hdigits c hc

end Digits

section Hosts

variable {p : Str} {s : ℤ} {hosts : List Host} {extra : Str}

/-- A digit is a number of hosts below ten. -/
theorem length_of_takeHosts {b b' : Str} (h : takeHosts s b = .ok (hosts, b')) :
    hosts.length ≤ 9 := by
  unfold takeHosts at h
  obtain ⟨⟨repo_count, b₁⟩, hcount, h⟩ := bind_eq_ok.mp h
  unfold takeNumber at hcount
  obtain ⟨t, ht, hcount⟩ := bind_eq_ok.mp hcount
  obtain ⟨n, hn, hcount⟩ := bind_eq_ok.mp hcount
  obtain ⟨b₂, -, hcount⟩ := bind_eq_ok.mp hcount
  cases hcount
  have htlen := length_of_substr_ok ht
  have hcount : 0 ≤ repo_count ∧ repo_count ≤ 9 := by
    match t, htlen with
    | [], _ => rw [stoi_nil] at hn; cases hn
    | [c], _ => exact stoiChar_range hn
    | _ :: _ :: _, hlen =>
      have h1 : toSizeT 1 = 1 := rfl
      simp only [h1, List.length_cons] at hlen
      omega
  unfold takeMany at h
  have hlen := length_of_takeTurns h
  rw [if_neg (by omega)] at hlen
  omega

theorem stringToHost_ne {h : Host} (ha : h.IsAddress) (hne : extra ≠ [])
    (hd : ∀ c ∈ extra, isDigit c = true) (r : Str) (k : ℕ) :
    stringToHost ((extra ++ (h.text ++ r)).take k) ≠ .ok h := by
  intro hok
  unfold stringToHost at hok
  simp only at hok
  obtain ⟨ip, hip, hok⟩ := bind_eq_ok.mp hok
  obtain ⟨t, -, hok⟩ := bind_eq_ok.mp hok
  obtain ⟨port, -, hok⟩ := bind_eq_ok.mp hok
  have hipeq : ip = h.ip := by
    injection hok with hok
    rw [← hok]
  -- the ip read is the beginning of a text that starts with the digits
  have hread : h.ip <+: extra ++ (h.text ++ r) := by
    obtain ⟨-, hsub⟩ := substr_ok hip
    rw [← hipeq, hsub, show toSizeT 0 = 0 from rfl, List.drop_zero]
    exact (List.take_prefix _ _).trans (List.take_prefix _ _)
  have hself : extra ++ h.ip <+: extra ++ (h.text ++ r) := by
    rw [List.prefix_append_right_inj, Host.text, List.append_assoc, List.append_assoc]
    exact List.prefix_append _ _
  have hdigits := isDigit_of_prefix_append hne hd
    (List.prefix_of_prefix_length_le hread hself (by simp))
  exact absurd (hdigits _ ha.dot_mem) (by decide)

theorem takeHost_ne {h : Host} (ha : h.IsAddress) (hs : s = p.length) (hpre : p.length < 2 ^ 32)
    {digits : Str} (hlen : 3 ≤ digits.length) (hd : ∀ c ∈ digits, isDigit c = true) (r b' : Str) :
    takeHost s (p ++ (digits ++ (h.text ++ r))) ≠ .ok (h, b') := by
  intro hok
  have hfirst : (digits.take 2).length = 2 := by
    rw [List.length_take]
    omega
  have hrest : digits.drop 2 ≠ [] := by
    intro hnil
    have := congrArg List.length hnil
    simp only [List.length_drop, List.length_nil] at this
    omega
  have hnumber := takeNumber_digits (t := digits.take 2) (r := digits.drop 2 ++ (h.text ++ r))
    (w := 2) hs (by rw [hfirst]; rfl) hpre (by intro hnil; simp [hnil] at hfirst) (by omega)
    fun c hc => hd c (List.mem_of_mem_take hc)
  rw [← List.append_assoc (digits.take 2), List.take_append_drop] at hnumber
  unfold takeHost takeSized at hok
  rw [hnumber, ok_bind] at hok
  simp only [bind_assoc] at hok
  rw [substr_behind hs (hpre.trans (by norm_num)), ok_bind] at hok
  obtain ⟨b₁, -, hok⟩ := bind_eq_ok.mp hok
  simp only [pure_eq_ok, ok_bind] at hok
  obtain ⟨h', hh', hok⟩ := bind_eq_ok.mp hok
  cases hok
  exact stringToHost_ne ha hrest (fun c hc => hd c (List.mem_of_mem_drop hc)) r _ hh'

/-- **A host list is read back** exactly if its length is one digit and nothing stands before it. -/
theorem takeHosts_iff (hs : s = p.length) (hpre : p.length < 2 ^ 32) (hne : hosts ≠ [])
    (ha : ∀ h ∈ hosts, h.IsAddress) (hd : ∀ c ∈ extra, isDigit c = true) :
    (∃ b', takeHosts s (p ++ (extra ++ hostListText hosts)) = .ok (hosts, b')) ↔
      hosts.length ≤ 9 ∧ extra = [] := by
  constructor
  · rintro ⟨b', hok⟩
    refine ⟨length_of_takeHosts hok, ?_⟩
    cases extra with
    | nil => rfl
    | cons c extra =>
      exfalso
      obtain ⟨h, rest, rfl⟩ := List.exists_cons_of_ne_nil hne
      -- the first further digit is taken for the number of hosts
      unfold takeHosts at hok
      rw [List.cons_append, ← List.singleton_append,
        takeNumber_digits (t := [c]) (w := 1) hs rfl hpre (List.cons_ne_nil _ _) (by simp)
        (fun d hd' => hd d (by simp_all)), ok_bind] at hok
      simp only [takeMany] at hok
      have hlen := length_of_takeTurns hok
      rw [if_neg (by omega), Int.toNat_natCast] at hok
      obtain ⟨k, hk⟩ : ∃ k, value [c] = k + 1 := by
        rw [if_neg (by omega), Int.toNat_natCast, List.length_cons] at hlen
        exact ⟨_, hlen.symm⟩
      rw [hk] at hok
      unfold takeTurns at hok
      obtain ⟨⟨h', b₁⟩, hfirst, hok⟩ := bind_eq_ok.mp hok
      obtain ⟨⟨hs', b₂⟩, -, hok⟩ := bind_eq_ok.mp hok
      cases hok
      -- and what follows it for the length of the first entry
      have htwo : 2 ≤ (padded 2 h.text.length).length := by
        simp only [padded, List.length_append, List.length_replicate]
        omega
      have hone : 1 ≤ (padded 1 (h :: rest).length).length := by
        simp only [padded, List.length_append, List.length_replicate]
        omega
      have htext : extra ++ hostListText (h :: rest) =
          (extra ++ (padded 1 (h :: rest).length ++ padded 2 h.text.length)) ++
            (h.text ++ rest.flatMap hostText) := by
        simp only [hostListText, List.flatMap_cons, hostText, List.append_assoc]
      rw [htext] at hfirst
      refine takeHost_ne (ha h List.mem_cons_self) hs hpre ?_ ?_ _ _ hfirst
      · simp only [List.length_append]
        omega
      · intro d hd'
        rcases List.mem_append.mp hd' with hd' | hd'
        · exact hd d (List.mem_cons_of_mem _ hd')
        · rcases List.mem_append.mp hd' with hd' | hd'
          · exact isDigit_of_mem_padded hd'
          · exact isDigit_of_mem_padded hd'
  · rintro ⟨hlen, rfl⟩
    exact ⟨p, takeHosts_text hs hpre hlen fun h hh => (ha h hh).short⟩

end Hosts

/-! ## Forwarded writes -/

/-- The host list that a repository decodes from a `C` or a `D`. -/
def decodedHosts (s_buffer : Str) : Result (List Host) :=
  if s_buffer.headD 0 = ch 'C' then do
    let d ← readNode s_buffer
    return (← takeHosts d.s d.s_buffer).1
  else do
    let d ← readDelete s_buffer
    return (← takeHosts d.s d.s_buffer).1

/-- A message with a host list. -/
def Msg.HasHosts : Msg → Prop
  | .node _ => True
  | .delete _ => True
  | _ => False

section Forwarded

variable {hosts : List Host} {n : ℕ}

theorem takeNumber_id {p r : Str} {s : ℤ} (hs : s = p.length) (hpre : p.length < 2 ^ 32)
    (hn : n < 2 ^ 64) : ∃ t extra : Str, (extra = [] ↔ n ≤ 999) ∧
      (∀ c ∈ extra, isDigit c = true) ∧
      takeNumber 3 s (p ++ (idText n ++ r)) = .ok ((value t : ℤ), p ++ (extra ++ r)) := by
  obtain ⟨t, extra, hsplit, hlen, ht, hextra, hiff⟩ := padded_split n
  refine ⟨t, extra, hiff, hextra, ?_⟩
  have hid : idText n = t ++ extra := by
    rw [idText, toSizeT_natCast hn, hsplit]
  rw [hid, List.append_assoc]
  refine takeNumber_digits hs (by rw [hlen]; rfl) hpre ?_ (by omega) ht
  intro hnil
  simp [hnil] at hlen

theorem takeHosts_fst {s : ℤ} {b : Str} :
    (do return (← takeHosts s b).1 : Result (List Host)) = .ok hosts ↔
      ∃ b', takeHosts s b = .ok (hosts, b') := by
  rw [bind_eq_ok]
  constructor
  · rintro ⟨⟨hosts', b'⟩, hok, h⟩
    cases h
    exact ⟨b', hok⟩
  · rintro ⟨b', hok⟩
    exact ⟨(hosts, b'), hok, rfl⟩

/-- The host list of a forwarded write is read back exactly if its length is one digit and the id
has three. -/
theorem decodedHosts_iff {msg : Msg} (hfit : msg.TextsFit) (hmsg : msg.IsForwarded hosts)
    (hkind : msg.HasHosts) (hid : msg.request_id = n) (hn : n < 2 ^ 64) (hne : hosts ≠ [])
    (ha : ∀ h ∈ hosts, h.IsAddress) :
    decodedHosts msg.buffer = .ok hosts ↔ hosts.length ≤ 9 ∧ n ≤ 999 := by
  cases msg with
  | node m =>
    have hrepos : m.master_repos = hosts := hmsg
    have hid' : m.request_id = n := hid
    have hname : m.nameA.length ≤ 999 := hfit.name
    have hs : (m.nameA.length : ℤ) + 2 = (listHeader m.nameA m.relations m.attributes).length := by
      rw [length_listHeader]
      rfl
    have hpre : (listHeader m.nameA m.relations m.attributes).length < 2 ^ 32 := by
      rw [length_listHeader]
      omega
    obtain ⟨t, extra, hiff, hextra, htake⟩ := takeNumber_id (r := hostListText hosts) hs hpre hn
    rw [← hid', ← hrepos] at htake
    have hread := readNode_tail (m := m) hfit.name hfit.relations_length hfit.relations
      hfit.attributes_length hfit.attributes htake
    show (do let d ← readNode (parseNewNode m); return (← takeHosts d.s d.s_buffer).1) = _ ↔ _
    rw [hread, ok_bind, takeHosts_fst, hrepos, takeHosts_iff hs hpre hne ha hextra, hiff]
  | delete m =>
    have hrepos : m.master_repos = hosts := hmsg
    have hid' : m.request_id = n := hid
    have hname : m.nameA.length ≤ 999 := hfit.name
    have hpre : m.nameA.length < 2 ^ 32 := by omega
    obtain ⟨t, extra, hiff, hextra, htake⟩ := takeNumber_id (r := hostListText hosts) rfl hpre hn
    rw [← hid', ← hrepos] at htake
    have hread := readDelete_tail (m := m) hfit.name hfit.object hfit.attr_or_rel htake
    show (do let d ← readDelete (parseNewDelete m); return (← takeHosts d.s d.s_buffer).1) = _ ↔ _
    rw [hread, ok_bind, takeHosts_fst, hrepos, takeHosts_iff rfl hpre hne ha hextra, hiff]
  | _ => exact hkind.elim

end Forwarded

/-! ## The server's list -/

/-- The server as `setServer` leaves it: its own entry is the only one in the list. -/
def Process.launched (self : Host) : Process :=
  ⟨true, false, [self], false, 1, fun _ => none, Storage.empty⟩

theorem ServerStep.hosts {db db' : Process} {from_addr host : Host} {s_buffer : Str}
    {out : List Send} {msg : Msg} (h : ServerStep db from_addr s_buffer db' out)
    (hmem : ⟨host, msg⟩ ∈ out) (hkind : msg.HasHosts) :
    2 ≤ db.repositories.length ∧ IsWrite db s_buffer msg := by
  cases h with
  | @write host' msg' hhead hfree hsome hhost hmsg =>
    cases List.mem_singleton.mp hmem
    exact ⟨hsome, hmsg⟩
  | response _ _ =>
    cases List.mem_singleton.mp hmem
    exact hkind.elim
  | info _ _ hstep =>
    cases hstep <;> (cases List.mem_singleton.mp hmem; exact hkind.elim)
  | register _ => simp at hmem
  | ignore _ => simp at hmem
  | _ =>
    cases List.mem_singleton.mp hmem
    exact hkind.elim

/-- **Host list propagation.** Whatever the server has received, the host list that a repository
decodes from a `C` or a `D` forwarded then is the server's, exactly if at most eight repositories
have registered and the number of the request is at most 999. -/
theorem host_list_kept_iff {self : Host} (hself : self.IsAddress) {es : List Received}
    (hregistered : ∀ h ∈ registered es, h.IsAddress) {db db' : Process}
    (hrun : run Process.receive (Process.launched self) es = some db) {from_addr host : Host}
    {s_buffer : Str} {throws : ℕ → Option Str} {out : List Send} {msg : Msg}
    (hlen : s_buffer.length < 2 ^ 63) (hobject : DigitObject s_buffer)
    (hcurrent : db.current_request < 2 ^ 64)
    (hturn : runConnection throws db from_addr s_buffer = .ok (db', out))
    (hmem : ⟨host, msg⟩ ∈ out) (hkind : msg.HasHosts) :
    decodedHosts msg.buffer = .ok db.repositories ↔
      (registered es).length ≤ 8 ∧ db.current_request ≤ 999 := by
  obtain ⟨hserver, hrepositories⟩ := repositories_of_run rfl hrun
  obtain ⟨h2, hwrite⟩ := (serverStep_of_runConnection hserver hturn).hosts hmem hkind
  obtain ⟨hfit, hid, hforwarded⟩ := textsFit_write hlen hobject hwrite
  have hhosts : db.repositories = self :: registered es := hrepositories
  have hne : db.repositories ≠ [] := by simp [hhosts]
  have ha : ∀ h ∈ db.repositories, h.IsAddress := by
    intro h hmem
    rw [hhosts] at hmem
    rcases List.mem_cons.mp hmem with rfl | hmem
    · exact hself
    · exact hregistered h hmem
  rw [decodedHosts_iff hfit hforwarded hkind hid hcurrent hne ha, hhosts, List.length_cons]
  omega

/-- The repositories of the examples. -/
def peer (k : UInt16) : Host := ⟨dottedQuad 10 0 0 2, k⟩

/-- A registration of each of `n` repositories. -/
def registrations (n : ℕ) : List Received :=
  (List.range n).map fun k => ⟨peer (UInt16.ofNat (50001 + k)), str "E", noThrow⟩

theorem peer_isAddress (k : UInt16) : (peer k).IsAddress := ⟨10, 0, 0, 2, rfl⟩

theorem registered_registrations (n : ℕ) : registered (registrations n) =
    (List.range n).map fun k => peer (UInt16.ofNat (50001 + k)) := by
  unfold registered registrations
  rw [List.filter_eq_self.mpr, List.map_map]
  · rfl
  · intro e he
    obtain ⟨k, -, rfl⟩ := List.mem_map.mp he
    rfl

/-- The server after the registrations. -/
def Process.withPeers (n : ℕ) : Process :=
  { Process.launched (peer 50000) with
    repository := true
    repositories := peer 50000 :: (List.range n).map fun k => peer (UInt16.ofNat (50001 + k)) }

/-- With eight repositories a `C` carries the list. -/
theorem host_list_kept_eight : ∃ db db' out host msg,
    run Process.receive (Process.launched (peer 50000)) (registrations 8) = some db ∧
      db.repositories.length = 9 ∧
      runConnection noThrow db (peer 1) (Msg.node plainNode).buffer = .ok (db', out) ∧
      ⟨host, msg⟩ ∈ out ∧ decodedHosts msg.buffer = .ok db.repositories := by
  have hrun : run Process.receive (Process.launched (peer 50000)) (registrations 8) =
      some (Process.withPeers 8) := rfl
  obtain ⟨r, host, -, -, hturn⟩ := server_node noThrow (peer 1)
    (show (Process.withPeers 8).server = true from rfl) rfl (by decide) plainNode_fits (by decide)
  have hobject : DigitObject (Msg.node plainNode).buffer := fun hhead => absurd hhead (by decide)
  have hregistered : ∀ h ∈ registered (registrations 8), h.IsAddress := by
    rw [registered_registrations]
    intro h hh
    obtain ⟨k, -, rfl⟩ := List.mem_map.mp hh
    exact peer_isAddress _
  have hmem := List.mem_singleton_self (⟨host, .node ⟨plainNode.nameA,
    plainNode.attributes.map Attribute.wire, plainNode.relations, 1,
    (Process.withPeers 8).repositories⟩⟩ : Send)
  exact ⟨_, _, _, host, _, hrun, rfl, hturn, hmem, (host_list_kept_iff (peer_isAddress _)
    hregistered hrun (by decide) hobject (by decide) hturn hmem trivial).mpr
      ⟨by decide, by decide⟩⟩

/-- With nine repositories the number of hosts takes two digits, and the list that is decoded from a
forwarded `C` is not the server's. -/
theorem host_list_lost_nine : ∃ db db' out host msg,
    run Process.receive (Process.launched (peer 50000)) (registrations 9) = some db ∧
      (registered (registrations 9)).length = 9 ∧
      runConnection noThrow db (peer 1) (Msg.node plainNode).buffer = .ok (db', out) ∧
      ⟨host, msg⟩ ∈ out ∧ msg.HasHosts ∧ decodedHosts msg.buffer ≠ .ok db.repositories := by
  have hrun : run Process.receive (Process.launched (peer 50000)) (registrations 9) =
      some (Process.withPeers 9) := rfl
  obtain ⟨r, host, -, -, hturn⟩ := server_node noThrow (peer 1)
    (show (Process.withPeers 9).server = true from rfl) rfl (by decide) plainNode_fits (by decide)
  refine ⟨_, _, _, host, _, hrun, by decide, hturn, List.mem_singleton_self _, trivial, ?_⟩
  decide +kernel

end DGDB
