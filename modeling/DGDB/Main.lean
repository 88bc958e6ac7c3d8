import Mathlib
import DGDB.CommandLine
import DGDB.Joining

/-!
# The command lines of a deployment

`main` starts a client, the server or a repository. What the command lines of the server and of its
repositories bring up is the deployment that runs start from, once every repository has registered,
and whatever a client's command line sends is a request.
-/

namespace DGDB

open Decimal EventSystem

/-! ## `main` -/

/-- The entry of `repositories` that the constructor makes. -/
def ownHost : Host := ⟨str "127.0.0.1", 50000⟩

/-- The arguments of `setMainIp` and `setMainPort`. -/
def mainHost : Host := ⟨str "35.240.132.238", 50000⟩

/-- The constructor. The storage is that of the file it opens. -/
def Process.construct (storage : Storage) : Process :=
  ⟨false, false, [ownHost], false, 1, fun _ => none, storage⟩

/-- `setServer`. -/
def Process.setServer (db : Process) : Process := { db with server := true }

/-- `setMainIp` and `setMainPort` write the first entry of `repositories`. -/
def Process.setMain (db : Process) : Process :=
  { db with repositories := db.repositories.set 0 mainHost }

/-- `setRepository`, with what `registerRepository` sends. -/
def Process.setRepository (db : Process) : Process × List Send :=
  ({ db with repository := true }, [⟨mainHost, .register⟩])

/-- `is_number`. -/
def isNumber (s : Str) : Bool := !s.isEmpty && s.all isDigit

/-- The `-p` of a server or a repository: its port, or -1, and the other arguments; none if what
stands behind it is no number. -/
def takePort (args : List Str) : Result (Option (ℤ × List Str)) :=
  match args.findIdx? (· == str "-p") with
  | none => pure (some (-1, args))
  | some it_port =>
    let args := args.eraseIdx it_port
    match args[it_port]? with
    | some number =>
      if isNumber number then do return some (← atoi number, args.eraseIdx it_port)
      else pure none
    | none => pure none

/-- What `main` comes to. -/
inductive Started
  /-- It prints the line and returns. -/
  | ended (line : Str)
  /-- It returns when the client has sent a message and `WaitResponse` has returned; without a
  message it returns at once. -/
  | client (sent : Option Msg)
  /-- It binds the port, sends `sent` and runs `runConnection`. -/
  | loop (port : ℤ) (db : Process) (sent : List Send)

/-- The letter of a client's command. -/
def Command.ofChar (c : UInt8) : Option Command :=
  if c = ch 'C' then some node
  else if c = ch 'R' then some query
  else if c = ch 'U' then some update
  else if c = ch 'D' then some delete
  else none

/-- `main`, for the arguments behind the name of the program. -/
def main (storage : Storage) : List Str → Result Started
  | [] => pure (.ended (str "GAAAAAAAAAAAA"))
  | mode :: args =>
    match Command.ofChar (mode.headD 0) with
    | some command =>
      if args = [] then pure (.ended (str "[ERROR] You must specify a node"))
      else do return .client (← command.set args)
    | none =>
      if mode.headD 0 = ch 'S' then do
        match ← takePort args with
        | none => return .ended (str "[ERROR] Invalid input!")
        | some (port, args) =>
          let db := Process.construct storage
          if str "--server" ∈ args then
            return .loop (if port = -1 then 50000 else port) db.setServer []
          else if str "--repository" ∈ args then
            if port = -1 then return .ended (str "[ERROR] You must specify the port!")
            else
              let (db, sent) := db.setMain.setRepository
              return .loop port db sent
          else return .ended (str "[ERROR] You must define a mode!")
      else pure (.ended [])

/-! ## The command line of a server and of a repository -/

/-- The port that the arguments give, if they give one, and the other arguments: only the first `-p`
counts. -/
def PortLine (args : List Str) (port : Option ℤ) (rest : List Str) : Prop :=
  str "-p" ∉ args ∧ port = none ∧ rest = args ∨
  ∃ l number r, args = l ++ str "-p" :: number :: r ∧ str "-p" ∉ l ∧ isNumber number = true ∧
    value number < 2 ^ 31 ∧ port = some (value number : ℤ) ∧ rest = l ++ r

/-- The arguments start a server. -/
def ServerLine (args : List Str) (port : ℤ) : Prop :=
  ∃ mode more given rest, args = mode :: more ∧ mode.headD 0 = ch 'S' ∧ PortLine more given rest ∧
    str "--server" ∈ rest ∧ port = given.getD 50000

/-- The arguments start a repository: it has to be given a port, and `--server` comes first. -/
def RepositoryLine (args : List Str) (port : ℤ) : Prop :=
  ∃ mode more rest, args = mode :: more ∧ mode.headD 0 = ch 'S' ∧ PortLine more (some port) rest ∧
    str "--server" ∉ rest ∧ str "--repository" ∈ rest

section Lines

variable {args rest : List Str} {port : ℤ}

theorem atoi_isNumber {number : Str} (h : isNumber number = true) :
    atoi number = int32 (value number) := by
  unfold isNumber at h
  rw [Bool.and_eq_true, Bool.not_eq_true', List.all_eq_true] at h
  obtain ⟨hne, hd⟩ := h
  have hne : number ≠ [] := by
    rintro rfl
    cases hne
  by_cases hv : value number < 2 ^ 31
  · unfold atoi int32
    rw [stoi_digits hne hd hv, if_pos (by omega)]
  · obtain ⟨c, u, rfl⟩ := List.exists_cons_of_ne_nil hne
    have hc := hd c List.mem_cons_self
    have hout : stoi (c :: u) = .error .outOfRange := by
      have htake : (c :: u).takeWhile isDigit = c :: u := List.takeWhile_eq_self_iff.mpr hd
      unfold stoi
      rw [List.dropWhile_cons, not_isSpace_of_isDigit hc]
      simp only [Bool.false_eq_true, if_false]
      rw [splitSign_of_isDigit hc]
      simp only [htake, if_neg (List.cons_ne_nil c u), Bool.false_eq_true, if_false]
      rw [if_pos (Or.inr (by omega))]
      rfl
    unfold atoi int32
    rw [hout, if_neg (by omega)]

theorem takePort_absent (h : str "-p" ∉ args) : takePort args = .ok (some (-1, args)) := by
  have hnone : args.findIdx? (· == str "-p") = none := by
    rw [List.findIdx?_eq_none_iff]
    intro x hx
    exact beq_eq_false_iff_ne.mpr fun heq => h (heq ▸ hx)
  unfold takePort
  rw [hnone]
  rfl

theorem takePort_present {l r : List Str} (h : str "-p" ∉ l) :
    takePort (l ++ str "-p" :: r) = match r with
      | number :: r =>
        if isNumber number then do return some (← atoi number, l ++ r) else .ok none
      | [] => .ok none := by
  have hsome : (l ++ str "-p" :: r).findIdx? (· == str "-p") = some l.length := by
    have hnone : l.findIdx? (· == str "-p") = none := by
      rw [List.findIdx?_eq_none_iff]
      intro x hx
      exact beq_eq_false_iff_ne.mpr fun heq => h (heq ▸ hx)
    rw [List.findIdx?_append, hnone, List.findIdx?_cons]
    simp
  have herase : ∀ (x : Str) (r : List Str), (l ++ x :: r).eraseIdx l.length = l ++ r := by
    intro x r
    rw [List.eraseIdx_append_of_length_le le_rfl, Nat.sub_self]
    rfl
  unfold takePort
  rw [hsome]
  simp only [herase]
  cases r with
  | nil => simp
  | cons number r => simp [herase]

theorem takePort_iff : takePort args = .ok (some (port, rest)) ↔
    ∃ given, PortLine args given rest ∧ port = given.getD (-1) := by
  constructor
  · intro h
    by_cases hp : str "-p" ∈ args
    · obtain ⟨l, r, rfl, hl⟩ := List.eq_append_cons_of_mem hp
      rw [takePort_present hl] at h
      cases r with
      | nil => cases h
      | cons number r =>
        simp only at h
        split_ifs at h with hnumber
        · rw [atoi_isNumber hnumber] at h
          obtain ⟨n, hn, h⟩ := bind_eq_ok.mp h
          obtain ⟨hrange, rfl⟩ := int32_eq_ok.mp hn
          cases h
          exact ⟨_, Or.inr ⟨l, number, r, rfl, hl, hnumber, by omega, rfl, rfl⟩, rfl⟩
        · cases h
    · rw [takePort_absent hp] at h
      cases h
      exact ⟨none, Or.inl ⟨hp, rfl, rfl⟩, rfl⟩
  · rintro ⟨given, ⟨hp, rfl, rfl⟩ | ⟨l, number, r, rfl, hl, hnumber, hv, rfl, rfl⟩, rfl⟩
    · exact takePort_absent hp
    · rw [takePort_present hl]
      simp only [hnumber, if_true]
      rw [atoi_isNumber hnumber, int32_ok (by omega), ok_bind]
      rfl

theorem PortLine.getD_eq {given : Option ℤ} (h : PortLine args given rest) :
    given = none ∧ given.getD (-1) = -1 ∨
      given = some (given.getD (-1)) ∧ given.getD (-1) ≠ -1 := by
  rcases h with ⟨-, rfl, -⟩ | ⟨l, number, r, -, -, -, -, rfl, -⟩
  · exact Or.inl ⟨rfl, rfl⟩
  · refine Or.inr ⟨rfl, ?_⟩
    show (value number : ℤ) ≠ -1
    omega

theorem main_S {storage : Storage} {mode : Str} (hS : mode.headD 0 = ch 'S') :
    main storage (mode :: args) = (do
      match ← takePort args with
      | none => return .ended (str "[ERROR] Invalid input!")
      | some (port, args) =>
        let db := Process.construct storage
        if str "--server" ∈ args then
          return .loop (if port = -1 then 50000 else port) db.setServer []
        else if str "--repository" ∈ args then
          if port = -1 then return .ended (str "[ERROR] You must specify the port!")
          else
            let (db, sent) := db.setMain.setRepository
            return .loop port db sent
        else return .ended (str "[ERROR] You must define a mode!")) := by
  have hnone : Command.ofChar (mode.headD 0) = none := by
    rw [hS]
    rfl
  unfold main
  simp only [hnone]
  rw [if_pos hS]

theorem main_loop_S {storage : Storage} {db : Process} {sent : List Send}
    (h : main storage args = .ok (.loop port db sent)) :
    ∃ mode more, args = mode :: more ∧ mode.headD 0 = ch 'S' := by
  cases args with
  | nil => cases h
  | cons mode more =>
    refine ⟨mode, more, rfl, ?_⟩
    by_contra hS
    cases hcommand : Command.ofChar (mode.headD 0) with
    | some command =>
      simp only [main, hcommand] at h
      split_ifs at h
      · cases h
      · obtain ⟨m, -, h⟩ := bind_eq_ok.mp h
        cases h
    | none =>
      simp only [main, hcommand] at h
      rw [if_neg hS] at h
      cases h

/-- **Which command lines start a process that runs `runConnection`.** -/
theorem main_loop_iff {storage : Storage} {db : Process} {sent : List Send} :
    main storage args = .ok (.loop port db sent) ↔
      ServerLine args port ∧ db = (Process.construct storage).setServer ∧ sent = [] ∨
      RepositoryLine args port ∧
        (db, sent) = (Process.construct storage).setMain.setRepository := by
  constructor
  · intro h
    obtain ⟨mode, more, rfl, hS⟩ := main_loop_S h
    rw [main_S hS] at h
    obtain ⟨_ | ⟨p, rest⟩, htake, h⟩ := bind_eq_ok.mp h
    · cases h
    obtain ⟨given, hline, rfl⟩ := takePort_iff.mp htake
    simp only at h
    by_cases hserver : str "--server" ∈ rest
    · rw [if_pos hserver] at h
      cases h
      refine Or.inl ⟨⟨mode, more, given, rest, rfl, hS, hline, hserver, ?_⟩, rfl, rfl⟩
      rcases hline.getD_eq with ⟨rfl, -⟩ | ⟨hgiven, hne⟩
      · rfl
      · rw [if_neg hne, hgiven]
        rfl
    · rw [if_neg hserver] at h
      split_ifs at h with hrepository hport
      · cases h
      · cases h
        rcases hline.getD_eq with ⟨-, hminus⟩ | ⟨hgiven, -⟩
        · exact absurd hminus hport
        · rw [hgiven] at hline
          exact Or.inr ⟨⟨mode, more, rest, rfl, hS, hline, hserver, hrepository⟩, rfl⟩
      · cases h
  · rintro (⟨⟨mode, more, given, rest, rfl, hS, hline, hserver, rfl⟩, rfl, rfl⟩ |
      ⟨⟨mode, more, rest, rfl, hS, hline, hserver, hrepository⟩, hdb⟩)
    · rw [main_S hS, takePort_iff.mpr ⟨given, hline, rfl⟩, ok_bind]
      simp only
      rw [if_pos hserver]
      rcases hline.getD_eq with ⟨rfl, -⟩ | ⟨hgiven, hne⟩
      · rfl
      · rw [if_neg hne, hgiven]
        rfl
    · have hport := (hline.getD_eq.resolve_left fun h => by cases h.1).2
      rw [main_S hS, takePort_iff.mpr ⟨_, hline, rfl⟩, ok_bind]
      simp only
      rw [if_neg hserver, if_pos hrepository, if_neg hport]
      cases hdb
      rfl

end Lines

/-! ## The command line of a client -/

theorem set_request {command : Command} {c : UInt8} {args : List Str} {m : Msg}
    (hcommand : Command.ofChar c = some command) (h : command.set args = .ok (some m)) :
    m.IsRequest ∧ m.buffer.headD 0 = c := by
  have hletter : c = ch 'C' ∧ command = .node ∨ c = ch 'R' ∧ command = .query ∨
      c = ch 'U' ∧ command = .update ∨ c = ch 'D' ∧ command = .delete := by
    unfold Command.ofChar at hcommand
    split_ifs at hcommand with hC hR hU hD
    · exact Or.inl ⟨hC, (Option.some.inj hcommand).symm⟩
    · exact Or.inr (Or.inl ⟨hR, (Option.some.inj hcommand).symm⟩)
    · exact Or.inr (Or.inr (Or.inl ⟨hU, (Option.some.inj hcommand).symm⟩))
    · exact Or.inr (Or.inr (Or.inr ⟨hD, (Option.some.inj hcommand).symm⟩))
  rcases hletter with ⟨rfl, rfl⟩ | ⟨rfl, rfl⟩ | ⟨rfl, rfl⟩ | ⟨rfl, rfl⟩
  · match args, h with
    | nameA :: args, h =>
      obtain ⟨⟨attributes, relations, error⟩, -, h⟩ := bind_eq_ok.mp h
      simp only at h
      split_ifs at h
      · cases h
      · cases h
        exact ⟨⟨rfl, rfl⟩, rfl⟩
  · match args, h with
    | nameA :: args, h =>
      obtain ⟨q, -, h⟩ := bind_eq_ok.mp h
      split_ifs at h
      · cases h
      · obtain ⟨conditions, -, h⟩ := bind_eq_ok.mp h
        cases h
        exact ⟨rfl, rfl⟩
  · match args, h with
    | nameA :: flag :: arg :: args, h =>
      simp only [Command.set, setUpdate] at h
      split_ifs at h
      · obtain ⟨pair, -, h⟩ := bind_eq_ok.mp h
        cases h
        exact ⟨rfl, rfl⟩
      · cases h
        exact ⟨rfl, rfl⟩
      · cases h
  · rcases args with _ | ⟨nameA, _ | ⟨flag, _ | ⟨arg, args⟩⟩⟩
    · cases h
    · cases h
      exact ⟨⟨rfl, rfl⟩, rfl⟩
    · cases h
    · simp only [Command.set, setDelete] at h
      split_ifs at h
      · cases h
        exact ⟨⟨rfl, rfl⟩, rfl⟩
      · cases h
        exact ⟨⟨rfl, rfl⟩, rfl⟩
      · cases h

/-- Whatever a client's command line sends is a request that goes to the branch of its letter. -/
theorem main_client {storage : Storage} {args : List Str} {m : Msg}
    (h : main storage args = .ok (.client (some m))) :
    m.IsRequest ∧ ∃ mode more, args = mode :: more ∧ m.buffer.headD 0 = mode.headD 0 := by
  cases args with
  | nil => cases h
  | cons mode more =>
    cases hcommand : Command.ofChar (mode.headD 0) with
    | some command =>
      simp only [main, hcommand] at h
      split_ifs at h
      · cases h
      · obtain ⟨sent, hset, h⟩ := bind_eq_ok.mp h
        cases h
        obtain ⟨hrequest, hhead⟩ := set_request hcommand hset
        exact ⟨hrequest, mode, more, rfl, hhead⟩
    | none =>
      simp only [main, hcommand] at h
      split_ifs at h
      · obtain ⟨_ | ⟨port, rest⟩, -, h⟩ := bind_eq_ok.mp h
        · cases h
        · simp only at h
          split_ifs at h
          · cases h
          · cases h
          · cases h
          · cases h
          · cases h
      · cases h

/-! ## Registrations -/

/-- The `E` of a repository. -/
def registration (cfg : Config) (host : Host) : Envelope := ⟨host, cfg.address, .register, 0⟩

/-- Nobody has sent a request yet. -/
def JoinEvent.IsLaunch : JoinEvent → Prop
  | .other (.request _ _) => False
  | _ => True

/-- The repositories `arrived` have registered, and the other `E`s are in transit. -/
structure World.Launched (cfg : Config) (arrived : List Host) (w : World) : Prop where
  server : w.server = { Process.launched cfg.self with
    repository := !arrived.isEmpty, repositories := cfg.self :: arrived }
  repo : w.repo = (World.launch cfg).repo
  transit : ∀ a ∈ w.transit, ∃ host ∈ cfg.repos, a = registration cfg host
  known : ∀ host ∈ arrived, host ∈ cfg.repos
  sent : (w.sent : Multiset Envelope) = w.transit + (arrived.map (registration cfg) : List Envelope)

section Registrations

variable {cfg : Config} {arrived : List Host} {w w' : World} {e : JoinEvent}

theorem World.Launched.launch (cfg : Config) : (World.launch cfg).Launched cfg [] where
  server := rfl
  repo := rfl
  transit := fun a ha => absurd ha (Multiset.notMem_zero a)
  known := List.forall_mem_nil _
  sent := rfl

theorem World.Launched.step (h : w.Launched cfg arrived) (hlaunch : e.IsLaunch)
    (hstep : w.join cfg e = some w') : ∃ arrived', w'.Launched cfg arrived' := by
  cases e with
  | register host =>
    simp only [World.join] at hstep
    split_ifs at hstep with hhost
    cases hstep
    refine ⟨arrived, h.server, h.repo, fun a ha => ?_, h.known, ?_⟩
    · rcases Multiset.mem_add.mp ha with ha | ha
      · exact h.transit a ha
      · exact ⟨host, hhost, Multiset.mem_singleton.mp ha⟩
    · rw [World.post_sent, ← Multiset.coe_add, h.sent]
      exact add_right_comm _ _ _
  | other e =>
    cases e with
    | request client msg => exact hlaunch.elim
    | deliver a throws =>
      obtain ⟨rest, htransit, hhandle⟩ := step_deliver hstep
      have ha : a ∈ w.transit := by
        rw [htransit]
        exact Multiset.mem_cons_self a rest
      obtain ⟨host, hhost, rfl⟩ := h.transit a ha
      have hw' : w' = ({ w with transit := rest } : World).serverTurn cfg (registration cfg host)
          (registerBranch w.server host).1 [] := by
        rcases handle_cases hhandle with
          ⟨-, db, out, hturn, rfl⟩ | ⟨hrepo, -⟩ | ⟨hclient, -⟩
        · cases (show runConnection throws w.server host (Msg.buffer .register) =
            .ok (registerBranch w.server host) from rfl).symm.trans hturn
          rfl
        · exact absurd hrepo cfg.apart
        · exact absurd rfl hclient.1
      have hpost : w' = { w with server := (registerBranch w.server host).1, transit := rest } := by
        have hsame : ¬ w.server.current_request <
            (registerBranch w.server host).1.current_request := lt_irrefl _
        rw [hw', World.serverTurn, if_neg hsame]
        simp [World.post, World.stamp]
      subst hpost
      refine ⟨arrived ++ [host], ?_, h.repo, fun a ha => ?_, fun x hx => ?_, ?_⟩
      · show (registerBranch w.server host).1 = _
        rw [h.server]
        simp [registerBranch]
      · exact h.transit a (by rw [htransit]; exact Multiset.mem_cons_of_mem ha)
      · rcases List.mem_append.mp hx with hx | hx
        · exact h.known x hx
        · rwa [List.mem_singleton.mp hx]
      · show (w.sent : Multiset Envelope) = rest + _
        rw [h.sent, htransit, List.map_append, ← Multiset.coe_add, Multiset.cons_add,
          ← Multiset.singleton_add, add_comm]
        exact add_assoc _ _ _

/-- However the registrations are interleaved, the repositories that have registered are known. -/
theorem launched_run {es : List JoinEvent} (hes : ∀ e ∈ es, e.IsLaunch)
    (hrun : run (World.join cfg) (World.launch cfg) es = some w) :
    ∃ arrived, w.Launched cfg arrived :=
  (Along.of_step (A := fun _ => True) (C := fun _ e => e.IsLaunch)
    (I := fun w => ∃ arrived, World.Launched cfg arrived w)
    (fun _ _ _ _ _ hlaunch h hstep => h.elim fun _ h => h.step hlaunch hstep)
    ⟨[], World.Launched.launch cfg⟩ (along_true _ _) (meets_of_forall hes _)).last hrun

end Registrations

/-- **A deployment from its command lines.** The processes that runs start from are those that the
command lines of a server and of a repository start; when every `E` that has been sent has arrived,
in whatever order, the server is that of the deployment whose repositories are the senders; and
whatever a client's command line sends is a request. -/
theorem deployment_started {cfg : Config} (hself : cfg.self = ownHost)
    (haddress : cfg.address = mainHost) :
    (∀ args port, main Storage.empty args = .ok (.loop port (World.launch cfg).server []) ↔
      ServerLine args port) ∧
    (∀ args port host, main Storage.empty args =
        .ok (.loop port ((World.launch cfg).repo host) [⟨cfg.address, .register⟩]) ↔
      RepositoryLine args port) ∧
    (∀ es w, run (World.join cfg) (World.launch cfg) es = some w → (∀ e ∈ es, e.IsLaunch) →
      w.transit = 0 → ∃ started : Config, started.self = cfg.self ∧ started.address = cfg.address ∧
        (started.repos.map (registration cfg)).Perm w.sent ∧
        w.server = (World.start started).server ∧ w.repo = (World.start started).repo) ∧
    ∀ w client args m, cfg.IsClient client → main Storage.empty args = .ok (.client (some m)) →
      World.join cfg w (.other (.request client m)) =
        some (w.post [⟨client, cfg.address, m, 0⟩]) := by
  have hserver : (World.launch cfg).server = (Process.construct Storage.empty).setServer := by
    show Process.launched cfg.self = _
    rw [hself]
    rfl
  have hrepo : ∀ host, ((World.launch cfg).repo host, [⟨cfg.address, .register⟩]) =
      (Process.construct Storage.empty).setMain.setRepository := by
    intro host
    show (Process.newRepository cfg, _) = _
    rw [Process.newRepository, haddress]
    rfl
  refine ⟨fun args port => ?_, fun args port host => ?_, fun es w hrun hes hquiet => ?_,
    fun w client args m hclient hm => ?_⟩
  · rw [main_loop_iff]
    constructor
    · rintro (⟨hline, -⟩ | ⟨-, hdb⟩)
      · exact hline
      · cases hdb
    · exact fun hline => Or.inl ⟨hline, hserver, rfl⟩
  · rw [main_loop_iff]
    constructor
    · rintro (⟨-, -, hsent⟩ | ⟨hline, -⟩)
      · cases hsent
      · exact hline
    · exact fun hline => Or.inr ⟨hline, hrepo host⟩
  · obtain ⟨arrived, h⟩ := launched_run hes hrun
    have hapart : cfg.address ∉ arrived := fun hmem => cfg.apart (h.known _ hmem)
    refine ⟨⟨cfg.self, cfg.address, arrived, hapart⟩, rfl, rfl, ?_, h.server, h.repo⟩
    have hsent := h.sent
    rw [hquiet, zero_add, Multiset.coe_eq_coe] at hsent
    exact hsent.symm
  · show (if cfg.IsClient client ∧ m.IsRequest then _ else none) = _
    rw [if_pos ⟨hclient, (main_client hm).1⟩]

/-- A server on its default port and two repositories, the second of which is the first to arrive.
-/
def twoHosts : Config where
  self := ownHost
  address := mainHost
  repos := [⟨str "10.0.0.2", 50001⟩, ⟨str "10.0.0.3", 50002⟩]
  apart := by decide

theorem deployment_started_two :
    ServerLine [str "S", str "--server"] 50000 ∧
    RepositoryLine [str "S", str "--repository", str "-p", str "50001"] 50001 ∧
    ∃ w, run (World.join twoHosts) (World.launch twoHosts)
      [.register ⟨str "10.0.0.2", 50001⟩, .register ⟨str "10.0.0.3", 50002⟩,
        hop ⟨str "10.0.0.3", 50002⟩ mainHost .register 0,
        hop ⟨str "10.0.0.2", 50001⟩ mainHost .register 0] = some w ∧
      ∃ started : Config, (started.repos.map (registration twoHosts)).Perm w.sent ∧
        w.server = (World.start started).server := by
  obtain ⟨hserver, hrepository, hstarted, -⟩ := deployment_started
    (show twoHosts.self = ownHost from rfl) (show twoHosts.address = mainHost from rfl)
  have hrun : ∃ w, run (World.join twoHosts) (World.launch twoHosts)
      [.register ⟨str "10.0.0.2", 50001⟩, .register ⟨str "10.0.0.3", 50002⟩,
        hop ⟨str "10.0.0.3", 50002⟩ mainHost .register 0,
        hop ⟨str "10.0.0.2", 50001⟩ mainHost .register 0] = some w ∧ w.transit = 0 :=
    exists_of_check (by decide +kernel)
  obtain ⟨w, hw, hquiet⟩ := hrun
  obtain ⟨started, -, -, hperm, hw', -⟩ :=
    hstarted _ w hw (by simp [JoinEvent.IsLaunch, hop]) hquiet
  exact ⟨(hserver _ _).mp rfl, (hrepository _ _ mainHost).mp rfl, w, hw, started, hperm, hw'⟩

end DGDB
