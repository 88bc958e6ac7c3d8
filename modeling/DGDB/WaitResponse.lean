import Mathlib
import DGDB.Identity

/-!
# What a client prints

The client replaces every backslash-n pair of an answer by a newline and prints what stands between
the first four bytes and the last three. That is the text of the answer as long as its length takes
three digits: the length of a longer text takes a fourth, which is printed, and the length field no
longer decodes to it.
-/

namespace DGDB

open Decimal

/-! ## The replacement loop -/

/-- `s.find(text)`. -/
def findText (text s : Str) : Option ℕ := s.tails.findIdx? fun t => text.isPrefixOf t

theorem findText_some {text s : Str} {pos : ℕ} (h : findText text s = some pos) :
    ∃ v, s = s.take pos ++ (text ++ v) ∧ (s.take pos).length = pos := by
  obtain ⟨hlt, hbegin, -⟩ := List.findIdx?_eq_some_iff_getElem.mp h
  rw [List.getElem_tails, List.isPrefixOf_iff_prefix] at hbegin
  obtain ⟨v, hv⟩ := hbegin
  have hle : pos ≤ s.length := by
    rw [List.length_tails] at hlt
    omega
  refine ⟨v, ?_, by rw [List.length_take]; omega⟩
  rw [hv, List.take_append_drop]

/-- `while ((pos = message.find("\\n")) != npos) message.replace(pos, 2, "\n")`. -/
def replacePairs (message : Str) : Str :=
  match _h : findText (str "\\n") message with
  | none => message
  | some pos => replacePairs (message.take pos ++ (str "\n" ++ message.drop (pos + 2)))
termination_by message.length
decreasing_by
  obtain ⟨v, hv, hpos⟩ := findText_some _h
  have hlen := congrArg List.length hv
  have h2 : (str "\\n").length = 2 := rfl
  have h1 : (str "\n").length = 1 := rfl
  simp only [List.length_append, h2] at hlen
  simp only [List.length_append, List.length_drop, h1]
  omega

/-- Every backslash-n pair as a newline, from left to right. -/
def newlines : Str → Str
  | [] => []
  | [c] => [c]
  | c :: d :: t =>
    if c = ch '\\' ∧ d = ch 'n' then ch '\n' :: newlines t else c :: newlines (d :: t)

/-- No pair begins in `u` and ends in `v` if `v` does not begin with an n. -/
theorem newlines_append {u v : Str} (h : v.headD 0 ≠ ch 'n') :
    newlines (u ++ v) = newlines u ++ newlines v := by
  induction u using newlines.induct with
  | case1 => rfl
  | case2 c =>
    cases v with
    | nil => rfl
    | cons d v =>
      have hd : ¬ (c = ch '\\' ∧ d = ch 'n') := fun hcd => h hcd.2
      show newlines (c :: d :: v) = c :: newlines (d :: v)
      rw [newlines, if_neg hd]
  | case3 c d t hcd ih =>
    rw [List.cons_append, List.cons_append, newlines, newlines, if_pos hcd, if_pos hcd, ih]
    rfl
  | case4 c d t hcd ih =>
    rw [List.cons_append] at ih
    rw [List.cons_append, List.cons_append, newlines, newlines, if_neg hcd, if_neg hcd, ih]
    rfl

theorem newlines_newline_cons (v : Str) : newlines (ch '\n' :: v) = ch '\n' :: newlines v := by
  cases v with
  | nil => rfl
  | cons d v => rw [newlines, if_neg fun h => absurd h.1 (by decide)]

theorem newlines_of_not_mem {u : Str} (h : ch '\\' ∉ u) : newlines u = u := by
  induction u using newlines.induct with
  | case1 => rfl
  | case2 c => rfl
  | case3 c d t hcd _ => exact absurd (hcd.1 ▸ List.mem_cons_self) h
  | case4 c d t hcd ih =>
    rw [newlines, if_neg hcd, ih fun hmem => h (List.mem_cons_of_mem _ hmem)]

theorem length_newlines_le (u : Str) : (newlines u).length ≤ u.length := by
  induction u using newlines.induct with
  | case1 => exact le_refl _
  | case2 c => exact le_refl _
  | case3 c d t hcd ih =>
    rw [newlines, if_pos hcd, List.length_cons, List.length_cons, List.length_cons]
    omega
  | case4 c d t hcd ih =>
    rw [newlines, if_neg hcd, List.length_cons, List.length_cons]
    omega

theorem newlines_of_findText {u : Str} (h : findText (str "\\n") u = none) : newlines u = u := by
  have hnone : ∀ t ∈ u.tails, (str "\\n").isPrefixOf t = false := by
    simpa [findText, List.findIdx?_eq_none_iff] using h
  clear h
  induction u using newlines.induct with
  | case1 => rfl
  | case2 c => rfl
  | case3 c d t hcd _ =>
    have := hnone (c :: d :: t) (by simp)
    rw [hcd.1, hcd.2] at this
    exact absurd this (by simp [str, ch])
  | case4 c d t hcd ih =>
    rw [newlines, if_neg hcd, ih fun t' ht' => hnone t' ?_]
    rw [List.tails_cons]
    exact List.mem_cons_of_mem _ ht'

/-- One turn of the loop: the first pair becomes a newline. -/
def replaceFirst (message : Str) : Option Str :=
  (findText (str "\\n") message).map fun pos =>
    message.take pos ++ (str "\n" ++ message.drop (pos + 2))

theorem replacePairs_replaceFirst (message : Str) :
    replacePairs message = match replaceFirst message with
      | none => message
      | some message' => replacePairs message' := by
  rw [replacePairs, replaceFirst]
  split
  · rename_i heq
    rw [heq]
    rfl
  · rename_i pos heq
    rw [heq]
    rfl

/-- **One replacement** takes a byte and leaves the pairs as they are: the newline it has written is
part of none. -/
theorem newlines_replaceFirst {message message' : Str} (h : replaceFirst message = some message') :
    newlines message' = newlines message ∧ message'.length + 1 = message.length := by
  obtain ⟨pos, hfind, rfl⟩ := Option.map_eq_some_iff.mp h
  obtain ⟨v, hv, hpos⟩ := findText_some hfind
  have h2 : (message.take pos ++ str "\\n").length = pos + 2 := by
    rw [List.length_append, hpos]
    rfl
  have hdrop : message.drop (pos + 2) = v := by
    conv_lhs => rw [hv, ← List.append_assoc, ← h2, List.drop_left]
  have hnewline : (str "\n" ++ v).headD 0 ≠ ch 'n' := by
    show ch '\n' ≠ ch 'n'
    decide
  have hpair : (str "\\n" ++ v).headD 0 ≠ ch 'n' := by
    show ch '\\' ≠ ch 'n'
    decide
  rw [hdrop]
  constructor
  · rw [newlines_append hnewline]
    conv_rhs => rw [hv, newlines_append hpair]
    show _ ++ newlines (ch '\n' :: v) = _ ++ newlines (ch '\\' :: ch 'n' :: v)
    rw [newlines_newline_cons, newlines, if_pos ⟨rfl, rfl⟩]
  · have hlen := congrArg List.length hv
    have h1 : (str "\n").length = 1 := rfl
    rw [← List.append_assoc, List.length_append, h2] at hlen
    rw [List.length_append, List.length_append, hpos, h1]
    omega

theorem replaceFirst_eq_none_iff {message : Str} :
    replaceFirst message = none ↔ findText (str "\\n") message = none := Option.map_eq_none_iff

/-- **The loop turns every pair into a newline.** -/
theorem replacePairs_eq (message : Str) : replacePairs message = newlines message := by
  induction hlen : message.length using Nat.strong_induction_on generalizing message with
  | _ n ih =>
    rw [replacePairs_replaceFirst]
    cases hfirst : replaceFirst message with
    | none => exact (newlines_of_findText (replaceFirst_eq_none_iff.mp hfirst)).symm
    | some message' =>
      obtain ⟨hnewlines, hlen'⟩ := newlines_replaceFirst hfirst
      rw [← hnewlines]
      exact ih message'.length (by omega) message' rfl

/-! ## The number of turns -/

/-- The pairs of a message: the positions at which one begins. -/
def pairs (message : Str) : ℕ := message.tails.countP fun t => (str "\\n").isPrefixOf t

/-- The loop, if it ends within `fuel` tests of its condition. -/
def replaceLoop : ℕ → Str → Option Str
  | 0, _ => none
  | fuel + 1, message =>
    match replaceFirst message with
    | none => some message
    | some message' => replaceLoop fuel message'

theorem pairs_eq_zero_iff {message : Str} :
    pairs message = 0 ↔ findText (str "\\n") message = none := by
  rw [pairs, findText, List.countP_eq_zero, List.findIdx?_eq_none_iff]
  simp only [Bool.not_eq_true]

theorem pairs_cons_cons (c d : UInt8) (t : Str) :
    pairs (c :: d :: t) = pairs (d :: t) + if c = ch '\\' ∧ d = ch 'n' then 1 else 0 := by
  have hbegin : (str "\\n").isPrefixOf (c :: d :: t) = true ↔ c = ch '\\' ∧ d = ch 'n' := by
    show (ch '\\' == c && (ch 'n' == d && List.isPrefixOf [] t)) = true ↔ _
    rw [Bool.and_eq_true, Bool.and_eq_true, beq_iff_eq, beq_iff_eq]
    exact ⟨fun h => ⟨h.1.symm, h.2.1.symm⟩, fun h => ⟨h.1.symm, h.2.symm, rfl⟩⟩
  rw [pairs, List.tails_cons, List.countP_cons, pairs]
  simp only [hbegin]

/-- **Each pair is one byte of the message less.** -/
theorem length_newlines_add_pairs (u : Str) : (newlines u).length + pairs u = u.length := by
  induction u using newlines.induct with
  | case1 => rfl
  | case2 c => simp [newlines, pairs, str]
  | case3 c d t hcd ih =>
    have hn : pairs (d :: t) = pairs t := by
      cases t with
      | nil => simp [pairs, str]
      | cons e t =>
        rw [pairs_cons_cons, if_neg fun h => absurd (hcd.2.symm.trans h.1) (by decide),
          Nat.add_zero]
    rw [newlines, if_pos hcd, pairs_cons_cons, if_pos hcd, hn, List.length_cons, List.length_cons,
      List.length_cons]
    omega
  | case4 c d t hcd ih =>
    rw [newlines, if_neg hcd, pairs_cons_cons, if_neg hcd, List.length_cons, List.length_cons]
    omega

theorem pairs_replaceFirst {message message' : Str} (h : replaceFirst message = some message') :
    pairs message' + 1 = pairs message := by
  obtain ⟨hnewlines, hlen⟩ := newlines_replaceFirst h
  have hmessage := length_newlines_add_pairs message
  have hmessage' := length_newlines_add_pairs message'
  rw [hnewlines] at hmessage'
  omega

/-- The loop takes one turn for each pair, by induction on the tests left. -/
theorem replaceLoop_eq (fuel : ℕ) (message : Str) :
    replaceLoop fuel message = if pairs message < fuel then some (newlines message) else none := by
  induction fuel generalizing message with
  | zero => rfl
  | succ fuel ih =>
    rw [replaceLoop]
    cases hfirst : replaceFirst message with
    | none =>
      have hfind := replaceFirst_eq_none_iff.mp hfirst
      rw [if_pos (by rw [pairs_eq_zero_iff.mpr hfind]; omega), newlines_of_findText hfind]
    | some message' =>
      have hpairs := pairs_replaceFirst hfirst
      show replaceLoop fuel message' = _
      rw [ih, (newlines_replaceFirst hfirst).1]
      exact if_congr (by omega) rfl rfl

theorem findText_replaceLoop {fuel : ℕ} {message result : Str}
    (h : replaceLoop fuel message = some result) : findText (str "\\n") result = none := by
  induction fuel generalizing message with
  | zero => cases h
  | succ fuel ih =>
    rw [replaceLoop] at h
    cases hfirst : replaceFirst message with
    | none =>
      rw [hfirst] at h
      cases h
      exact replaceFirst_eq_none_iff.mp hfirst
    | some message' =>
      rw [hfirst] at h
      exact ih h

/-- **The replacement loop** ends after one turn for each pair of the message, with no pair left.
The result is that of one pass over the message, one byte shorter for each pair, and no turn creates
a pair. -/
theorem pairs_replaced (message : Str) :
    (∀ fuel, replaceLoop fuel message =
      if pairs message < fuel then some (replacePairs message) else none) ∧
    findText (str "\\n") (replacePairs message) = none ∧
    replacePairs message = newlines message ∧
    (replacePairs message).length + pairs message = message.length ∧
    ∀ message', replaceFirst message = some message' → pairs message' + 1 = pairs message := by
  rw [replacePairs_eq]
  refine ⟨fun fuel => replaceLoop_eq fuel message, ?_, rfl, length_newlines_add_pairs message,
    fun message' h => pairs_replaceFirst h⟩
  have hend := replaceLoop_eq (pairs message + 1) message
  rw [if_pos (Nat.lt_succ_self _)] at hend
  exact findText_replaceLoop hend

/-! ## The client -/

/-- `WaitResponse` on one received string: the text it prints, if it is an `M`. -/
def waitResponse (message : Str) : Result (Option Str) :=
  if message.headD 0 = ch 'M' then do
    let message := replacePairs message
    return some (← substr message 4 (subSizeT message.length 7))
  else pure none

/-- The length field of an `M`, as `runConnection` decodes it. -/
def lengthField (message : Str) : Result ℤ := do
  let b ← erase message 0 1
  let (len, _) ← takeNumber 3 0 b
  return len

/-- An `M` brings `text` to the client intact. -/
def Intact (text message : Str) : Prop :=
  lengthField message = .ok (text.length : ℤ) ∧ waitResponse message = .ok (some (newlines text))

section Frame

theorem not_mem_padded {c : UInt8} (hc : isDigit c = false) (w n : ℕ) : c ∉ padded w n := by
  intro h
  rw [isDigit_of_mem_padded h] at hc
  cases hc

theorem headD_padded_ne {c : UInt8} (hc : isDigit c = false) (w n : ℕ) :
    (padded w n).headD 0 ≠ c := by
  have hne : padded w n ≠ [] := by simp [padded, decimal_ne_nil]
  obtain ⟨d, t, hdt⟩ := List.exists_cons_of_ne_nil hne
  intro h
  rw [hdt] at h
  exact not_mem_padded hc w n (hdt ▸ h ▸ List.mem_cons_self)

theorem newlines_padded (w n : ℕ) : newlines (padded w n) = padded w n :=
  newlines_of_not_mem (not_mem_padded rfl w n)

variable {m : ResponseMsg}

theorem newlines_parseNewMessageResponse (hhead : m.message.headD 0 ≠ ch 'n') :
    newlines (parseNewMessageResponse m) =
      (ch 'M' :: padded 3 m.message.length) ++ (newlines m.message ++ idText m.request_id) := by
  have hfront : newlines (ch 'M' :: padded 3 m.message.length) =
      ch 'M' :: padded 3 m.message.length := by
    apply newlines_of_not_mem
    rw [List.mem_cons, not_or]
    exact ⟨by decide, not_mem_padded rfl _ _⟩
  have hid : (idText m.request_id).headD 0 ≠ ch 'n' := headD_padded_ne rfl _ _
  have htext : (m.message ++ idText m.request_id).headD 0 ≠ ch 'n' := by
    cases hm : m.message with
    | nil => exact hid
    | cons c t => rwa [hm] at hhead
  have hsplit : parseNewMessageResponse m =
      (ch 'M' :: padded 3 m.message.length) ++ (m.message ++ idText m.request_id) := by
    simp [parseNewMessageResponse, sized]
  rw [hsplit, newlines_append htext, newlines_append hid, hfront, idText, newlines_padded]

/-- What is printed, when the length takes three digits: all but three bytes of the rest. -/
theorem waitResponse_response (hhead : m.message.headD 0 ≠ ch 'n') (hshort : ShortText m.message) :
    waitResponse (parseNewMessageResponse m) = .ok (some
      ((newlines m.message ++ idText m.request_id).take
        ((newlines m.message ++ idText m.request_id).length - 3))) := by
  set rest := newlines m.message ++ idText m.request_id with hrest
  have hfield : (padded 3 m.message.length).length = 3 :=
    length_padded (by norm_num) (Nat.lt_succ_of_le hshort)
  have hid3 : 3 ≤ (idText m.request_id).length := le_length_padded 3 _
  have hid20 : (idText m.request_id).length ≤ 20 := by
    have hid : toSizeT m.request_id < 10 ^ 20 := by
      unfold toSizeT
      omega
    have := length_decimal_le (by norm_num) hid
    simp only [idText, padded, List.length_append, List.length_replicate]
    omega
  have hlen : rest.length ≤ 1019 ∧ 3 ≤ rest.length := by
    have hle := length_newlines_le m.message
    have h999 : m.message.length ≤ 999 := hshort
    rw [hrest, List.length_append]
    omega
  have hframe : replacePairs (parseNewMessageResponse m) =
      (ch 'M' :: padded 3 m.message.length) ++ rest := by
    rw [replacePairs_eq, newlines_parseNewMessageResponse hhead]
  have htotal : ((ch 'M' :: padded 3 m.message.length) ++ rest).length = rest.length + 4 := by
    rw [List.length_append, List.length_cons, hfield]
    omega
  have hcount : subSizeT (rest.length + 4) 7 = rest.length - 3 := by
    rw [subSizeT_of_le (by omega) (by omega)]
    omega
  have hsubstr : substr ((ch 'M' :: padded 3 m.message.length) ++ rest) 4 (rest.length - 3 : ℕ) =
      .ok (rest.take (rest.length - 3)) := by
    have hparts : substr ((ch 'M' :: padded 3 m.message.length) ++
        (rest.take (rest.length - 3) ++ rest.drop (rest.length - 3))) 4 (rest.length - 3 : ℕ) =
        .ok (rest.take (rest.length - 3)) := by
      apply substr_append
      · rw [List.length_cons, hfield]
        rfl
      · rw [List.length_take]
        omega
      · rw [List.length_append, List.length_cons, hfield, List.length_take]
        omega
    rwa [List.take_append_drop] at hparts
  unfold waitResponse
  rw [if_pos (show (parseNewMessageResponse m).headD 0 = ch 'M' from rfl)]
  simp only [hframe, htotal, hcount]
  rw [hsubstr, ok_bind]
  rfl

theorem lengthField_iff :
    lengthField (parseNewMessageResponse m) = .ok (m.message.length : ℤ) ↔ ShortText m.message := by
  have herase : erase (parseNewMessageResponse m) 0 1 =
      .ok (sized m.message ++ idText m.request_id) := erase_head _ _
  unfold lengthField
  rw [herase, ok_bind]
  constructor
  · intro h
    obtain ⟨⟨len, b⟩, hnum, h⟩ := bind_eq_ok.mp h
    have hlt := (takeNumber_ok (by decide) hnum).2.2.2
    have hlen : len = m.message.length := Except.ok.inj h
    have h3 : (10 : ℤ) ^ toSizeT 3 = 1000 := rfl
    unfold ShortText
    omega
  · intro h
    rw [takeNumber_name h, ok_bind]
    rfl

theorem length_idText_eq {request_id : ℤ} (hlow : -2 ^ 31 ≤ request_id) (hid : request_id < 1000) :
    (idText request_id).length = 3 ↔ 0 ≤ request_id := by
  obtain ⟨t, extra, hsplit, ht, -, -, hextra⟩ := padded_split (toSizeT request_id)
  rw [idText, hsplit, List.length_append, ht, Nat.add_eq_left, List.length_eq_zero_iff, hextra]
  unfold toSizeT
  omega

/-- **An answer is intact exactly if its length and its id take three digits.** -/
theorem intact_iff (hhead : m.message.headD 0 ≠ ch 'n') (hlow : -2 ^ 31 ≤ m.request_id)
    (hid : m.request_id < 1000) :
    Intact m.message (parseNewMessageResponse m) ↔ ShortText m.message ∧ 0 ≤ m.request_id := by
  rw [Intact, lengthField_iff, ← length_idText_eq hlow hid]
  apply and_congr_right
  intro hshort
  rw [waitResponse_response hhead hshort, Except.ok.injEq, Option.some.injEq]
  have h3 := le_length_padded 3 (toSizeT m.request_id)
  constructor
  · intro h
    have hlen := congrArg List.length h
    rw [List.length_take, List.length_append] at hlen
    unfold idText at hlen ⊢
    omega
  · intro h
    rw [List.length_append, h, Nat.add_sub_cancel]
    exact List.take_left

end Frame

/-! ## The answer of a query -/

/-- The bytes that the lines of one valid node take. -/
def lineSize (attr : Bool) (node_name : Str) (distance : ℕ) (attributes : List Attribute) : ℕ :=
  node_name.length + (decimal distance).length + 13 +
    if attr then (attributes.map fun a => a.key.length + a.value.length + 6).sum else 0

theorem length_nodeLines (attr : Bool) (node_name : Str) (distance : ℕ)
    (attributes : List Attribute) :
    (nodeLines attr node_name distance attributes).length =
      lineSize attr node_name distance attributes := by
  have hattr : (attributes.flatMap fun a => str "  " ++ a.key ++ str ": " ++ a.value ++
      str "\\n").length = (attributes.map fun a => a.key.length + a.value.length + 6).sum := by
    rw [List.length_flatMap]
    congr 1
    apply List.map_congr_left
    intro a _
    have h : (str "  ").length = 2 ∧ (str ": ").length = 2 ∧ (str "\\n").length = 2 :=
      ⟨rfl, rfl, rfl⟩
    simp only [List.length_append, h]
    omega
  have h : (str " [Depth = ").length = 10 ∧ (str "]\\n").length = 3 := ⟨rfl, rfl⟩
  unfold nodeLines lineSize
  simp only [List.length_append, h, ← hattr]
  split_ifs
  · omega
  · simp only [List.length_nil]
    omega

/-- The bytes of the response once the reply `i` for the node `top` has been added to it. -/
def resultSize (st : QueryState) (top : Str × ℕ) (i : InfoMsg) : ℕ :=
  st.response.length +
    if i.valid_node then lineSize st.attr i.nameA (subSizeT st.depth top.2) i.attributes else 0

theorem length_completeText (st : QueryState) (top : Str × ℕ) (queue : List (Str × ℕ))
    (i : InfoMsg) :
    (completeText (st.advance top queue i).response).length = 20 + resultSize st top i := by
  have hok : (str "OK! Query complete\\n").length = 20 := rfl
  have hresponse : (st.advance top queue i).response = st.response ++ if i.valid_node
      then nodeLines st.attr i.nameA (subSizeT st.depth top.2) i.attributes else [] := rfl
  rw [completeText, List.length_append, hok, hresponse, List.length_append, resultSize,
    ← length_nodeLines]
  split_ifs <;> rfl

/-- **Query results reach the client intact exactly while they are short**: the answer of a query
that is completed by the reply `i`, whatever the process and its state. -/
theorem results_intact_iff {throws : ℕ → Option Str} {db : Process} {from_addr client : Host}
    {s_buffer : Str} {i : InfoMsg} {st : QueryState} {top : Str × ℕ} {queue : List (Str × ℕ)}
    (hhead : s_buffer.headD 0 = ch 'I') (hread : readInfo s_buffer = .ok i)
    (hpending : db.pending i.request_id = some ⟨client, some st⟩)
    (hqueue : st.node_queue = top :: queue) (hname : top.1 = i.nameA)
    (hempty : (st.advance top queue i).node_queue = []) :
    ∃ db' m, runConnection throws db from_addr s_buffer = .ok (db', [⟨client, .response m⟩]) ∧
      m.message = completeText (st.advance top queue i).response ∧
      m.request_id = i.request_id ∧
      (Intact m.message (Msg.response m).buffer ↔
        resultSize st top i ≤ 979 ∧ 0 ≤ i.request_id) := by
  refine ⟨{ db.close i.request_id with cud_blocking := false },
    ⟨completeText (st.advance top queue i).response, i.request_id⟩, ?_, rfl, rfl, ?_⟩
  · rw [runConnection_I hhead, hread, ok_bind]
    exact infoBranch_complete hpending hqueue hname hempty
  · obtain ⟨s, b, b₁, b₂, b₃, b₄, b₅, c₁, c₂, n₁, n₂, v, -, -, -, -, -, -, -, -, hid, -⟩ :=
      readInfo_ok hread
    have hrange := (takeNumber_ok (by decide) hid).2.2
    have hbegin : (completeText (st.advance top queue i).response).headD 0 ≠ ch 'n' := by
      show ch 'O' ≠ ch 'n'
      decide
    show Intact _ (parseNewMessageResponse _) ↔ _
    rw [intact_iff hbegin hrange.1 hrange.2, ShortText, length_completeText]
    show 20 + resultSize st top i ≤ 999 ∧ 0 ≤ i.request_id ↔ _
    omega

/-- A server that waits for the reply to the only node of a query with `--attr`. -/
def answering : Process where
  server := true
  repository := true
  repositories := []
  cud_blocking := true
  current_request := 2
  pending := Function.update (fun _ => none) 1 (some ⟨⟨str "10.0.0.9", 9⟩,
    some (QueryState.start ⟨str "a", 0, false, true, [], 1⟩)⟩)
  storage := Storage.empty

/-- The reply for that node, which has one attribute. -/
def oneNode (value : Str) : InfoMsg := ⟨str "a", [⟨[], str "k", value⟩], [], 1, true⟩

theorem readInfo_oneNode {value : Str} (h : ShortText value) :
    readInfo (Msg.info (oneNode value)).buffer = .ok (oneNode value) := by
  apply readInfo_parseNewInfoResponse
  have hname : ShortText (str "a") := by decide
  have hkey : ShortText (str "k") := by decide
  refine ⟨hname, Nat.zero_le 9, List.forall_mem_nil _, Nat.le_of_ble_eq_true rfl, ?_, ?_⟩
  · intro a ha
    rw [List.mem_singleton.mp ha]
    exact ⟨hkey, h⟩
  · show ShortId 1
    decide

theorem results_intact_short : ∃ db' m,
    runConnection noThrow answering ⟨str "10.0.0.3", 3⟩ (Msg.info (oneNode (str "v"))).buffer =
      .ok (db', [⟨⟨str "10.0.0.9", 9⟩, .response m⟩]) ∧
    Intact m.message (Msg.response m).buffer := by
  have hread := readInfo_oneNode (show ShortText (str "v") by decide)
  obtain ⟨db', m, hrun, -, -, hiff⟩ := @results_intact_iff noThrow answering ⟨str "10.0.0.3", 3⟩
    _ _ _ _ _ _ rfl hread rfl rfl rfl rfl
  exact ⟨db', m, hrun, hiff.mpr ⟨by decide, by decide⟩⟩

/-- An attribute value of 960 bytes makes the text longer than 999 bytes. -/
theorem results_not_intact : ¬ ∀ (db : Process) (from_addr client : Host) (i : InfoMsg)
    (st : QueryState) (top : Str × ℕ) (queue : List (Str × ℕ)),
    readInfo (Msg.info i).buffer = .ok i →
    db.pending i.request_id = some ⟨client, some st⟩ →
    st.node_queue = top :: queue → top.1 = i.nameA → (st.advance top queue i).node_queue = [] →
    ∃ db' m, runConnection noThrow db from_addr (Msg.info i).buffer =
      .ok (db', [⟨client, .response m⟩]) ∧
      m.message = completeText (st.advance top queue i).response ∧
      Intact m.message (Msg.response m).buffer := by
  intro h
  have hshort : ShortText (List.replicate 960 (ch 'v')) := by
    show (List.replicate 960 (ch 'v')).length ≤ 999
    rw [List.length_replicate]
    omega
  obtain ⟨db', m, -, hm, hfield, -⟩ := h answering ⟨str "10.0.0.3", 3⟩ _ _ _ _ _
    (readInfo_oneNode hshort) rfl rfl rfl rfl
  have hlen := lengthField_iff.mp hfield
  rw [hm, ShortText, length_completeText] at hlen
  have hsize : resultSize (QueryState.start ⟨str "a", 0, false, true, [], 1⟩) (str "a", 0)
      (oneNode (List.replicate 960 (ch 'v'))) = 982 := by
    decide +kernel
  exact absurd (hsize ▸ hlen) (by decide)

end DGDB
