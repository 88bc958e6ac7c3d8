import Mathlib
import DGDB.Correlation
import DGDB.Widths

/-!
# Request ids on the wire

`current_request` only grows, and the wire gives an id three digits. An id keeps its value on the
way to a repository and back exactly if it is below 1000.
-/

namespace DGDB

open EventSystem

section Below

variable {s_buffer : Str}

end Below

/-! ## Ids of three digits -/

section Encoded

/-- The fields in front of the id have their widths; the host list stands behind it. -/
def Msg.TextsFit : Msg → Prop
  | .node m => ({ m with request_id := 0, master_repos := [] } : NodeMsg).Fits
  | .query m => ({ m with request_id := 0 } : QueryMsg).Fits
  | .update m => ({ m with request_id := 0 } : UpdateMsg).Fits
  | .delete m => ({ m with request_id := 0, master_repos := [] } : DeleteMsg).Fits
  | .response m => ShortText m.message
  | .info i => ({ i with request_id := 0 } : InfoMsg).Fits
  | .register => False

end Encoded

/-! ## Forwarded requests -/

section Forwarded

variable {db db' : Process} {from_addr : Host} {s_buffer : Str} {out : List Send}

/-- The object of a `D` is a digit, as the clients write it. -/
def DigitObject (s_buffer : Str) : Prop :=
  s_buffer.headD 0 = ch 'D' →
    ∀ d, readDelete s_buffer = .ok d → 0 ≤ d.fields.object ∧ d.fields.object ≤ 9

theorem textsFit_write (hlen : s_buffer.length < 2 ^ 63) (hobject : DigitObject s_buffer)
    {msg : Msg} (h : IsWrite db s_buffer msg) :
    msg.TextsFit ∧ msg.request_id = db.current_request ∧ msg.IsForwarded db.repositories := by
  rcases h with ⟨d, hd, rfl⟩ | ⟨d, hd, rfl⟩ | ⟨hhead, d, hd, rfl⟩
  · have hfits := readNode_fits hlen hd
    exact ⟨⟨hfits.name, hfits.relations_length, hfits.relations, hfits.attributes_length,
      hfits.attributes, hfits.id, by simp, by simp⟩, rfl, rfl⟩
  · exact ⟨readUpdate_fits hlen hd, rfl, trivial⟩
  · obtain ⟨hname, hattr⟩ := readDelete_fits hlen hd
    exact ⟨⟨hname, hobject hhead d hd, hattr, by simp [ShortId], by simp, by simp⟩, rfl, rfl⟩

theorem ServerStep.forwarded (h : ServerStep db from_addr s_buffer db' out)
    (hlen : s_buffer.length < 2 ^ 63) (hobject : DigitObject s_buffer)
    (haccepted : db'.current_request = db.current_request + 1) :
    ∃ host msg, out = [⟨host, msg⟩] ∧ msg.TextsFit ∧ msg.request_id = db.current_request ∧
      msg.IsForwarded db.repositories := by
  have hno : db.current_request ≠ db.current_request + 1 := Nat.ne_of_lt (Nat.lt_succ_self _)
  cases h with
  | @write host msg _ _ _ _ hmsg =>
    exact ⟨host, msg, rfl, textsFit_write hlen hobject hmsg⟩
  | @query host d _ hread =>
    exact ⟨host, _, rfl, readQuery_fits hlen hread, rfl, trivial⟩
  | info _ _ hstep => cases hstep <;> exact absurd haccepted hno
  | _ => exact absurd haccepted hno

end Forwarded

/-! ## Replies of a repository -/

section Replies

variable {throws : ℕ → Option Str} {main from_addr : Host} {db db' : Process} {s_buffer : Str}
  {out : List Send}

end Replies

/-! ## The id on its way -/

/-- The server's answers carry the number of the request they belong to. -/
def Labelled (cfg : Config) (w : World) : Prop :=
  ∀ a ∈ w.sent, a.src = cfg.address → a.msg.isResponse = true → a.msg.request_id = a.req

section Runs

variable {cfg : Config} {w w' : World} {a : Envelope} {rest : Multiset Envelope}

theorem Labelled.post (h : Labelled cfg w) {es : List Envelope}
    (hes : ∀ b ∈ es, b.src = cfg.address → b.msg.isResponse = true → b.msg.request_id = b.req)
    (hsent : w'.sent = w.sent ++ es) : Labelled cfg w' := by
  intro b hb
  rw [hsent] at hb
  rcases List.mem_append.mp hb with hb | hb
  · exact h b hb
  · exact hes b hb

theorem Labelled.stamp {host : Host} (hhost : host ∈ cfg.repos) (req : ℕ) (out : List Send) :
    ∀ b ∈ World.stamp host req out, b.src = cfg.address → b.msg.isResponse = true →
      b.msg.request_id = b.req := by
  intro b hb hsrc
  obtain ⟨s, -, rfl⟩ := List.mem_map.mp hb
  exact absurd (hsrc ▸ hhost) cfg.apart

theorem Labelled.turn (hinv : w.Inv cfg) (h : Labelled cfg w) (htransit : w.transit = a ::ₘ rest)
    (hturn : Turn cfg { w with transit := rest } a w') : Labelled cfg w' := by
  have hplaced := hinv.placed a (by simp [htransit])
  cases hturn with
  | busy hdst hsrc hmsg _ _ =>
    refine h.post (fun b hb _ _ => ?_) rfl
    rw [List.mem_singleton.mp hb]
    cases hplaced with
    | request _ _ _ hreq => rw [hreq]; rfl
    | answer _ hclient _ => exact absurd hdst hclient.1
    | secondary hrepo _ _ => exact absurd hrepo hsrc.2
    | forwarded haddr _ _ _ _ => exact absurd haddr hsrc.1
    | reply hrepo _ _ _ _ => exact absurd hrepo hsrc.2
  | accept _ _ hmsg _ =>
    refine h.post (fun b hb _ hresponse => ?_) rfl
    rw [List.mem_singleton.mp hb] at hresponse
    rw [(hmsg.forwarded _ _).2.2] at hresponse
    cases hresponse
  | response hdst hsrc hmsg _ =>
    obtain ⟨hid, -⟩ := hplaced.at_server hdst hsrc
    refine h.post (fun b hb _ _ => ?_) rfl
    rw [List.mem_singleton.mp hb, ← hid, hmsg]
  | complete hdst hsrc hmsg _ _ _ =>
    obtain ⟨hid, -⟩ := hplaced.at_server hdst hsrc
    refine h.post (fun b hb _ _ => ?_) rfl
    rw [List.mem_singleton.mp hb, ← hid, hmsg]
    rfl
  | next _ _ _ _ _ _ _ =>
    refine h.post (fun b hb _ hresponse => ?_) rfl
    rw [List.mem_singleton.mp hb] at hresponse
    cases hresponse
  | stored hdst _ _ _ => exact h.post (Labelled.stamp hdst _ _) rfl
  | @asked m hdst _ =>
    exact h.post (Labelled.stamp hdst _ [⟨cfg.address, .info (queryReply _ m)⟩]) rfl
  | @updated m hdst _ =>
    exact h.post (Labelled.stamp hdst _ [⟨cfg.address, .response ⟨updatedText, m.request_id⟩⟩]) rfl
  | deleted hdst _ _ _ => exact h.post (Labelled.stamp hdst _ _) rfl
  | taken _ => exact h

end Runs

/-! ### The first request and the thousandth -/

/-- A node without relations and attributes. -/
def plainNode : NodeMsg := ⟨str "a", [], [], 0, []⟩

theorem plainNode_fits : plainNode.Fits := by decide

end DGDB
