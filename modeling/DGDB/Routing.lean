import Mathlib
import DGDB.Server

/-!
# The repository of a name

For a name that starts with an ASCII byte, every place of the program that chooses a repository
chooses `owner`. A byte above 127 is a negative `char`, on which `size_t` and `int` remainders
differ.
-/

namespace DGDB

/-- A name that starts with an ASCII byte. -/
def AsciiName (name : Str) : Prop := name ≠ [] ∧ (name.headD 0).toNat < 128

instance (name : Str) : Decidable (AsciiName name) := inferInstanceAs (Decidable (_ ∧ _))

/-- The index of the repository of `name` in a host list of length `size`. -/
def ownerIndex (size : ℕ) (name : Str) : ℕ := (name.headD 0).toNat % (size - 1) + 1

/-- The repository of `name` in the host list `hosts`. -/
def owner (hosts : List Host) (name : Str) : Host :=
  (hosts[ownerIndex hosts.length name]?).getD Pending.fresh.client_sock

section Owner

variable {hosts : List Host} {name : Str}

theorem ownerIndex_pos (size : ℕ) (name : Str) : 1 ≤ ownerIndex size name :=
  Nat.le_add_left 1 _

theorem ownerIndex_lt {size : ℕ} (h2 : 2 ≤ size) (name : Str) : ownerIndex size name < size := by
  have := Nat.mod_lt (name.headD 0).toNat (show 0 < size - 1 by omega)
  unfold ownerIndex
  omega

theorem getElem?_ownerIndex (h2 : 2 ≤ hosts.length) (name : Str) :
    hosts[ownerIndex hosts.length name]? = some (owner hosts name) := by
  unfold owner
  rw [List.getElem?_eq_getElem (ownerIndex_lt h2 name)]
  rfl

/-- The owner is a registered repository, not the server's own entry. -/
theorem owner_mem (self : Host) {repos : List Host} (hne : repos ≠ []) (name : Str) :
    owner (self :: repos) name ∈ repos := by
  have h2 : 2 ≤ (self :: repos).length := by
    have := List.length_pos_iff.mpr hne
    simp only [List.length_cons]
    omega
  have hget := getElem?_ownerIndex h2 name
  obtain ⟨k, hk⟩ : ∃ k, ownerIndex (self :: repos).length name = k + 1 :=
    ⟨_, (Nat.sub_add_cancel (ownerIndex_pos _ _)).symm⟩
  rw [hk, List.getElem?_cons_succ] at hget
  exact List.mem_of_getElem? hget

theorem hostAt_ownerIndex (h2 : 2 ≤ hosts.length) (name : Str) :
    hostAt hosts (ownerIndex hosts.length name) = .ok (owner hosts name) :=
  hostAt_eq_ok.mpr ⟨by omega, by rw [Int.toNat_natCast]; exact getElem?_ownerIndex h2 name⟩

theorem indexPlusOne_ascii (hname : AsciiName name) {size : ℕ} (h2 : 2 ≤ size) :
    indexPlusOne (name.headD 0) size = .ok (ownerIndex size name : ℤ) := by
  unfold indexPlusOne ownerIndex
  rw [if_neg (by omega), signedChar_of_lt hname.2, toSizeT_natCast (by have := hname.2; omega)]
  rfl

theorem indexOfRelation_ascii (hname : AsciiName name) {size : ℕ} (h2 : 2 ≤ size) :
    indexOfRelation (name.headD 0) size = .ok (ownerIndex size name : ℤ) := by
  unfold indexOfRelation ownerIndex
  rw [if_neg (by omega), signedChar_of_lt hname.2,
    show ((size : ℤ) - 1) = ((size - 1 : ℕ) : ℤ) by omega, ← Int.ofNat_tmod]
  push_cast
  rfl

theorem host_eq_owner {r : ℕ} {host : Host} (hname : AsciiName name) (h2 : 2 ≤ hosts.length)
    (hr : indexPlusOne (name.headD 0) hosts.length = .ok (r : ℤ)) (hget : hosts[r]? = some host) :
    host = owner hosts name := by
  rw [indexPlusOne_ascii hname h2] at hr
  have hr' : ownerIndex hosts.length name = r := by
    injection hr with hr
    exact_mod_cast hr
  rw [← hr', getElem?_ownerIndex h2] at hget
  exact (Option.some.inj hget).symm

end Owner

end DGDB
