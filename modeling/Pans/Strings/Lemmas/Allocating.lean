import Pans.Lib.Transcode
import Pans.Strings.Allocating
import Pans.Strings.Lemmas.Unicode

/-!
# The conversions as translations into a growable array
-/

namespace Pans

namespace StringUtils

variable {S : Type} {limit : Nat} {assertFailed : AssertFailure → S → Outcome S Unit}

/-! ## The loops -/

section

variable {β γ : Type} {flaw : List β → AssertFailure} {pushBack : Nat → Allocation} {s : S}

end

/-! ## The first flaw -/

section

variable {β γ : Type} (C : SymbolCode UInt32 β) (D : SymbolCode UInt32 γ) {flaw : List β → AssertFailure}
  {exception : AssertFailure} {storage : Storage} {s : S}

theorem Storage.reserve_threw {size : Nat} {v : Growable γ limit}
    (h : storage.empty.reserve size storage.reserve = .threw v) : storage.Refuses limit size := by
  rw [Growable.reserve] at h
  split at h
  · exact .inl (by assumption)
  split at h
  · cases h
  rename_i hlimit hroom
  simp only [Storage.empty] at hroom
  split at h
  · exact .inr ⟨by omega, by assumption⟩
  · cases h

theorem Storage.Fails.refuses {size needed : Nat} (h : storage.Fails limit size needed) (hle : needed ≤ size) :
    storage.Refuses limit size := by
  obtain hrefuses | ⟨n, hsize, hlt, _⟩ := h
  · exact hrefuses
  · omega

/-- If the result takes up no more than the text, nothing is asked for after `reserve`. -/
theorem Ends.exact {size needed : Nat} {failure : AssertFailure} {result : Option (List γ)}
    {call : Outcome S (List γ)} (h : Ends assertFailed exception failure storage limit size needed s result call)
    (hle : needed ≤ size) :
    call = if storage.Refuses limit size then refused assertFailed exception s
      else granted assertFailed exception failure s result := by
  obtain ⟨hcall, hroom⟩ | ⟨hcall, hfails⟩ := h
  · rw [hcall, if_neg hroom]
  · rw [hcall, if_pos (hfails.refuses hle)]

end

end StringUtils

end Pans
