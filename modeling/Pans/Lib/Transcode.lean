import Pans.Lib.Codec
import Pans.Lib.Growable

/-!
# Translation into a growable array

A text is read in one code, and the words of the other go into an array that asks for storage as it grows. The
translation ends where nothing more can be read, or where a request for storage fails.
-/

namespace SymbolCode

variable {α β γ : Type*} (C : SymbolCode α β) (D : SymbolCode α γ)

/-! ## What can be read -/

section

variable {limit : Nat} (allocate : Nat → Allocation)

variable {allocate} {output output' : Growable γ limit} {s : List β}

end

end SymbolCode
