import Pans.Basic

/-!
# `TypeName`

The spelling of a type, cut out of the signature that the compiler gives of a function template.
-/

namespace Pans

/-- `std::string_view::find(text)`; `none` is `npos`. -/
def findText (text : Bytes) : Bytes → Option Nat
  | [] => if text.isEmpty then some 0 else none
  | b :: s => if text.isPrefixOf (b :: s) then some 0 else (findText text s).map (· + 1)

/-- `TypeNameProbe` yields the signature. -/
def extractTypeName (signature : Bytes) : Bytes :=
  let marker := ascii "T = "
  match findText marker signature with
  | none => signature
  | some markerPos =>
      let begin := markerPos + marker.length
      let semicolon := find signature (byte ';') begin
      let bracket := find signature (byte ']') 0
      match if semicolon.isSome then semicolon else bracket with
      | none => signature.drop begin
      | some endPos => if endPos ≤ begin then signature.drop begin else substr signature begin (endPos - begin)

/-! ## Signatures -/

/-- What a signature says before the name of the probe: specifiers, type and namespace. -/
abbrev Declaration := {text : Bytes // byte '=' ∉ text ∧ byte ']' ∉ text}

def gccSignature (declaration : Declaration) (t : Bytes) : Bytes :=
  declaration.val ++ ascii "TypeNameProbe() [with T = " ++ t ++
    ascii "; std::string_view = std::basic_string_view<char>]"

def clangSignature (declaration : Declaration) (t : Bytes) : Bytes :=
  declaration.val ++ ascii "TypeNameProbe() [T = " ++ t ++ ascii "]"

end Pans
