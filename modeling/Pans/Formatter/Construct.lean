import Pans.Formatter.Format
import Pans.Lib.Outcome

/-!
# The constructor of `Formatter`

`parse` with the assertions that it logs on its way. What a failed assertion does to the process is left open.
-/

namespace Pans

section

variable {S : Type} (assertFailed : AssertFailure → S → Outcome S Unit)

/-- `ASSERT_RETVAL2` on a condition that does not hold. -/
def assertRetVal {α : Type} (failure : AssertFailure) (value : α) (s : S) : Outcome S α :=
  (assertFailed failure s).bind fun s _ => .done s value

def createFormatItemAsserting (directive : Byte) (format : Bytes) (s : S) : Outcome S (Option FormatItem) :=
  match getFormatItemFactories.lookup directive with
  | none => assertRetVal assertFailed
      ⟨ascii "it != factories.end()", ascii "unknown logger format directive: " ++ [directive]⟩ none s
  | some factory => .done s (some (factory format))

namespace Formatter

def incompleteDirective : AssertFailure :=
  ⟨ascii "index + 1 < pattern_.size()", ascii "logger format pattern ends with an incomplete directive"⟩

def missingCloseBrace : AssertFailure :=
  ⟨ascii "closing_brace != std::string::npos && closing_brace != (index + 2)", ascii "missing a close brace or empty"⟩

def nullFormatItem : AssertFailure :=
  ⟨ascii "item != nullptr", ascii "logger formatter contains a null format item"⟩

def parseLoopAsserting (pattern : Bytes) (index : Nat) (literal : Bytes) (items : List (Option FormatItem)) (s : S) :
    Outcome S (Except Int (Bytes × List (Option FormatItem))) :=
  if h : index < pattern.length then
    if pattern[index] ≠ byte '%' then
      parseLoopAsserting pattern (index + 1) (literal ++ [pattern[index]]) items s
    else if h' : index + 1 < pattern.length then
      let directive := pattern[index + 1]
      if directive = byte '%' then
        parseLoopAsserting pattern (index + 2) (literal ++ [byte '%']) items s
      else
        let flushed := addLiteral literal items
        if pattern[index + 2]? = some (byte '{') then
          match hc : find pattern (byte '}') (index + 3) with
          | none => assertRetVal assertFailed missingCloseBrace (.error (-2)) s
          | some closingBrace =>
              if closingBrace ≠ index + 3 then
                have := find_ge hc
                let itemFormat := substr pattern (index + 3) (closingBrace - (index + 3))
                (createFormatItemAsserting assertFailed directive itemFormat s).bind fun s item =>
                  parseLoopAsserting pattern (closingBrace + 1) flushed.1 (flushed.2 ++ [item]) s
              else assertRetVal assertFailed missingCloseBrace (.error (-2)) s
        else
          (createFormatItemAsserting assertFailed directive [] s).bind fun s item =>
            parseLoopAsserting pattern (index + 2) flushed.1 (flushed.2 ++ [item]) s
    else assertRetVal assertFailed incompleteDirective (.error (-1)) s
  else .done s (.ok (literal, items))
termination_by pattern.length - index

def nonNullAsserting : List (Option FormatItem) → S → Outcome S (Except Int (List FormatItem))
  | [], s => .done s (.ok [])
  | none :: _, s => assertRetVal assertFailed nullFormatItem (.error (-3)) s
  | some item :: items, s => (nonNullAsserting items s).bind fun s result => .done s (result.map (item :: ·))

def parseAsserting (pattern : Bytes) (s : S) : Outcome S (Except Int (List FormatItem)) :=
  (parseLoopAsserting assertFailed pattern 0 [] [] s).bind fun s result =>
    match result with
    | .error code => .done s (.error code)
    | .ok (literal, items) => nonNullAsserting assertFailed (addLiteral literal items).2 s

/-- The constructor throws `std::invalid_argument` unless `parse` returns 0. The last branch is never taken:
the assertions do not change what `parse` finds. -/
def construct (pattern : Bytes) (s : S) : Outcome S Formatter :=
  (parseAsserting assertFailed pattern s).bind fun s result =>
    match result with
    | .error _ => .threw s
    | .ok items => if parsed : parse pattern = .ok items then .done s ⟨pattern, items, parsed⟩ else .undefined

end Formatter

end

end Pans
