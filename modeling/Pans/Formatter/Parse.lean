import Pans.Formatter.Item

/-!
# `Formatter::parse`

`items_` is a vector of pointers while it is filled; a null pointer is `none`. The failed assertions return
-1, -2 and -3. Their FATAL records are no part of the result.
-/

namespace Pans

namespace Formatter

/-- Flushes the pending literal and clears it. -/
def addLiteral (literal : Bytes) (items : List (Option FormatItem)) : Bytes × List (Option FormatItem) :=
  if literal.isEmpty then (literal, items) else ([], items ++ [some (.literal literal)])

/-- The loop of `parse` from `index` on, with the pending literal and the items so far. -/
def parseLoop (pattern : Bytes) (index : Nat) (literal : Bytes) (items : List (Option FormatItem)) :
    Except Int (Bytes × List (Option FormatItem)) :=
  if h : index < pattern.length then
    if pattern[index] ≠ byte '%' then
      parseLoop pattern (index + 1) (literal ++ [pattern[index]]) items
    else if h' : index + 1 < pattern.length then
      let directive := pattern[index + 1]
      if directive = byte '%' then
        parseLoop pattern (index + 2) (literal ++ [byte '%']) items
      else
        let flushed := addLiteral literal items
        -- `index` has moved to the directive, so the brace is searched one further.
        if pattern[index + 2]? = some (byte '{') then
          match hc : find pattern (byte '}') (index + 3) with
          | none => .error (-2)
          | some closingBrace =>
              if closingBrace ≠ index + 3 then
                have := find_ge hc
                let itemFormat := substr pattern (index + 3) (closingBrace - (index + 3))
                parseLoop pattern (closingBrace + 1) flushed.1
                  (flushed.2 ++ [createFormatItem directive itemFormat])
              else .error (-2)
        else parseLoop pattern (index + 2) flushed.1 (flushed.2 ++ [createFormatItem directive []])
    else .error (-1)
  else .ok (literal, items)
termination_by pattern.length - index

/-- The last loop of `parse`: every item is asserted to be non-null. -/
def nonNull : List (Option FormatItem) → Option (List FormatItem)
  | [] => some []
  | none :: _ => none
  | some item :: items => (nonNull items).map (item :: ·)

def parse (pattern : Bytes) : Except Int (List FormatItem) :=
  match parseLoop pattern 0 [] [] with
  | .error code => .error code
  | .ok (literal, items) =>
      match nonNull (addLiteral literal items).2 with
      | none => .error (-3)
      | some items => .ok items

end Formatter

/-- A constructed `Formatter`. The constructor throws unless `parse` returns 0, so the items are the parsed
ones and none of them is null. -/
structure Formatter where
  pattern : Bytes
  items : List FormatItem
  parsed : Formatter.parse pattern = .ok items
  deriving DecidableEq

/-- The constructor; `none` is the thrown `std::invalid_argument`. -/
def Formatter.new (pattern : Bytes) : Option Formatter :=
  match h : Formatter.parse pattern with
  | .ok items => some ⟨pattern, items, h⟩
  | .error _ => none

end Pans
