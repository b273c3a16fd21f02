import Pans.Lib.Delimiter
import Pans.Utils.Backtrace
import Pans.Utils.TypeName

/-!
# Searching for delimiters

`find` from the end of a known prefix on, in terms of the word in front of the delimiter.
-/

namespace Pans

open Delimiter

section

variable (pre : Bytes) {s : Bytes} {c : Byte}

theorem find_of_mem (h : c ∈ s) : find (pre ++ s) c pre.length = some (pre.length + (word c s).length) := by
  simp [find, findIdx?_of_mem h, Nat.add_comm]

theorem find_of_not_mem (h : c ∉ s) : find (pre ++ s) c pre.length = none := by
  simp [find, findIdx?_of_not_mem h]

/-- The search starts in front of a text without the delimiter. -/
theorem find_skip {pre : Bytes} (hpre : c ∉ pre) (h : c ∈ s) :
    find (pre ++ s) c 0 = some (pre.length + (word c s).length) := by
  have hall : c ∈ pre ++ s := List.mem_append_right pre h
  simp [find, findIdx?_of_mem hall, word_append_of_not_mem hpre]

theorem substr_word (c : Byte) (s : Bytes) : substr (pre ++ s) pre.length (word c s).length = word c s := by
  simpa [substr] using List.prefix_iff_eq_take.mp word_prefix |>.symm

end

/-! ## Type names -/

/-- `c` ends the name, unless it is where the name begins. -/
def cutAt (c : Byte) (s : Bytes) : Bytes := if word c s = [] then s else word c s

theorem cutAt_ne {c : Byte} {t rest : Bytes} (h : c ∈ t) (hrest : rest ≠ []) : cutAt c (t ++ rest) ≠ t := by
  unfold cutAt
  split
  · simpa using hrest
  · intro heq
    rw [← heq] at h
    exact not_mem_word h

theorem cutAt_delimited_eq_iff {c : Byte} {t rest : Bytes} (ht : t ≠ []) : cutAt c (t ++ c :: rest) = t ↔ c ∉ t := by
  constructor
  · intro heq hmem
    exact cutAt_ne hmem (List.cons_ne_nil c rest) heq
  · intro hmem
    rw [cutAt, word_delimited hmem, if_neg ht]

theorem findText_marker {pre : Bytes} (s : Bytes) (hpre : byte '=' ∉ pre) :
    findText (ascii "T = ") (pre ++ (ascii "T = " ++ s)) = some pre.length := by
  have hmarker : ascii "T = " = [byte 'T', byte ' ', byte '=', byte ' '] := rfl
  induction pre with
  | nil => simp [hmarker, findText]
  | cons b pre ih =>
      rw [List.mem_cons, not_or] at hpre
      -- The third byte of an earlier marker would be one of `pre`, or the 'T' or the blank of the marker itself.
      have hno : ¬(ascii "T = ").isPrefixOf (b :: (pre ++ (ascii "T = " ++ s))) := by
        rw [List.isPrefixOf_iff_prefix, hmarker]
        rintro ⟨rest, hrest⟩
        match pre, hpre.2 with
        | [], _ => simp [show byte ' ' ≠ byte 'T' by decide] at hrest
        | [c], _ => simp [show byte '=' ≠ byte 'T' by decide] at hrest
        | c :: d :: pre, h => simp_all
      rw [List.cons_append, findText, if_neg hno, ih hpre.2, Option.map_some, List.length_cons]

section

variable {pre s : Bytes} (hpre : byte '=' ∉ pre)

include hpre

/-- Where the search for the end stops at `c`. -/
theorem extractTypeName_eq {c : Byte}
    (hend : ∀ pos, pos = pre.length + 4 →
      (if (find (pre ++ (ascii "T = " ++ s)) (byte ';') pos).isSome then find (pre ++ (ascii "T = " ++ s)) (byte ';') pos
        else find (pre ++ (ascii "T = " ++ s)) (byte ']') 0) = some (pos + (word c s).length)) :
    extractTypeName (pre ++ (ascii "T = " ++ s)) = cutAt c s := by
  have hlength : (ascii "T = ").length = 4 := rfl
  have hsubstr := substr_word (pre ++ ascii "T = ") c s
  have hdrop : (pre ++ (ascii "T = " ++ s)).drop (pre.length + 4) = s := by
    rw [← List.append_assoc, List.drop_left' (by simp [hlength])]
  rw [List.append_assoc, List.length_append, hlength] at hsubstr
  simp only [extractTypeName, findText_marker s hpre, hlength, hend _ rfl, hdrop, Nat.add_sub_cancel_left, hsubstr,
    cutAt]
  by_cases hempty : word c s = []
  · simp [hempty]
  · have hpos := List.length_pos_iff.mpr hempty
    rw [if_neg (by omega), if_neg hempty]

theorem extractTypeName_semicolon (hs : byte ';' ∈ s) :
    extractTypeName (pre ++ (ascii "T = " ++ s)) = cutAt (byte ';') s := by
  apply extractTypeName_eq hpre
  rintro _ rfl
  have hfind := find_of_mem (pre ++ ascii "T = ") hs
  rw [List.append_assoc, List.length_append] at hfind
  rw [show pre.length + 4 = pre.length + (ascii "T = ").length from rfl, hfind]
  rfl

theorem extractTypeName_bracket (hbracket : byte ']' ∉ pre) (hs : byte ';' ∉ s) (hs' : byte ']' ∈ s) :
    extractTypeName (pre ++ (ascii "T = " ++ s)) = cutAt (byte ']') s := by
  apply extractTypeName_eq hpre
  rintro _ rfl
  have hnone := find_of_not_mem (pre ++ ascii "T = ") hs
  have hskip : byte ']' ∉ pre ++ ascii "T = " := by
    rw [List.mem_append, not_or]
    exact ⟨hbracket, by decide⟩
  have hfind := find_skip hskip hs'
  rw [List.append_assoc, List.length_append] at hnone hfind
  rw [show pre.length + 4 = pre.length + (ascii "T = ").length from rfl, hnone, hfind]
  rfl

end

section

variable (declaration : Declaration)

theorem extractTypeName_gcc (t : Bytes) :
    extractTypeName (gccSignature declaration t) =
      cutAt (byte ';') (t ++ byte ';' :: ascii " std::string_view = std::basic_string_view<char>]") := by
  have hpre : byte '=' ∉ declaration.val ++ ascii "TypeNameProbe() [with " := by
    simpa [declaration.property.1] using (by decide : byte '=' ∉ ascii "TypeNameProbe() [with ")
  have hs := List.mem_append_right t
    (List.mem_cons_self (a := byte ';') (l := ascii " std::string_view = std::basic_string_view<char>]"))
  rw [← extractTypeName_semicolon hpre hs]
  congr 1
  simp [gccSignature, ascii]

theorem clangSignature_eq (t : Bytes) :
    clangSignature declaration t =
      declaration.val ++ ascii "TypeNameProbe() [" ++ (ascii "T = " ++ (t ++ [byte ']'])) := by
  simp [clangSignature, ascii]

theorem extractTypeName_clang (t : Bytes) :
    extractTypeName (clangSignature declaration t) =
      if byte ';' ∈ t then cutAt (byte ';') (t ++ [byte ']']) else cutAt (byte ']') (t ++ [byte ']']) := by
  have hpre : byte '=' ∉ declaration.val ++ ascii "TypeNameProbe() [" := by
    simpa [declaration.property.1] using (by decide : byte '=' ∉ ascii "TypeNameProbe() [")
  have hbracket : byte ']' ∉ declaration.val ++ ascii "TypeNameProbe() [" := by
    simpa [declaration.property.2] using (by decide : byte ']' ∉ ascii "TypeNameProbe() [")
  rw [clangSignature_eq]
  split
  · rename_i hmem
    exact extractTypeName_semicolon hpre (List.mem_append_left _ hmem)
  · rename_i hmem
    have hs : byte ';' ∉ t ++ [byte ']'] := by simpa [hmem] using (by decide : byte ';' ≠ byte ']')
    exact extractTypeName_bracket hpre hbracket hs (by simp)

end

/-! ## Frames -/

theorem find_nameBegin {before : Bytes} (rest : Bytes) (h : byte '(' ∉ before) :
    find (before ++ byte '(' :: rest) (byte '(') 0 = some before.length := by
  simpa using find_skip h (List.mem_cons_self (a := byte '(') (l := rest))

/-- The name behind the first parenthesis ends at a '+', or else at a ')'. -/
theorem mangledName_eq {before : Bytes} (rest : Bytes) (h : byte '(' ∉ before) :
    mangledName (before ++ byte '(' :: rest) =
      if byte '+' ∈ rest then nonEmpty (word (byte '+') rest)
      else if byte ')' ∈ rest then nonEmpty (word (byte ')') rest)
      else none := by
  have hsplit : before ++ byte '(' :: rest = before ++ [byte '('] ++ rest := by simp
  have hlength : before.length + 1 = (before ++ [byte '(']).length := by simp
  have hpick (c : Byte) :
      (if before.length + 1 + (word c rest).length = before.length + 1 then none
        else some (substr (before ++ byte '(' :: rest) (before.length + 1)
          (before.length + 1 + (word c rest).length - (before.length + 1)))) = nonEmpty (word c rest) := by
    rw [Nat.add_sub_cancel_left, hsplit, hlength, substr_word]
    simp [nonEmpty]
  simp only [mangledName, find_nameBegin rest h]
  split_ifs with hplus hclose
  · have hfind := find_of_mem (before ++ [byte '(']) hplus
    rw [← hlength, ← hsplit] at hfind
    simp only [hfind, hpick]
  · have hnone := find_of_not_mem (before ++ [byte '(']) hplus
    have hfind := find_of_mem (before ++ [byte '(']) hclose
    rw [← hlength, ← hsplit] at hnone hfind
    simp only [hnone, hfind, hpick]
  · have hnone := find_of_not_mem (before ++ [byte '(']) hplus
    have hnone' := find_of_not_mem (before ++ [byte '(']) hclose
    rw [← hlength, ← hsplit] at hnone hnone'
    simp only [hnone, hnone']

theorem nonEmpty_inj {s t : Bytes} : nonEmpty s = nonEmpty t ↔ s = t := by
  unfold nonEmpty
  split_ifs <;> simp_all

theorem hexDigits_no_plus (n : Nat) : byte '+' ∉ hexDigits n := by
  have hdigit : ∀ k, k < 16 → byte '+' ≠ hexDigit k := by decide
  induction n using Nat.strong_induction_on with
  | _ n ih =>
      rw [hexDigits]
      split
      · rename_i hlt
        simpa using hdigit n hlt
      · rename_i hge
        have hrest := ih (n / 16) (Nat.div_lt_self (by omega) (by decide))
        simpa [hrest] using hdigit (n % 16) (Nat.mod_lt _ (by decide))

theorem IsIdentifierChar.ne {b : Byte} (h : IsIdentifierChar b) : b ≠ byte '+' ∧ b ≠ byte ')' ∧ b ≠ 0 := by
  refine ⟨?_, ?_, ?_⟩ <;>
    · rintro rfl
      revert h
      simp only [IsIdentifierChar]
      decide

section

variable {m s : Bytes} (hs : ∀ b ∈ s, IsIdentifierChar b)

include hs

theorem not_mem_symbol : byte '+' ∉ s ∧ byte ')' ∉ s :=
  ⟨fun h => (hs _ h).ne.1 rfl, fun h => (hs _ h).ne.2.1 rfl⟩

theorem mangledName_offsetFrame (offset address : Nat) :
    mangledName (offsetFrame m s offset address) = nonEmpty s ↔ FirstWithOffset m s := by
  obtain ⟨hplus, _⟩ := not_mem_symbol hs
  rw [offsetFrame, FirstWithOffset]
  by_cases hm : byte '(' ∈ m
  · obtain ⟨before, m', rfl, hbefore⟩ := List.eq_append_cons_of_mem hm
    rw [List.append_assoc, List.cons_append, mangledName_eq _ hbefore, if_pos (by simp), nonEmpty_inj,
      word_behind_eq_iff (by decide) hplus]
    constructor
    · rintro ⟨after, rfl⟩
      exact .inr ⟨before, after, hbefore, rfl⟩
    · rintro (hno | ⟨before', after, hbefore', heq⟩)
      · exact absurd hm hno
      · exact ⟨after, ((delimited_inj hbefore hbefore').mp heq).2⟩
  · rw [mangledName_eq _ hm, if_pos (by simp), word_delimited hplus]
    simp [hm]

theorem mangledName_plainFrame (address : Nat) :
    mangledName (plainFrame m s address) = nonEmpty s ↔ FirstWithout m s := by
  obtain ⟨hplus, hclose⟩ := not_mem_symbol hs
  have htail : byte '+' ∉ ascii " [0x" ++ hexDigits address ++ ascii "]" := by
    have hends : byte '+' ∉ ascii " [0x" ∧ byte '+' ∉ ascii "]" := by decide
    simp [hends, hexDigits_no_plus]
  have hframe : byte '+' ∉ s ++ byte ')' :: (ascii " [0x" ++ hexDigits address ++ ascii "]") := by
    simpa [hplus, show byte '+' ≠ byte ')' by decide] using htail
  rw [plainFrame, FirstWithout, FirstWithOffset]
  by_cases hm : byte '(' ∈ m
  · obtain ⟨before, m', rfl, hbefore⟩ := List.eq_append_cons_of_mem hm
    rw [List.append_assoc, List.cons_append, mangledName_eq _ hbefore]
    by_cases hm' : byte '+' ∈ m'
    · rw [if_pos (by simp [hm']), nonEmpty_inj, word_append_of_mem hm', word_eq_iff hm' hplus]
      constructor
      · rintro ⟨after, rfl⟩
        exact .inl (.inr ⟨before, after, hbefore, rfl⟩)
      · rintro ((hno | ⟨before', after, hbefore', heq⟩) | ⟨before', after, hbefore', hafter, heq⟩)
        · exact absurd hm hno
        · exact ⟨after, ((delimited_inj hbefore hbefore').mp heq).2⟩
        · obtain ⟨_, rfl⟩ := (delimited_inj hbefore hbefore').mp heq
          simp [hplus, hafter, show byte '+' ≠ byte ')' by decide] at hm'
    · have hrest : byte '+' ∉ m' ++ byte '(' :: (s ++ byte ')' :: (ascii " [0x" ++ hexDigits address ++ ascii "]")) := by
        simpa [hm', show byte '+' ≠ byte '(' by decide] using hframe
      rw [if_neg hrest, if_pos (by simp), nonEmpty_inj, word_behind_eq_iff (by decide) hclose]
      constructor
      · rintro ⟨after, rfl⟩
        have hafter : byte '+' ∉ after := by simp_all
        exact .inr ⟨before, after, hbefore, hafter, rfl⟩
      · rintro ((hno | ⟨before', after, hbefore', heq⟩) | ⟨before', after, hbefore', _, heq⟩)
        · exact absurd hm hno
        · obtain ⟨_, rfl⟩ := (delimited_inj hbefore hbefore').mp heq
          simp at hm'
        · exact ⟨after, ((delimited_inj hbefore hbefore').mp heq).2⟩
  · rw [mangledName_eq _ hm, if_neg hframe, if_pos (by simp), word_delimited hclose]
    simp [hm]

end

theorem mangledName_no_parenthesis {text : Bytes} (h : byte '(' ∉ text) : mangledName text = nonEmpty [] := by
  have hnone := find_of_not_mem [] h
  rw [List.nil_append, List.length_nil] at hnone
  simp only [mangledName, hnone, nonEmpty, if_true]

end Pans
