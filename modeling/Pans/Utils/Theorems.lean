import Pans.Utils.Lemmas.CallStack
import Pans.Utils.Lemmas.Search
import Pans.Utils.Lemmas.ThreadName

/-!
# Results about the utilities
-/

namespace Pans

open Delimiter

/-! ## Type names -/

section

variable (declaration : Declaration)

/-- The spelling is read back exactly if it does not contain what its end is searched by: a semicolon, and with Clang a
bracket either. Among these spellings, different ones have different names. -/
theorem extractTypeName_exact_iff :
    (∀ t, t ≠ [] →
      (extractTypeName (gccSignature declaration t) = t ↔ byte ';' ∉ t) ∧
      (extractTypeName (clangSignature declaration t) = t ↔ byte ';' ∉ t ∧ byte ']' ∉ t)) ∧
    ∀ t t', t ≠ [] → t' ≠ [] → byte ';' ∉ t → byte ';' ∉ t' →
      (extractTypeName (gccSignature declaration t) = extractTypeName (gccSignature declaration t') ↔ t = t') ∧
      (byte ']' ∉ t → byte ']' ∉ t' →
        (extractTypeName (clangSignature declaration t) = extractTypeName (clangSignature declaration t') ↔ t = t')) := by
  have hexact : ∀ t, t ≠ [] →
      (extractTypeName (gccSignature declaration t) = t ↔ byte ';' ∉ t) ∧
      (extractTypeName (clangSignature declaration t) = t ↔ byte ';' ∉ t ∧ byte ']' ∉ t) := by
    intro t ht
    rw [extractTypeName_gcc, extractTypeName_clang]
    refine ⟨cutAt_delimited_eq_iff ht, ?_⟩
    split
    · rename_i hmem
      simpa [hmem] using cutAt_ne hmem (List.cons_ne_nil (byte ']') [])
    · rename_i hmem
      simpa [hmem] using cutAt_delimited_eq_iff ht
  refine ⟨hexact, fun t t' ht ht' hsemicolon hsemicolon' => ⟨?_, fun hbracket hbracket' => ?_⟩⟩
  · rw [(hexact t ht).1.mpr hsemicolon, (hexact t' ht').1.mpr hsemicolon']
  · rw [(hexact t ht).2.mpr ⟨hsemicolon, hbracket⟩, (hexact t' ht').2.mpr ⟨hsemicolon', hbracket'⟩]

end

def Declaration.probe : Declaration := ⟨ascii "consteval std::string_view pans::detail::", by decide⟩

theorem extractTypeName_exact_iff_vector :
    extractTypeName (gccSignature .probe (ascii "std::vector<int>")) = ascii "std::vector<int>" :=
  ((extractTypeName_exact_iff .probe).1 (ascii "std::vector<int>") (by decide)).1.mpr (by decide)

/-- Arrays of arrays share the name of an array with Clang, and types local to two instances of a template with GCC. -/
theorem extractTypeName_cuts :
    extractTypeName (clangSignature .probe (ascii "int[3]")) = ascii "int[3" ∧
    extractTypeName (clangSignature .probe (ascii "int[3][4]")) = ascii "int[3" ∧
    extractTypeName (gccSignature .probe (ascii "f() [with T = int; U = char]::Local")) = ascii "f() [with T = int" ∧
    extractTypeName (gccSignature .probe (ascii "f() [with T = int; U = long int]::Local")) =
      ascii "f() [with T = int" := by
  decide +kernel

/-! ## Backtrace symbols -/

/-- The name between the parentheses of a frame, if there is one, goes to the demangler exactly if no parenthesis of the
path comes before it, or the path repeats the name there. Then the result is what the demangler makes of it, or the name
itself; a text without a name comes back as it is. -/
theorem demangleBacktraceSymbol_exact_iff (cxaDemangle : Bytes → Int × Option Bytes) :
    (∀ m s, (∀ b ∈ s, IsIdentifierChar b) → ∀ offset address,
      (mangledName (offsetFrame m s offset address) = nonEmpty s ↔ FirstWithOffset m s) ∧
      (mangledName (plainFrame m s address) = nonEmpty s ↔ FirstWithout m s)) ∧
    (∀ text s, mangledName text = nonEmpty s → s ≠ [] → (∀ b ∈ s, IsIdentifierChar b) →
      (∀ demangledName, cxaDemangle s = (0, some demangledName) →
        demangleBacktraceSymbol cxaDemangle (some text) = demangledName) ∧
      ((∀ demangledName, cxaDemangle s ≠ (0, some demangledName)) →
        demangleBacktraceSymbol cxaDemangle (some text) = s)) ∧
    (∀ text, mangledName text = nonEmpty [] → demangleBacktraceSymbol cxaDemangle (some text) = text) ∧
    (∀ text, byte '(' ∉ text → mangledName text = nonEmpty []) ∧
    demangleBacktraceSymbol cxaDemangle none = [] := by
  refine ⟨fun m s hs offset address => ⟨mangledName_offsetFrame hs offset address, mangledName_plainFrame hs address⟩,
    fun text s hname hne hs => ?_, fun text hname => ?_, fun text => mangledName_no_parenthesis, ?_⟩
  · rw [nonEmpty, if_neg hne] at hname
    have hcString : cString s = s := word_of_not_mem fun hzero => (hs 0 hzero).ne.2.2 rfl
    simp only [demangleBacktraceSymbol, Option.getD_some, hname, hcString]
    constructor
    · intro demangledName hdemangled
      rw [hdemangled, if_pos rfl, Option.getD_some]
    · intro hfails
      split
      · rename_i hstatus
        have hnull : (cxaDemangle s).2 = none :=
          Option.eq_none_iff_forall_ne_some.mpr fun d hd => hfails d (Prod.ext hstatus hd)
        rw [hnull, Option.getD_none]
      · rfl
  · simp only [demangleBacktraceSymbol, Option.getD_some, hname, nonEmpty, if_true]
  · rfl

theorem demangleBacktraceSymbol_exact_iff_main :
    mangledName (offsetFrame (ascii "./a.out") (ascii "main") 0x25 0x401234) = some (ascii "main") :=
  ((demangleBacktraceSymbol_exact_iff fun _ => (-2, none)).1 (ascii "./a.out") (ascii "main")
    (by unfold IsIdentifierChar; decide +kernel) 0x25 0x401234).1.mpr (.inl (by decide))

/-- The path of the module has parentheses of its own. -/
theorem demangleBacktraceSymbol_parentheses :
    let m := ascii "/opt/app (1)/a.out"
    offsetFrame m (ascii "main") 0x25 0x401234 = ascii "/opt/app (1)/a.out(main+0x25) [0x401234]" ∧
    mangledName (offsetFrame m (ascii "main") 0x25 0x401234) = some (ascii "1)/a.out(main") ∧
    mangledName (plainFrame m (ascii "main") 0x401234) = some (ascii "1") ∧
    mangledName (offsetFrame m [] 0x25 0x401234) = some (ascii "1)/a.out(") ∧
    mangledName (plainFrame m [] 0x401234) = some (ascii "1") := by
  decide +kernel

/-! ## Backtraces -/

section

variable (info : ExecInfo) (parser : SourceLocationParser) (cxaDemangle : Bytes → Int × Option Bytes) (linePrefix : Bytes)

/-- Where `backtrace_symbols` is granted its storage, the frames between the skipped ones and the size can be read from
the text again, numbered from 0 on, exactly if no name and no file of theirs contains a newline. What is read for a
frame is its name joined to its source location by `at`, and not where the one ends and the other begins. Without the
storage there is no text. A larger size adds lines and changes none. -/
theorem getBacktrace_reads_back_iff :
    (info.granted = false → ∀ size skip, getBacktrace info parser cxaDemangle linePrefix size skip = []) ∧
    (info.granted = true → ∀ size skip,
      let shown := shownTexts info parser cxaDemangle size skip
      (frameCode linePrefix).decodeAll (getBacktrace info parser cxaDemangle linePrefix size skip) =
          some (shown.mapIdx Prod.mk) ↔
        ∀ text ∈ shown, byte '\n' ∉ text) ∧
    ∀ size size' skip, size ≤ size' →
      getBacktrace info parser cxaDemangle linePrefix size skip <+:
        getBacktrace info parser cxaDemangle linePrefix size' skip := by
  refine ⟨getBacktrace_refused info parser cxaDemangle linePrefix, ?_, ?_⟩
  · intro hgranted size skip shown
    have hshort : shown.length < 2 ^ 31 := by
      have hsize := size.toInt_lt
      simp only [shown, shownTexts, List.length_drop, List.length_take]
      omega
    rw [getBacktrace_eq info parser cxaDemangle linePrefix hgranted, SymbolCode.decodeAll_eq_some_iff,
      and_iff_left rfl]
    exact numbered_valid_iff linePrefix hshort
  · intro size size' skip hsize
    cases hgranted : info.granted with
    | false =>
        rw [getBacktrace_refused info parser cxaDemangle linePrefix hgranted]
        exact List.nil_prefix
    | true =>
        rw [getBacktrace_eq info parser cxaDemangle linePrefix hgranted,
          getBacktrace_eq info parser cxaDemangle linePrefix hgranted]
        obtain ⟨rest, hrest⟩ := shownTexts_prefix info parser cxaDemangle hsize skip
        rw [← hrest, List.mapIdx_append, List.flatMap_append]
        exact List.prefix_append _ _

end

def ExecInfo.threeCalls : ExecInfo :=
  ⟨[0x401100, 0x401234, 0x401300],
    fun frame => if frame = 0x401234 then ascii "./a.out(main+0x25) [0x401234]" else ascii "./a.out() [0x401300]", true⟩

/-- The line table knows the call instruction, whose address is below the return address. -/
def SourceLocationParser.mainOnly : SourceLocationParser :=
  ⟨some ⟨Unit, fun address => if address = 0x401233 then some () else none, fun _ => (some (ascii "main.cc"), 7)⟩⟩

theorem getBacktrace_reads_back_iff_main :
    (frameCode []).decodeAll (getBacktrace .threeCalls .mainOnly (fun _ => (-2, none)) [] 64 1) =
        some [(0, ascii "mainatmain.cc:7"), (1, ascii "./a.out() [0x401300]")] ∧
      getBacktrace .threeCalls .mainOnly (fun _ => (-2, none)) [] 2 1 = ascii "#0 mainatmain.cc:7\n" := by
  constructor
  · have hshown : shownTexts .threeCalls .mainOnly (fun _ => (-2, none)) 64 1 =
        [ascii "mainatmain.cc:7", ascii "./a.out() [0x401300]"] := by decide +kernel
    have hread := ((getBacktrace_reads_back_iff .threeCalls .mainOnly (fun _ => (-2, none)) []).2.1 rfl 64 1).mpr
      (by rw [hshown]; decide +kernel)
    rwa [hshown] at hread
  · decide +kernel

/-! ## Names of threads -/

namespace ThreadName

end ThreadName

end Pans
