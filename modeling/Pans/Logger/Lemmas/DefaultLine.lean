import Pans.Logger.DefaultLine

/-!
# Reading lines of the default pattern

The code of the lines writes what the program writes, and reads every line whose parts can be told apart.
-/

namespace Pans

namespace DefaultLine

theorem lineCode_enc (entry : DefaultLine) : lineCode.enc entry = entry.text ++ [byte '\n'] := by
  simp [lineCode, SymbolCode.of, SymbolCode.seq, SymbolCode.after, Delimiter.code, partsReading, parts, text,
    microsecondsReading, u64Reading, levelReading, placeReading, ascii]

theorem not_mem_toString (level : LogLevel) : byte ']' ∉ level.toString := by cases level <;> decide

theorem lineCode_valid {entry : DefaultLine} : lineCode.Valid entry ↔ entry.Plain := by
  have hdigits (n : Nat) : byte '\t' ∉ decimalDigits n := not_mem_decimalDigits (by decide) n
  have hmicroseconds (h : ∀ b ∈ entry.microseconds, IsDigit b) : byte '\t' ∉ entry.microseconds := fun hmem =>
    absurd (h _ hmem) (by decide)
  constructor
  · rintro ⟨-, hdate, ⟨hsix, -⟩, -, -, -, ⟨-, hplace⟩, hmessage⟩
    exact ⟨hdate, hsix, fun h => hplace (List.mem_append_left _ h), hmessage⟩
  · rintro ⟨hdate, hsix, hfileName, hmessage⟩
    refine ⟨trivial, hdate, ⟨hsix, hmicroseconds hsix.2⟩, ⟨trivial, hdigits _⟩, ⟨trivial, hdigits _⟩,
      ⟨trivial, not_mem_toString _⟩, ⟨trivial, ?_⟩, hmessage⟩
    rintro h
    rcases List.mem_append.mp h with h | h
    · exact hfileName h
    · rcases List.mem_cons.mp h with h | h
      · exact absurd h (by decide)
      · exact hdigits _ h

/-- A text is read as `entries` exactly when it is their lines one after the other. -/
theorem decodeAll_eq_some_iff {text : Bytes} {entries : List DefaultLine} :
    lineCode.decodeAll text = some entries ↔
      (∀ entry ∈ entries, entry.Plain) ∧ text = entries.flatMap fun entry => entry.text ++ [byte '\n'] := by
  simp only [SymbolCode.decodeAll_eq_some_iff, lineCode_valid, ← funext lineCode_enc]

end DefaultLine

/-! ## The default formatter -/

section

variable {Tm : Type} {libc : Libc Tm} {record : LogRecordView}

theorem carries_default {second : Int} (h : (libc.dateText defaultDateFormat second).isSome) :
    Carries libc defaultDateFormat defaultFormatter.items second := by
  intro f hf
  have hformat : f = defaultDateFormat := by simpa [defaultFormatter, defaultDateFormat] using hf
  subst hformat
  exact ⟨rfl, h⟩

theorem render_default : libc.render defaultFormatter.items record = (record.shown libc).text ++ [byte '\n'] := by
  simp only [Libc.render, defaultFormatter, List.flatMap_cons, List.flatMap_nil, FormatItem.text, numeral_natCast]
  simp [DefaultLine.text, LogRecordView.shown, LogRecordView.defaultLine, defaultDateFormat, ascii]

/-- The parts that the program writes itself can always be told apart. -/
theorem shown_plain_iff :
    (record.shown libc).Plain ↔ byte '.' ∉ libc.convert defaultDateFormat record.currentSecond ∧
      byte '\t' ∉ record.fileName ∧ byte '\n' ∉ record.message := by
  constructor
  · rintro ⟨hdate, -, hfileName, hmessage⟩
    exact ⟨hdate, hfileName, hmessage⟩
  · rintro ⟨hdate, hfileName, hmessage⟩
    obtain ⟨hlength, hdigits, _⟩ := microsecondDigits_spec record
    exact ⟨hdate, ⟨hlength, hdigits⟩, hfileName, hmessage⟩

end

end Pans
