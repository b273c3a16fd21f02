import Pans.Formatter.Lemmas.Concat
import Pans.Formatter.Lemmas.Thread
import Pans.Formatter.Lemmas.Unparse
import Pans.Formatter.Time

/-!
# Results about the formatter
-/

namespace Pans

/-! ## The pattern grammar -/

/-- The constructor accepts exactly the patterns of the grammar; every other text makes it throw. The items are
the denotation of the tokens: no item is null, no literal is empty, no two literals stand side by side. -/
theorem Formatter.new_accepts_patterns (p : Bytes) :
    ((Formatter.new p).isSome ↔ ∃ ts, IsPattern p ts) ∧
    ∀ F ts, Formatter.new p = some F → IsPattern p ts →
      F.items.map some = denote ts ∧ MergedLiterals F.items := by
  refine ⟨⟨?_, ?_⟩, ?_⟩
  · intro h
    obtain ⟨F, hF⟩ := Option.isSome_iff_exists.mp h
    exact isPattern_of_parse (parse_of_new hF)
  · rintro ⟨ts, hts⟩
    obtain ⟨items, hitems, _⟩ := parse_of_isPattern hts
    simp [new_of_parse hitems]
  · intro F ts hF hts
    obtain ⟨items, hitems, hd⟩ := parse_of_isPattern hts
    cases (parse_of_new hF).symm.trans hitems
    exact ⟨hd.symm, denote_merged hd⟩

/-- A date with its format in braces, and literal text that a percent sign is part of. -/
theorem Formatter.new_accepts_patterns_date :
    ∃ F, Formatter.new (ascii "%d{%H:%M} 5%%%m") = some F ∧
      F.items = [.dateTime (ascii "%H:%M"), .literal (ascii " 5%"), .message] ∧ MergedLiterals F.items := by
  let ts : List Token :=
    [.directive (byte 'd') (ascii "%H:%M"), .char (byte ' '), .char (byte '5'), .percent, .directive (byte 'm') []]
  have htext : ascii "%d{%H:%M} 5%%%m" = byte '%' :: byte 'd' :: byte '{' :: (ascii "%H:%M" ++ byte '}' ::
      byte ' ' :: byte '5' :: byte '%' :: byte '%' :: [byte '%', byte 'm']) := by decide +kernel
  have hlexes : Lexes (ascii "%d{%H:%M} 5%%%m") ts := by
    rw [htext]
    exact .braced (by decide) (by decide) (by decide) (.char (by decide) (.char (by decide) (.percent
      (.bare (by decide) (by simp) .nil))))
  have hpattern : IsPattern (ascii "%d{%H:%M} 5%%%m") ts := by
    refine ⟨hlexes, fun c f hmem => ?_⟩
    simp only [ts, List.mem_cons, Token.directive.injEq, reduceCtorEq, List.not_mem_nil, or_false, false_or] at hmem
    rcases hmem with ⟨rfl, _⟩ | ⟨rfl, _⟩ <;> decide
  obtain ⟨haccepted, hdenotes⟩ := Formatter.new_accepts_patterns (ascii "%d{%H:%M} 5%%%m")
  obtain ⟨F, hF⟩ := Option.isSome_iff_exists.mp (haccepted.mpr ⟨ts, hpattern⟩)
  obtain ⟨hitems, hmerged⟩ := hdenotes F ts hF hpattern
  refine ⟨F, hF, ?_, hmerged⟩
  have hdenote : denote ts = [.dateTime (ascii "%H:%M"), .literal (ascii " 5%"), .message].map some := by
    decide +kernel
  exact List.map_injective_iff.mpr (Option.some_injective _) (hitems.trans hdenote)

/-! ## Patterns in sequence -/

section

variable {Tm σ : Type}

/-- Two patterns in sequence are a pattern, unless a bare directive would take the brace that follows it. The
items are those of the first and then those of the second, merged where two literals meet, so the output is
that of the first followed by that of the second. A text with every `%` doubled is a pattern that writes it. -/
theorem Formatter.new_append :
    (∀ F G : Formatter, ¬(EndsBare F.pattern ∧ G.pattern.head? = some (byte '{')) →
      ∃ H, Formatter.new (F.pattern ++ G.pattern) = some H ∧ H.items = joinItems F.items G.items ∧
        (∀ render : FormatItem → Bytes, (∀ s, render (.literal s) = s) →
          H.items.flatMap render = F.items.flatMap render ++ G.items.flatMap render) ∧
        ∀ (libc : Libc Tm) (onAssert : AssertHandler σ) record st output,
          H.format libc onAssert record st output =
            (F.format libc onAssert record st output).bind fun p => G.format libc onAssert record p.1 p.2) ∧
    ∀ text, ∃ E, Formatter.new (escape text) = some E ∧
      ∀ (libc : Libc Tm) (onAssert : AssertHandler σ) record st output,
        E.format libc onAssert record st output = some (st, output ++ text) := by
  constructor
  · intro F G hseam
    obtain ⟨ts, hts, hF⟩ := parse_ok_iff.mp F.parsed
    obtain ⟨us, hus, hG⟩ := parse_ok_iff.mp G.parsed
    have hparse := parse_of_lexes (hts.append hus (hts.keepsBrace hseam)) (denote_append hF hG)
    refine ⟨_, new_of_parse hparse, rfl, ?_, ?_⟩
    · intro render hliteral
      exact flatMap_joinItems hliteral F.items G.items
    · intro libc onAssert record st output
      exact formatItems_joinItems record F.items G.items st output
  · intro text
    obtain ⟨ts, hts, hdenote⟩ := escape_lexes text
    by_cases ht : text = []
    · subst ht
      have hparse : Formatter.parse (escape []) = .ok [] := parse_of_lexes hts hdenote
      refine ⟨_, new_of_parse hparse, ?_⟩
      intro libc onAssert record st output
      simp [Formatter.format, formatItems]
    · have hparse : Formatter.parse (escape text) = .ok [.literal text] :=
        parse_of_lexes hts (by simp [hdenote, prependLiteral, ht])
      refine ⟨_, new_of_parse hparse, ?_⟩
      intro libc onAssert record st output
      rfl

end

theorem Formatter.new_append_message_level :
    ∃ H, Formatter.new (ascii "%m:" ++ ascii ": %p") = some H ∧
      H.items = [.message, .literal (ascii ":: "), .level] := by
  have hmessage : Formatter.parse (ascii "%m:") = .ok [.message, .literal (ascii ":")] := by decide +kernel
  have hlevel : Formatter.parse (ascii ": %p") = .ok [.literal (ascii ": "), .level] := by decide +kernel
  have hbrace : (ascii ": %p").head? ≠ some (byte '{') := by decide +kernel
  obtain ⟨H, hH, hitems, _⟩ := (@Formatter.new_append Unit Unit).1 ⟨_, _, hmessage⟩ ⟨_, _, hlevel⟩
    fun h => hbrace h.2
  exact ⟨H, hH, hitems⟩

/-! ## Patterns written from items -/

section

variable {Tm σ : Type}

/-- The item lists of formatters are the writable ones, and each of them has a shortest pattern, which `unparse`
writes. So a formatter can be replaced by the one of the written pattern, which formats every record alike. -/
theorem Formatter.new_unparse :
    (∀ items, Writable items ↔ ∃ F, Formatter.new (unparse items) = some F ∧ F.items = items) ∧
    ∀ F : Formatter, ∃ G, Formatter.new (unparse F.items) = some G ∧ G.items = F.items ∧
      (∀ p H, Formatter.new p = some H → H.items = F.items → G.pattern.length ≤ p.length) ∧
      ∀ (libc : Libc Tm) (onAssert : AssertHandler σ) record st output,
        G.format libc onAssert record st output = F.format libc onAssert record st output := by
  have hwritable : ∀ {p items}, Formatter.parse p = .ok items →
      Writable items ∧ (unparse items).length ≤ p.length := by
    intro p items hparse
    obtain ⟨ts, hlex, hdenote⟩ := parse_ok_iff.mp hparse
    have hwritten := writtenFor_of_lexes hlex hdenote
    exact ⟨hwritten.1, hwritten.2.1⟩
  have hparse : ∀ {items}, Writable items → Formatter.parse (unparse items) = .ok items := by
    intro items h
    obtain ⟨ts, hlex, hdenote⟩ := unparse_lexes h
    exact parse_of_lexes hlex hdenote
  constructor
  · intro items
    constructor
    · intro h
      exact ⟨_, new_of_parse (hparse h), rfl⟩
    · rintro ⟨F, _, rfl⟩
      exact (hwritable F.parsed).1
  · intro F
    have hread := hparse (hwritable F.parsed).1
    refine ⟨_, new_of_parse hread, rfl, ?_, ?_⟩
    · intro p H hH hitems
      exact (hwritable (hitems ▸ parse_of_new hH)).2
    · intro libc onAssert record st output
      rfl

end

/-- A format that the message item drops is replaced by a single byte, which keeps the open brace in its literal. -/
theorem Formatter.new_unparse_brace :
    ∃ F G, Formatter.new (ascii "%m{dropped}{%%%d}") = some F ∧ Formatter.new (ascii "%m{_}{%%%d}") = some G ∧
      G.items = F.items ∧ ∀ p H, Formatter.new p = some H → H.items = F.items → 11 ≤ p.length := by
  let items : List FormatItem := [.message, .literal (ascii "\x7b%"), .dateTime [],
    .literal (ascii "\x7d")]
  have hparse : Formatter.parse (ascii "%m{dropped}{%%%d}") = .ok items := by decide +kernel
  have hwritten : unparse items = ascii "%m{_}{%%%d}" := by decide +kernel
  obtain ⟨G, hG, hitems, hshortest, _⟩ := (@Formatter.new_unparse Unit Unit).2 ⟨_, items, hparse⟩
  rw [hwritten] at hG
  refine ⟨_, G, new_of_parse hparse, hG, hitems, ?_⟩
  rw [pattern_of_new hG] at hshortest
  exact hshortest

/-! ## Rendering -/

section

variable {Tm σ : Type}

theorem firstDateFormat_mem {items : List FormatItem} {format : Bytes}
    (h : firstDateFormat items = some format) : .dateTime format ∈ items := by
  obtain ⟨item, hmem, hitem⟩ := List.exists_of_findSome?_eq_some h
  cases item with
  | dateTime f =>
      cases hitem
      exact hmem
  | _ => cases hitem

/-- In every pattern an integer directive writes the numeral of its value. Where all date directives carry one
format, which expands to 1 to 19 bytes, and the cache of the thread is not stale, no assertion is reached
(whatever a failed one would do) and each item writes its text. -/
theorem Formatter.format_renders (libc : Libc Tm) (F : Formatter) (record : LogRecordView)
    (onAssert : AssertHandler σ) (st : ThreadState σ) (output : Bytes) :
    (∀ pre item post value, F.items = pre ++ item :: post → item.integer record = some value →
      F.format libc onAssert record st output =
        (formatItems libc onAssert record pre st output).bind fun p =>
          formatItems libc onAssert record post p.1 (p.2 ++ numeral value)) ∧
    ∀ format text,
      (∀ f, .dateTime f ∈ F.items → f = format ∧ libc.dateText f record.currentSecond = some text ∧
        st.cache.Agrees record.currentSecond text) →
      ∃ cache, F.format libc onAssert record st output =
        some ({ st with cache }, output ++ F.items.flatMap (FormatItem.text (fun _ => text) record)) := by
  constructor
  · intro pre item post value hitems hvalue
    rw [Formatter.format, hitems, formatItems_append]
    simp only [formatItems, format_integer hvalue, Option.bind_some]
  · intro format text hdates
    have hready : DateReady libc F.items record.currentSecond st.cache text := by
      intro f hf
      obtain ⟨_, htext, hagrees⟩ := hdates f (firstDateFormat_mem hf)
      split
      · rename_i hsecond
        exact hagrees hsecond
      · exact htext
    exact formatItems_eq st output hready

end

/-! The first second of 1970, as the C library prints it. -/

def firstSecond : List (Bytes × Bytes) := [
  (ascii "%Y", ascii "1970"), (ascii "%m", ascii "01"),
  (ascii "%Y-%m-%d %H:%M:%S", ascii "1970-01-01 00:00:01")]

def Libc.atFirstSecond : Libc Unit where
  localtime_r := fun _ => some ()
  expand := fun format _ => (firstSecond.lookup format).getD []
  scratch := fun _ _ _ array => array
  expand_nil := fun _ => rfl
  expand_no_nul := by
    intro format _
    simp only [firstSecond, List.lookup_cons, List.lookup_nil]
    split
    · decide
    split
    · decide
    split <;> decide

def LogRecordView.atFirstSecond : LogRecordView :=
  ⟨.info, ascii "root", ascii "message", 1000000000, 0, 1, 0, ascii "main", ascii "main.cc", 7⟩

theorem Formatter.format_renders_default :
    ∃ F cache, Formatter.new (ascii "%d{%Y-%m-%d %H:%M:%S}.%u%T[%p]%T%f:%l%T%m%n") = some F ∧
      F.format Libc.atFirstSecond (fun _ _ => none) LogRecordView.atFirstSecond ⟨DateCache.initial, ()⟩ [] =
        some (⟨cache, ()⟩, ascii "1970-01-01 00:00:01.000000\t[INFO]\tmain.cc:7\tmessage\n") := by
  let items : List FormatItem := [.dateTime (ascii "%Y-%m-%d %H:%M:%S"), .literal (ascii "."), .microseconds, .tab,
    .literal (ascii "["), .level, .literal (ascii "]"), .tab, .fileName, .literal (ascii ":"), .line, .tab,
    .message, .newLine]
  have hparse : Formatter.parse (ascii "%d{%Y-%m-%d %H:%M:%S}.%u%T[%p]%T%f:%l%T%m%n") = .ok items := by
    decide +kernel
  have htext : items.flatMap (FormatItem.text (fun _ => ascii "1970-01-01 00:00:01") LogRecordView.atFirstSecond) =
      ascii "1970-01-01 00:00:01.000000\t[INFO]\tmain.cc:7\tmessage\n" := by
    decide +kernel
  have hdates : ∀ f, .dateTime f ∈ items → f = ascii "%Y-%m-%d %H:%M:%S" ∧
      Libc.atFirstSecond.dateText f LogRecordView.atFirstSecond.currentSecond = some (ascii "1970-01-01 00:00:01") ∧
      DateCache.initial.Agrees LogRecordView.atFirstSecond.currentSecond (ascii "1970-01-01 00:00:01") := by
    intro f hf
    simp only [items, List.mem_cons, FormatItem.dateTime.injEq, reduceCtorEq, List.not_mem_nil, or_false] at hf
    subst hf
    exact ⟨rfl, by decide +kernel, fun h => absurd h (by decide +kernel)⟩
  obtain ⟨cache, hformat⟩ := (Formatter.format_renders Libc.atFirstSecond ⟨_, items, hparse⟩
    LogRecordView.atFirstSecond (fun _ _ => none) ⟨DateCache.initial, ()⟩ []).2 _ _ hdates
  exact ⟨_, cache, new_of_parse hparse, hformat.trans (by rw [htext]; rfl)⟩

/-- Two date formats in one pattern: the second item writes the text of the first. -/
theorem Formatter.format_two_date_formats :
    ∃ F cache, Formatter.new (ascii "%d{%Y}%d{%m}") = some F ∧
      F.format Libc.atFirstSecond (fun _ _ => none) LogRecordView.atFirstSecond ⟨DateCache.initial, ()⟩ [] =
        some (⟨cache, ()⟩, ascii "19701970") ∧
      F.items.flatMap (FormatItem.text (fun f => Libc.atFirstSecond.expand f ()) LogRecordView.atFirstSecond) =
        ascii "197001" := by
  let items : List FormatItem := [.dateTime (ascii "%Y"), .dateTime (ascii "%m")]
  have hparse : Formatter.parse (ascii "%d{%Y}%d{%m}") = .ok items := by decide +kernel
  refine ⟨_, ⟨1, ascii "1970" ++ List.replicate 16 0⟩, new_of_parse hparse, ?_, ?_⟩
  · show formatItems _ _ _ items _ _ = _
    decide +kernel
  · show items.flatMap _ = _
    decide +kernel

/-! ## The cache of a thread -/

section

variable {Tm σ : Type}

/-- Date items with one format, in any order of seconds: whatever `strftime` leaves in the array when it fails,
each item appends the conversion of its second, exactly when none of them meets a stale cache. -/
theorem formatDates_exact_iff (libc : Libc Tm) (format : Bytes) (log : AssertFailure → σ → σ) (rest : σ)
    (items : List (LogRecordView × Bytes)) :
    (∀ scratch, ∃ st, formatDates { libc with scratch } (logging log) format items ⟨DateCache.initial, rest⟩ =
      some (st, items.map fun item => item.2 ++ libc.convert format item.1.currentSecond)) ↔
    ∀ before item after, items = before ++ item :: after →
      ¬Stale libc format (before.map fun item => item.1.currentSecond).reverse item.1.currentSecond := by
  have hnever : NeverStale libc format [] items ↔ ∀ before item after, items = before ++ item :: after →
      ¬Stale libc format (before.map fun item => item.1.currentSecond).reverse item.1.currentSecond := by
    simp only [NeverStale, List.append_nil]
  rw [← hnever]
  constructor
  · intro hexact
    let st : Bytes → ThreadState σ := fun _ => ⟨DateCache.initial, rest⟩
    have hinitial : ∀ array, Holds (libc.leaving array) format [] (st array).cache := fun _ => Holds.initial
    exact neverStale_of_exact hinitial log fun array => hexact _
  · intro hstale scratch
    let st : ThreadState σ := ⟨DateCache.initial, rest⟩
    have hinitial : Holds { libc with scratch } format [] st.cache := Holds.initial
    exact hinitial.formatDates log hstale

end

def LogRecordView.atSecond (second : Int) : LogRecordView :=
  { LogRecordView.atFirstSecond with timestamp := Int64.ofInt (second * 1000000000) }

/-- Two months of 2024. The name of the second one is too long for the array, and `strftime` stops within it. -/
def Libc.in2024 : Libc Bool where
  localtime_r := fun second => some (1725148800 ≤ second)
  expand := fun format september =>
    if format = ascii "%d %B %Y %H:%M" then
      if september then ascii "01 September 2024 00:00" else ascii "01 May 2024 00:00"
    else []
  scratch := fun _ _ _ _ => ascii "01 September 2024 " ++ [0, 0]
  expand_nil := fun _ => if_neg (by decide)
  expand_no_nul := by
    intro format september
    split
    · cases september <;> decide
    · decide

/-- A first record of the second 0 gets no date. A record of May gets the date of the record of September whose
conversion failed. -/
theorem formatDates_stale :
    (∃ st, formatDates Libc.atFirstSecond (logging fun _ s => s) (ascii "%Y") [(.atSecond 0, [])]
        ⟨DateCache.initial, ()⟩ = some (st, [[]]) ∧
      Libc.atFirstSecond.convert (ascii "%Y") 0 = ascii "1970") ∧
    ∃ st, formatDates Libc.in2024 (logging fun _ s => s) (ascii "%d %B %Y %H:%M")
        [(.atSecond 1714521600, []), (.atSecond 1725148800, []), (.atSecond 1714521600, [])]
        ⟨DateCache.initial, ()⟩ = some (st, [ascii "01 May 2024 00:00", [], ascii "01 September 2024 "]) ∧
      Libc.in2024.convert (ascii "%d %B %Y %H:%M") 1714521600 = ascii "01 May 2024 00:00" := by
  refine ⟨⟨⟨DateCache.initial, ()⟩, by decide +kernel, by decide +kernel⟩, ?_⟩
  exact ⟨⟨⟨1714521600, ascii "01 September 2024 " ++ [0, 0]⟩, ()⟩, by decide +kernel, by decide +kernel⟩

section

variable {Tm σ : Type}

/-- Where all date items on the thread carry one format, which expands to 1 to 19 bytes, the outputs of a
formatter do not depend on the turns of the others: each record gets its rendering, with every date converted
from scratch. Own records of the second 0 are left out for a formatter with a date item. -/
theorem Formatter.formatTurns_independent (libc : Libc Tm) (onAssert : AssertHandler σ) (F : Formatter)
    (format : Bytes) (turns turns' : List Turn) (rest rest' : σ)
    (hcarries : ∀ turn ∈ turns ++ turns', Carries libc format (turn.formatter F).items turn.record.currentSecond)
    (hzero : ∀ record ∈ ownRecords turns, record.currentSecond ≠ 0 ∨ ∀ f, .dateTime f ∉ F.items)
    (hsame : ownRecords turns = ownRecords turns') :
    ∃ st st' outputs, F.formatTurns libc onAssert turns ⟨DateCache.initial, rest⟩ = some (st, outputs) ∧
      F.formatTurns libc onAssert turns' ⟨DateCache.initial, rest'⟩ = some (st', outputs) ∧
      outputs = (ownRecords turns).map fun record => libc.render F.items record := by
  have hrun : ∀ turns'' ⊆ turns ++ turns', ownRecords turns'' = ownRecords turns → ∀ rest : σ, ∃ st,
      F.formatTurns libc onAssert turns'' ⟨DateCache.initial, rest⟩ =
        some (st, (ownRecords turns).map fun record => libc.render F.items record) := by
    intro turns'' hsub hown rest
    let st : ThreadState σ := ⟨DateCache.initial, rest⟩
    have hinitial : Sound libc format st.cache := Or.inl rfl
    rw [← hown] at hzero ⊢
    exact hinitial.formatTurns (fun turn hturn => hcarries turn (hsub hturn)) hzero
  obtain ⟨st, hst⟩ := hrun turns (List.subset_append_left _ _) rfl rest
  obtain ⟨st', hst'⟩ := hrun turns' (List.subset_append_right _ _) hsame.symm rest'
  exact ⟨st, st', _, hst, hst', rfl⟩

end

theorem Formatter.formatTurns_independent_years :
    ∃ F G, Formatter.new (ascii "%d{%Y}") = some F ∧ Formatter.new (ascii "%d{%Y}%n") = some G ∧
      ∃ st, F.formatTurns Libc.atFirstSecond (fun _ _ => none) [.other G (.atSecond 1), .own (.atSecond 1)]
        ⟨DateCache.initial, ()⟩ = some (st, [ascii "1970"]) := by
  have hF : Formatter.parse (ascii "%d{%Y}") = .ok [.dateTime (ascii "%Y")] := by decide +kernel
  have hG : Formatter.parse (ascii "%d{%Y}%n") = .ok [.dateTime (ascii "%Y"), .newLine] := by decide +kernel
  let F : Formatter := ⟨_, _, hF⟩
  let G : Formatter := ⟨_, _, hG⟩
  have hsecond : (LogRecordView.atSecond 1).currentSecond = 1 := by decide +kernel
  have htext : (Libc.atFirstSecond.dateText (ascii "%Y") 1).isSome := by decide +kernel
  have hrender : Libc.atFirstSecond.render [.dateTime (ascii "%Y")] (.atSecond 1) = ascii "1970" := by decide +kernel
  have hcarries : ∀ turn ∈ [.other G (.atSecond 1), .own (.atSecond 1)] ++ [Turn.own (.atSecond 1)],
      Carries Libc.atFirstSecond (ascii "%Y") (turn.formatter F).items turn.record.currentSecond := by
    have hturns : ∀ turn ∈ [.other G (.atSecond 1), .own (.atSecond 1)] ++ [Turn.own (.atSecond 1)],
        (∀ f, .dateTime f ∈ (turn.formatter F).items → f = ascii "%Y") ∧ turn.record.currentSecond = 1 := by
      simp [Turn.formatter, Turn.record, F, G, hsecond]
    intro turn hturn f hf
    rw [(hturns turn hturn).1 f hf, (hturns turn hturn).2]
    exact ⟨rfl, htext⟩
  obtain ⟨st, _, outputs, hrun, _, houtputs⟩ := Formatter.formatTurns_independent Libc.atFirstSecond
    (fun _ _ => none) F (ascii "%Y") [.other G (.atSecond 1), .own (.atSecond 1)] [.own (.atSecond 1)] () ()
    hcarries (by
      intro record hrecord
      obtain rfl : record = .atSecond 1 := by simpa [ownRecords] using hrecord
      exact Or.inl (by rw [hsecond]; decide)) rfl
  refine ⟨F, G, new_of_parse hF, new_of_parse hG, st, ?_⟩
  rw [hrun, houtputs]
  exact congrArg (fun text => some (st, [text])) hrender

/-- With two formats on the thread, the year that a formatter writes is the month that another one has cached.
Within one pattern, the second item writes the text of the first. -/
theorem Formatter.formatTurns_interferes :
    (∃ F G, Formatter.new (ascii "%d{%Y}") = some F ∧ Formatter.new (ascii "%d{%m}") = some G ∧
      (∃ st, F.formatTurns Libc.atFirstSecond (fun _ _ => none) [.own (.atSecond 1)] ⟨DateCache.initial, ()⟩ =
        some (st, [ascii "1970"])) ∧
      ∃ st, F.formatTurns Libc.atFirstSecond (fun _ _ => none) [.other G (.atSecond 1), .own (.atSecond 1)]
        ⟨DateCache.initial, ()⟩ = some (st, [ascii "01"])) ∧
    ∃ F, Formatter.new (ascii "%d{%Y}/%d{%m}") = some F ∧
      ∃ st, F.formatTurns Libc.atFirstSecond (fun _ _ => none) [.own (.atSecond 1)] ⟨DateCache.initial, ()⟩ =
        some (st, [ascii "1970/1970"]) := by
  have hyear : Formatter.parse (ascii "%d{%Y}") = .ok [.dateTime (ascii "%Y")] := by decide +kernel
  have hmonth : Formatter.parse (ascii "%d{%m}") = .ok [.dateTime (ascii "%m")] := by decide +kernel
  have hboth : Formatter.parse (ascii "%d{%Y}/%d{%m}") =
      .ok [.dateTime (ascii "%Y"), .literal (ascii "/"), .dateTime (ascii "%m")] := by decide +kernel
  let year : ThreadState Unit := ⟨⟨1, ascii "1970" ++ List.replicate 16 0⟩, ()⟩
  let month : ThreadState Unit := ⟨⟨1, ascii "01" ++ List.replicate 18 0⟩, ()⟩
  refine ⟨⟨_, _, new_of_parse hyear, new_of_parse hmonth, ⟨year, ?_⟩, ⟨month, ?_⟩⟩, _, new_of_parse hboth, year, ?_⟩
  · simp only [Formatter.formatTurns, Formatter.format]
    decide +kernel
  · simp only [Formatter.formatTurns, Formatter.format]
    decide +kernel
  · simp only [Formatter.formatTurns, Formatter.format]
    decide +kernel

/-! ## Seconds and microseconds -/

/-- The second for `localtime_r` and the six digits are together the floor of the time in microseconds exactly from the
epoch on and at the whole seconds before it; elsewhere they are late. Two times in order are shown out of order exactly
if only the earlier one is moved by a second, and the time between them is shorter. -/
theorem shownTime_exact_iff (record : LogRecordView) :
    ((microsecondDigits record).length = 6 ∧ (∀ b ∈ microsecondDigits record, IsDigit b) ∧
      decimalValue (microsecondDigits record) ≤ 999999 ∧
      (record.currentSecond * 1000000 + decimalValue (microsecondDigits record) = record.timestamp.toInt.fdiv 1000 ↔
        0 ≤ record.timestamp.toInt ∨ 1000000000 ∣ record.timestamp.toInt)) ∧
    ∀ later : LogRecordView, record.timestamp.toInt ≤ later.timestamp.toInt →
      (record.shownTime ≤ later.shownTime ↔
        (record.InNegativeSecond → later.InNegativeSecond ∨
          record.totalMicroseconds + 1000000 ≤ later.totalMicroseconds)) := by
  constructor
  · obtain ⟨hlength, hdigits, hvalue⟩ := microsecondDigits_spec record
    refine ⟨hlength, hdigits, by omega, ?_⟩
    rw [shownMicroseconds_eq, Int.fdiv_eq_ediv_of_nonneg _ (by decide)]
    exact add_second_eq_floor_iff record
  · intro later hle
    have hmicros : record.totalMicroseconds ≤ later.totalMicroseconds := Int.tdiv_le_tdiv (by decide) hle
    rw [shownTime_le_iff, shownMicroseconds_eq, shownMicroseconds_eq]
    by_cases hrecord : record.InNegativeSecond
    · by_cases hlater : later.InNegativeSecond
      · simpa [hrecord, hlater] using hmicros
      · simp [hrecord, hlater]
    · simp only [hrecord, if_false, false_imp_iff, iff_true]
      split <;> omega

theorem shownTime_exact_iff_first_second :
    LogRecordView.atFirstSecond.shownTime ≤
      LogRecordView.shownTime { LogRecordView.atFirstSecond with timestamp := 1000001000 } :=
  ((shownTime_exact_iff LogRecordView.atFirstSecond).2 _ (by decide)).mpr
    fun hnegative => absurd hnegative.1 (by decide)

/-- A second and a half before the epoch is shown as half a second before it, after the second in between. -/
theorem shownTime_before_epoch :
    ∃ record later : LogRecordView, record.timestamp = -1500000000 ∧ later.timestamp = -1000000000 ∧
      record.currentSecond * 1000000 + decimalValue (microsecondDigits record) = -500000 ∧
      record.timestamp.toInt.fdiv 1000 = -1500000 ∧ ¬record.shownTime ≤ later.shownTime := by
  refine ⟨{ LogRecordView.atFirstSecond with timestamp := -1500000000 },
    { LogRecordView.atFirstSecond with timestamp := -1000000000 }, rfl, rfl, by decide +kernel, by decide +kernel, ?_⟩
  rw [shownTime_le_iff]
  decide +kernel

end Pans
