import Mathlib.Tactic.Choose
import Pans.Formatter.Lemmas.Format
import Pans.Formatter.Thread

/-!
# The cache over a run

What the cache holds after a history of date items, as long as no item met a stale cache.
-/

namespace Pans

/-! ## One date format -/

section

variable {Tm σ : Type} {libc : Libc Tm} {format : Bytes}

theorem dateText_ne_nil {second : Int} {text : Bytes} (h : libc.dateText format second = some text) : text ≠ [] := by
  simp only [Libc.dateText] at h
  split at h
  · cases h
  · split at h
    · rename_i hsize
      cases h
      exact List.ne_nil_of_length_pos hsize.1
    · cases h

theorem latestConverted_isSome {history : List Int} {second : Int}
    (h : latestConverted libc format history = some second) : (libc.dateText format second).isSome := by
  have := List.find?_some h
  simpa using this

theorem latestConverted_cons_some {history : List Int} {second : Int} (h : (libc.dateText format second).isSome) :
    latestConverted libc format (second :: history) = some second := by
  simp [latestConverted, h]

theorem latestConverted_cons_none {history : List Int} {second : Int} (h : libc.dateText format second = none) :
    latestConverted libc format (second :: history) = latestConverted libc format history := by
  simp [latestConverted, h]

theorem not_spoiled_nil : ¬Spoiled libc format [] := by
  rintro ⟨second, hmem, _⟩
  cases hmem

theorem not_spoiled_cons {history : List Int} {second : Int} (h : (libc.dateText format second).isSome) :
    ¬Spoiled libc format (second :: history) := by
  rintro ⟨s, hmem, _⟩
  obtain ⟨text, htext⟩ := Option.isSome_iff_exists.mp h
  simp [htext] at hmem

theorem spoiled_cons {history : List Int} {second : Int} (h : libc.dateText format second = none) :
    Spoiled libc format (second :: history) ↔
      (libc.Overwrites format second ∧ second ≠ (latestConverted libc format history).getD 0) ∨
        Spoiled libc format history := by
  simp only [Spoiled, latestConverted_cons_none h, List.takeWhile_cons, h, Option.isNone_none, ↓reduceIte,
    List.mem_cons, exists_eq_or_imp]

/-- The cache after the history: its second, and the text of that second unless the array was overwritten. An
array that was overwritten holds what `strftime` left. -/
structure Holds (libc : Libc Tm) (format : Bytes) (history : List Int) (cache : DateCache) : Prop where
  lastSecond : cache.lastSecond = (latestConverted libc format history).getD 0
  text : ¬Spoiled libc format history →
    cString cache.cachedDateTime = ((latestConverted libc format history).map (libc.convert format)).getD []
  spoiled : ∀ array, (∀ maxsize format tm before, libc.scratch maxsize format tm before = array) →
    Spoiled libc format history → cache.cachedDateTime = array

theorem Holds.initial : Holds libc format [] DateCache.initial where
  lastSecond := rfl
  text := by
    intro _
    show cString DateCache.initial.cachedDateTime = []
    decide
  spoiled := by
    intro _ _ h
    exact absurd h not_spoiled_nil

/-- A second that was converted just now is in the cache with its text. -/
theorem Holds.converted {history : List Int} {cache : DateCache} {second : Int} {text : Bytes}
    (htext : libc.dateText format second = some text) (hlast : cache.lastSecond = second)
    (hcached : cString cache.cachedDateTime = text) : Holds libc format (second :: history) cache := by
  have hsome : (libc.dateText format second).isSome := by simp [htext]
  refine ⟨?_, ?_, ?_⟩
  · simpa [latestConverted_cons_some hsome] using hlast
  · simp [latestConverted_cons_some hsome, Libc.convert, htext, hcached]
  · intro _ _ h
    exact absurd h (not_spoiled_cons hsome)

/-- A second without a text leaves the cache as it is, if it does not overwrite the array. -/
theorem Holds.kept {history : List Int} {cache : DateCache} {second : Int} (h : Holds libc format history cache)
    (htext : libc.dateText format second = none)
    (hkept : ¬(libc.Overwrites format second ∧ second ≠ (latestConverted libc format history).getD 0)) :
    Holds libc format (second :: history) cache := by
  have hspoiled : Spoiled libc format (second :: history) ↔ Spoiled libc format history := by
    rw [spoiled_cons htext, or_iff_right hkept]
  refine ⟨?_, ?_, ?_⟩
  · rw [latestConverted_cons_none htext, h.lastSecond]
  · rw [latestConverted_cons_none htext, hspoiled]
    exact h.text
  · intro array harray hs
    exact h.spoiled array harray (hspoiled.mp hs)

theorem Holds.overwritten {history : List Int} {cache : DateCache} {second : Int}
    (h : Holds libc format history cache) (htext : libc.dateText format second = none)
    (hover : libc.Overwrites format second) (hsecond : second ≠ (latestConverted libc format history).getD 0)
    {maxsize : Nat} {f : Bytes} {tm : Tm} {before : Bytes} :
    Holds libc format (second :: history)
      { cache with cachedDateTime := libc.scratch maxsize f tm before } := by
  refine ⟨?_, ?_, ?_⟩
  · rw [latestConverted_cons_none htext]
    exact h.lastSecond
  · intro hs
    exact absurd ((spoiled_cons htext).mpr (Or.inl ⟨hover, hsecond⟩)) hs
  · intro array harray _
    exact harray maxsize f tm before

/-- A cache that stands for the second and is not stale holds its conversion. -/
theorem Holds.cached {history : List Int} {cache : DateCache} (h : Holds libc format history cache) {second : Int}
    (hlast : cache.lastSecond = second) (hstale : ¬Stale libc format history second) :
    cString cache.cachedDateTime = libc.convert format second ∧ Holds libc format (second :: history) cache := by
  have hsame : second = (latestConverted libc format history).getD 0 := by rw [← hlast, h.lastSecond]
  have hcached := h.text fun hs => hstale ⟨hsame, Or.inl hs⟩
  cases hlatest : latestConverted libc format history with
  | none =>
      have hnone : libc.dateText format second = none := by
        rw [← Option.not_isSome_iff_eq_none]
        exact fun hsome => hstale ⟨hsame, Or.inr ⟨hlatest, hsome⟩⟩
      refine ⟨?_, h.kept hnone fun hover => hover.2 hsame⟩
      rw [hcached, hlatest, Libc.convert, hnone]
      rfl
  | some last =>
      rw [hlatest, Option.getD_some] at hsame
      obtain ⟨text, htext⟩ := Option.isSome_iff_exists.mp (latestConverted_isSome hlatest)
      rw [← hsame] at htext
      have hconvert : cString cache.cachedDateTime = libc.convert format second := by
        rw [hcached, hlatest, ← hsame]
        rfl
      refine ⟨hconvert, Holds.converted htext hlast ?_⟩
      rw [hconvert, Libc.convert, htext]
      rfl

/-- An item that meets no stale cache appends the conversion of its second. -/
theorem Holds.formatDateTime {history : List Int} {st : ThreadState σ} (h : Holds libc format history st.cache)
    (log : AssertFailure → σ → σ) (record : LogRecordView) (output : Bytes)
    (hstale : ¬Stale libc format history record.currentSecond) :
    ∃ st', formatDateTime libc (logging log) format record st output =
        some (st', output ++ libc.convert format record.currentSecond) ∧
      Holds libc format (record.currentSecond :: history) st'.cache := by
  by_cases hsecond : st.cache.lastSecond = record.currentSecond
  · obtain ⟨hcached, hholds⟩ := h.cached hsecond hstale
    refine ⟨st, ?_, hholds⟩
    rw [formatDateTime_cached hsecond, hcached]
  cases htext : libc.dateText format record.currentSecond with
  | some text =>
      obtain ⟨cache, hlast, hcached, hdate⟩ := formatDateTime_converted hsecond htext
      refine ⟨{ st with cache }, ?_, Holds.converted htext hlast hcached⟩
      rw [hdate, Libc.convert, htext]
      rfl
  | none =>
      rw [Libc.convert, htext, Option.getD_none, List.append_nil]
      cases htm : libc.localtime_r record.currentSecond with
      | none =>
          obtain ⟨failure, hdate⟩ := formatDateTime_localtime_failed hsecond htm
          refine ⟨{ st with rest := log failure st.rest }, hdate, h.kept htext ?_⟩
          rintro ⟨⟨hsome, _⟩, _⟩
          simp [htm] at hsome
      | some tm =>
          obtain ⟨failure, hdate⟩ := formatDateTime_overwritten hsecond htm htext
          refine ⟨_, hdate, h.overwritten htext ⟨by simp [htm], htext⟩ ?_⟩
          rw [← h.lastSecond]
          exact fun heq => hsecond heq.symm

/-! ## A run of one date format -/

def Libc.leaving (libc : Libc Tm) (array : Bytes) : Libc Tm := { libc with scratch := fun _ _ _ _ => array }

/-- No item of the run meets a stale cache. -/
def NeverStale (libc : Libc Tm) (format : Bytes) (history : List Int) (items : List (LogRecordView × Bytes)) : Prop :=
  ∀ before item after, items = before ++ item :: after →
    ¬Stale libc format ((before.map fun item => item.1.currentSecond).reverse ++ history) item.1.currentSecond

theorem neverStale_nil {history : List Int} : NeverStale libc format history [] := by
  intro before item after h
  simp at h

theorem neverStale_cons {history : List Int} {item : LogRecordView × Bytes} {items : List (LogRecordView × Bytes)} :
    NeverStale libc format history (item :: items) ↔
      ¬Stale libc format history item.1.currentSecond ∧
        NeverStale libc format (item.1.currentSecond :: history) items := by
  constructor
  · intro h
    refine ⟨h [] item items rfl, ?_⟩
    intro before next after hsplit
    have := h (item :: before) next after (by rw [hsplit]; rfl)
    simpa using this
  · rintro ⟨hhead, htail⟩ before next after hsplit
    cases before with
    | nil =>
        cases hsplit
        exact hhead
    | cons first before =>
        cases hsplit
        simpa using htail before next after rfl

def exactOutputs (libc : Libc Tm) (format : Bytes) (items : List (LogRecordView × Bytes)) : List Bytes :=
  items.map fun item => item.2 ++ libc.convert format item.1.currentSecond

theorem formatDates_cons (log : AssertFailure → σ → σ) {record : LogRecordView} {output : Bytes}
    {items : List (LogRecordView × Bytes)} {st st' : ThreadState σ} {text : Bytes}
    (h : formatDateTime libc (logging log) format record st output = some (st', text)) :
    formatDates libc (logging log) format ((record, output) :: items) st =
      (formatDates libc (logging log) format items st').map fun q => (q.1, text :: q.2) := by
  rw [formatDates, h]
  rfl

theorem Holds.formatDates {history : List Int} {st : ThreadState σ} (h : Holds libc format history st.cache)
    (log : AssertFailure → σ → σ) {items : List (LogRecordView × Bytes)}
    (hstale : NeverStale libc format history items) :
    ∃ st', formatDates libc (logging log) format items st = some (st', exactOutputs libc format items) := by
  induction items generalizing history st with
  | nil => exact ⟨st, rfl⟩
  | cons item items ih =>
      obtain ⟨hhead, htail⟩ := neverStale_cons.mp hstale
      obtain ⟨next, hnext, hholds⟩ := h.formatDateTime log item.1 item.2 hhead
      obtain ⟨st', hrest⟩ := ih hholds htail
      refine ⟨st', ?_⟩
      rw [formatDates_cons log hnext, hrest]
      rfl

/-- A stale cache shows. An empty array gives away a second that has a text, a byte in it one that has none. -/
theorem Stale.shows {history : List Int} {second : Int} {cache : Bytes → DateCache}
    (hstale : Stale libc format history second)
    (h : ∀ array, Holds (libc.leaving array) format history (cache array)) :
    ∃ array, (cache array).lastSecond = second ∧
      cString (cache array).cachedDateTime ≠ libc.convert format second := by
  have hlast : ∀ array, (cache array).lastSecond = second := fun array =>
    (h array).lastSecond.trans hstale.1.symm
  by_cases hspoiled : Spoiled libc format history
  · have harray : ∀ array, (cache array).cachedDateTime = array := fun array =>
      (h array).spoiled array (fun _ _ _ _ => rfl) hspoiled
    cases htext : libc.dateText format second with
    | some text =>
        refine ⟨[], hlast [], ?_⟩
        rw [harray, Libc.convert, htext]
        exact (dateText_ne_nil htext).symm
    | none =>
        refine ⟨[1], hlast [1], ?_⟩
        rw [harray, Libc.convert, htext]
        decide
  · obtain ⟨hnone, hsome⟩ := hstale.2.resolve_left hspoiled
    obtain ⟨text, htext⟩ := Option.isSome_iff_exists.mp hsome
    have hempty : cString (cache []).cachedDateTime = [] := by
      rw [(h []).text hspoiled]
      show ((latestConverted libc format history).map _).getD [] = []
      rw [hnone]
      rfl
    refine ⟨[], hlast [], ?_⟩
    rw [hempty, Libc.convert, htext]
    exact (dateText_ne_nil htext).symm

/-- Where every array that `strftime` may leave gives exact outputs, no item met a stale cache. -/
theorem neverStale_of_exact {history : List Int} {st : Bytes → ThreadState σ}
    (h : ∀ array, Holds (libc.leaving array) format history (st array).cache) (log : AssertFailure → σ → σ)
    {items : List (LogRecordView × Bytes)}
    (hexact : ∀ array, ∃ st', formatDates (libc.leaving array) (logging log) format items (st array) =
      some (st', exactOutputs libc format items)) :
    NeverStale libc format history items := by
  induction items generalizing history st with
  | nil => exact neverStale_nil
  | cons item items ih =>
      have hhead : ¬Stale libc format history item.1.currentSecond := by
        intro hstale
        obtain ⟨array, hlast, hne⟩ := hstale.shows h
        obtain ⟨st', hrun⟩ := hexact array
        rw [formatDates_cons log (formatDateTime_cached hlast)] at hrun
        obtain ⟨q, _, hq⟩ := Option.map_eq_some_iff.mp hrun
        have hout : item.2 ++ cString (st array).cache.cachedDateTime =
            item.2 ++ libc.convert format item.1.currentSecond := (List.cons.inj (Prod.mk.inj hq).2).1
        exact hne (List.append_cancel_left hout)
      have hstep := fun array => (h array).formatDateTime log item.1 item.2 hhead
      choose next hnext hholds using hstep
      refine neverStale_cons.mpr ⟨hhead, ih hholds ?_⟩
      intro array
      obtain ⟨st', hrun⟩ := hexact array
      rw [formatDates_cons log (hnext array)] at hrun
      obtain ⟨q, hrest, hq⟩ := Option.map_eq_some_iff.mp hrun
      refine ⟨q.1, ?_⟩
      rw [hrest]
      exact congrArg some (Prod.ext rfl (List.cons.inj (Prod.mk.inj hq).2).2)

/-! ## Several formatters with one date format -/

/-- The cache was never filled, or it holds the text of its second. -/
def Sound (libc : Libc Tm) (format : Bytes) (cache : DateCache) : Prop :=
  cache.lastSecond = 0 ∨ libc.dateText format cache.lastSecond = some (cString cache.cachedDateTime)

theorem Carries.head {item : FormatItem} {items : List FormatItem} {second : Int}
    (h : Carries libc format (item :: items) second) : Carries libc format [item] second := by
  intro f hf
  obtain rfl := List.mem_singleton.mp hf
  exact h f List.mem_cons_self

theorem Carries.tail {item : FormatItem} {items : List FormatItem} {second : Int}
    (h : Carries libc format (item :: items) second) : Carries libc format items second :=
  fun f hf => h f (List.mem_cons_of_mem _ hf)

variable {onAssert : AssertHandler σ}

/-- An item keeps the cache sound. Apart from the second 0, it writes its own text. -/
theorem Sound.formatItem {record : LogRecordView} {item : FormatItem} {st : ThreadState σ}
    (h : Sound libc format st.cache) (hitem : Carries libc format [item] record.currentSecond) (output : Bytes) :
    ∃ cache text, item.format libc onAssert record st output = some ({ st with cache }, output ++ text) ∧
      Sound libc format cache ∧
      (record.currentSecond ≠ 0 ∨ item.dateFormat = none →
        text = item.text (fun f => libc.convert f record.currentSecond) record) := by
  cases hdate : item.dateFormat with
  | none => exact ⟨st.cache, _, format_of_not_date hdate _ st output, h, fun _ => rfl⟩
  | some f =>
      cases item with
      | dateTime f =>
          obtain ⟨rfl, hsome⟩ := hitem f (List.mem_singleton.mpr rfl)
          obtain ⟨text, htext⟩ := Option.isSome_iff_exists.mp hsome
          have hconvert : libc.convert f record.currentSecond = text := by rw [Libc.convert, htext]; rfl
          by_cases hsecond : st.cache.lastSecond = record.currentSecond
          · refine ⟨st.cache, _, formatDateTime_cached hsecond, h, ?_⟩
            rintro (hzero | hnone)
            · rcases h with hlast | hlast
              · exact absurd (hsecond.symm.trans hlast) hzero
              · rw [hsecond, htext] at hlast
                exact (Option.some.inj hlast).symm.trans hconvert.symm
            · cases hnone
          · obtain ⟨cache, hlast, hcached, hformat⟩ := formatDateTime_converted hsecond htext
            refine ⟨cache, text, hformat, Or.inr ?_, fun _ => hconvert.symm⟩
            rw [hlast, hcached, htext]
      | _ => cases hdate

theorem Sound.formatItems {record : LogRecordView} {items : List FormatItem} {st : ThreadState σ}
    (h : Sound libc format st.cache) (hitems : Carries libc format items record.currentSecond) (output : Bytes) :
    ∃ cache text, formatItems libc onAssert record items st output = some ({ st with cache }, output ++ text) ∧
      Sound libc format cache ∧
      (record.currentSecond ≠ 0 ∨ (∀ f, .dateTime f ∉ items) → text = libc.render items record) := by
  induction items generalizing st output with
  | nil => exact ⟨st.cache, [], by simp [Pans.formatItems], h, fun _ => rfl⟩
  | cons item items ih =>
      obtain ⟨cache, text, hformat, hsound, htext⟩ := h.formatItem hitems.head output
      obtain ⟨cache', text', hrest, hsound', htext'⟩ :=
        @ih { st with cache } hsound hitems.tail (output ++ text)
      refine ⟨cache', text ++ text', ?_, hsound', ?_⟩
      · rw [Pans.formatItems, hformat, Option.bind_some, hrest, List.append_assoc]
      · intro hcase
        rw [Libc.render, List.flatMap_cons, htext, htext']
        · rfl
        · exact hcase.imp_right fun hno f hf => hno f (List.mem_cons_of_mem _ hf)
        · refine hcase.imp_right fun hno => ?_
          cases item with
          | dateTime f => exact absurd List.mem_cons_self (hno f)
          | _ => rfl

/-- Whatever the turns of the other formatters, an own turn writes the rendering of its record. -/
theorem Sound.formatTurns {F : Formatter} {turns : List Turn} {st : ThreadState σ} (h : Sound libc format st.cache)
    (hcarries : ∀ turn ∈ turns, Carries libc format (turn.formatter F).items turn.record.currentSecond)
    (hzero : ∀ record ∈ ownRecords turns, record.currentSecond ≠ 0 ∨ ∀ f, .dateTime f ∉ F.items) :
    ∃ st', F.formatTurns libc onAssert turns st =
      some (st', (ownRecords turns).map fun record => libc.render F.items record) := by
  induction turns generalizing st with
  | nil => exact ⟨st, rfl⟩
  | cons turn turns ih =>
      have htail : ∀ turn ∈ turns, Carries libc format (turn.formatter F).items turn.record.currentSecond :=
        fun turn hturn => hcarries turn (List.mem_cons_of_mem _ hturn)
      obtain ⟨cache, text, hformat, hsound, htext⟩ := h.formatItems (hcarries turn List.mem_cons_self) []
      cases turn with
      | own record =>
          obtain ⟨st', hrest⟩ := @ih { st with cache } hsound htail fun record hrecord =>
            hzero record (List.mem_cons_of_mem _ hrecord)
          have hown : F.format libc onAssert record st [] = some ({ st with cache }, libc.render F.items record) := by
            rw [htext (hzero record List.mem_cons_self)] at hformat
            exact hformat
          refine ⟨st', ?_⟩
          rw [Formatter.formatTurns, hown, Option.bind_some, hrest]
          rfl
      | other G record =>
          obtain ⟨st', hrest⟩ := @ih { st with cache } hsound htail hzero
          have hother : G.format libc onAssert record st [] = some ({ st with cache }, text) := hformat
          refine ⟨st', ?_⟩
          rw [Formatter.formatTurns, hother, Option.bind_some, hrest]
          rfl

end

end Pans
