import Mathlib.Algebra.Ring.Nat
import Pans.Formatter.Text

/-!
# What `format` writes

One lemma for each way through the date item, then the loop over the items.
-/

namespace Pans

/-! ## Integers -/

theorem decimalDigits_length {n k : Nat} (h : n < 10 ^ (k + 1)) : (decimalDigits n).length ≤ k + 1 := by
  induction k generalizing n with
  | zero =>
      rw [decimalDigits, if_pos (by omega)]
      exact Nat.le_refl _
  | succ k ih =>
      rw [decimalDigits]
      split
      · simp
      · have hdiv : n / 10 < 10 ^ (k + 1) := by
          rw [Nat.pow_succ] at h
          exact Nat.div_lt_of_lt_mul (by omega)
        have := ih hdiv
        simp only [List.length_append, List.length_singleton]
        omega

theorem numeral_length {value : Int} (h : value.natAbs < 2 ^ 64) : (numeral value).length ≤ 21 := by
  have hdigits : (decimalDigits value.natAbs).length ≤ 19 + 1 := decimalDigits_length (by omega)
  unfold numeral
  split
  · simp only [List.length_cons]
    omega
  · omega

section

variable {Tm σ : Type} {libc : Libc Tm} {onAssert : AssertHandler σ}

theorem appendInteger_eq {value : Int} (h : value.natAbs < 2 ^ 64) (st : ThreadState σ) (output : Bytes) :
    appendInteger onAssert value st output = some (st, output ++ numeral value) := by
  have hfits : (numeral value).length ≤ 24 := Nat.le_trans (numeral_length h) (by decide)
  simp only [appendInteger, toChars, if_pos hfits]

theorem integer_small {record : LogRecordView} {item : FormatItem} {value : Int}
    (h : item.integer record = some value) : value.natAbs < 2 ^ 64 := by
  cases item with
  | elapsed =>
      cases h
      have hlt := record.elapsed.toInt_lt
      have hge := record.elapsed.le_toInt
      rw [Int.natAbs_tdiv]
      exact Nat.lt_of_le_of_lt (Nat.div_le_self _ _) (by omega)
  | threadId =>
      cases h
      exact record.threadId.toNat_lt
  | fiberId =>
      cases h
      exact record.fiberId.toNat_lt
  | line =>
      cases h
      exact Nat.lt_trans record.line.toNat_lt (by decide)
  | _ => cases h

theorem format_integer {record : LogRecordView} {item : FormatItem} {value : Int}
    (h : item.integer record = some value) (st : ThreadState σ) (output : Bytes) :
    item.format libc onAssert record st output = some (st, output ++ numeral value) := by
  have hsmall := integer_small h
  cases item with
  | elapsed =>
      cases h
      exact appendInteger_eq hsmall st output
  | threadId =>
      cases h
      exact appendInteger_eq hsmall st output
  | fiberId =>
      cases h
      exact appendInteger_eq hsmall st output
  | line =>
      cases h
      exact appendInteger_eq hsmall st output
  | _ => cases h

theorem format_of_not_date {record : LogRecordView} {item : FormatItem} (h : item.dateFormat = none)
    (date : Bytes → Bytes) (st : ThreadState σ) (output : Bytes) :
    item.format libc onAssert record st output = some (st, output ++ item.text date record) := by
  cases item with
  | dateTime format => cases h
  | elapsed => exact format_integer rfl st output
  | threadId => exact format_integer rfl st output
  | fiberId => exact format_integer rfl st output
  | line => exact format_integer rfl st output
  | _ => rfl

/-! ## The date item -/

theorem formatDateTime_cached {format : Bytes} {record : LogRecordView} {st : ThreadState σ} {output : Bytes}
    (h : st.cache.lastSecond = record.currentSecond) :
    formatDateTime libc onAssert format record st output =
      some (st, output ++ cString st.cache.cachedDateTime) := by
  rw [formatDateTime, if_neg (fun hne => hne h.symm)]

theorem formatDateTime_converted {format : Bytes} {record : LogRecordView} {st : ThreadState σ} {output text : Bytes}
    (hsecond : st.cache.lastSecond ≠ record.currentSecond)
    (htext : libc.dateText format record.currentSecond = some text) :
    ∃ cache : DateCache, cache.lastSecond = record.currentSecond ∧ cString cache.cachedDateTime = text ∧
      formatDateTime libc onAssert format record st output = some ({ st with cache }, output ++ text) := by
  simp only [Libc.dateText] at htext
  split at htext
  · cases htext
  · rename_i tm htm
    split at htext
    · rename_i hsize
      cases htext
      let array := (libc.strftime st.cache.cachedDateTime 20 (cString format) tm).2
      have harray : cString array = libc.expand (cString format) tm := by
        simp only [array, Libc.strftime, if_pos hsize]
        exact cString_append_nul (libc.expand_no_nul _ tm) _
      have hlength : (libc.strftime st.cache.cachedDateTime 20 (cString format) tm).1 ≠ 0 := by
        simp only [Libc.strftime, if_pos hsize]
        exact Nat.pos_iff_ne_zero.mp hsize.1
      refine ⟨⟨record.currentSecond, array⟩, rfl, harray, ?_⟩
      rw [formatDateTime, if_pos hsecond.symm, htm]
      simp only [if_pos hlength, ← harray]
      rfl
    · cases htext

theorem formatDateTime_localtime_failed {format : Bytes} {record : LogRecordView} {st : ThreadState σ}
    {output : Bytes} (hsecond : st.cache.lastSecond ≠ record.currentSecond)
    (htm : libc.localtime_r record.currentSecond = none) :
    ∃ failure, formatDateTime libc onAssert format record st output =
      assertRetNone onAssert failure st output := by
  rw [formatDateTime, if_pos hsecond.symm, htm]
  exact ⟨_, rfl⟩

theorem formatDateTime_overwritten {format : Bytes} {record : LogRecordView} {st : ThreadState σ} {output : Bytes}
    {tm : Tm} (hsecond : st.cache.lastSecond ≠ record.currentSecond)
    (htm : libc.localtime_r record.currentSecond = some tm)
    (htext : libc.dateText format record.currentSecond = none) :
    ∃ failure, formatDateTime libc onAssert format record st output =
      assertRetNone onAssert failure
        { st with cache :=
          { st.cache with cachedDateTime := libc.scratch 20 (cString format) tm st.cache.cachedDateTime } }
        output := by
  simp only [Libc.dateText, htm, ite_eq_right_iff, reduceCtorEq, imp_false] at htext
  have hresult : libc.strftime st.cache.cachedDateTime 20 (cString format) tm =
      (0, libc.scratch 20 (cString format) tm st.cache.cachedDateTime) := by
    simp only [Libc.strftime, if_neg htext]
  rw [formatDateTime, if_pos hsecond.symm, htm]
  simp only [hresult, ne_eq, not_true_eq_false, if_false]
  exact ⟨_, rfl⟩

/-- Without a text, the assertion fails. The second of the cache stays, its text may be gone. -/
theorem formatDateTime_failed {format : Bytes} {record : LogRecordView} {st : ThreadState σ} {output : Bytes}
    (hsecond : st.cache.lastSecond ≠ record.currentSecond)
    (htext : libc.dateText format record.currentSecond = none) :
    ∃ failure cache, cache.lastSecond = st.cache.lastSecond ∧
      formatDateTime libc onAssert format record st output =
        assertRetNone onAssert failure { st with cache } output := by
  cases htm : libc.localtime_r record.currentSecond with
  | none =>
      obtain ⟨failure, hfailure⟩ := formatDateTime_localtime_failed hsecond htm
      exact ⟨failure, st.cache, rfl, hfailure⟩
  | some tm =>
      obtain ⟨failure, hfailure⟩ := formatDateTime_overwritten hsecond htm htext
      exact ⟨failure, _, by rfl, hfailure⟩

/-! ## The loop over the items -/

theorem formatItems_append (record : LogRecordView) (pre post : List FormatItem) (st : ThreadState σ)
    (output : Bytes) :
    formatItems libc onAssert record (pre ++ post) st output =
      (formatItems libc onAssert record pre st output).bind fun p =>
        formatItems libc onAssert record post p.1 p.2 := by
  induction pre generalizing st output with
  | nil => rfl
  | cons item pre ih =>
      simp only [List.cons_append, formatItems, ih, Option.bind_assoc]

/-- The text that date items will write: that of the cache, or that of the first date format. -/
def DateReady (libc : Libc Tm) (items : List FormatItem) (second : Int) (cache : DateCache) (text : Bytes) : Prop :=
  ∀ format, firstDateFormat items = some format →
    if cache.lastSecond = second then cString cache.cachedDateTime = text
    else libc.dateText format second = some text

theorem DateReady.of_cached {items : List FormatItem} {second : Int} {cache : DateCache} {text : Bytes}
    (hsecond : cache.lastSecond = second) (htext : cString cache.cachedDateTime = text) :
    DateReady libc items second cache text := by
  intro format _
  rw [if_pos hsecond]
  exact htext

theorem DateReady.tail {item : FormatItem} {items : List FormatItem} {second : Int} {cache : DateCache}
    {text : Bytes} (h : DateReady libc (item :: items) second cache text) (hitem : item.dateFormat = none) :
    DateReady libc items second cache text := by
  intro format hformat
  apply h
  rwa [firstDateFormat, List.findSome?_cons, hitem]

/-- Once the date text is settled, no assertion is reached and each item writes its text. -/
theorem formatItems_eq {record : LogRecordView} {items : List FormatItem} {text : Bytes} (st : ThreadState σ)
    (output : Bytes) (h : DateReady libc items record.currentSecond st.cache text) :
    ∃ cache, formatItems libc onAssert record items st output =
      some ({ st with cache }, output ++ items.flatMap (FormatItem.text (fun _ => text) record)) := by
  induction items generalizing st output with
  | nil => exact ⟨st.cache, by simp [formatItems]⟩
  | cons item items ih =>
      rw [formatItems]
      cases hitem : item.dateFormat with
      | none =>
          obtain ⟨cache, hrest⟩ := ih st (output ++ item.text (fun _ => text) record) (h.tail hitem)
          refine ⟨cache, ?_⟩
          rw [format_of_not_date hitem (fun _ => text), Option.bind_some, hrest]
          simp
      | some format =>
          cases item with
          | dateTime format =>
              have hready := h format rfl
              by_cases hsecond : st.cache.lastSecond = record.currentSecond
              · rw [if_pos hsecond] at hready
                obtain ⟨cache, hrest⟩ := ih st (output ++ text) (DateReady.of_cached hsecond hready)
                refine ⟨cache, ?_⟩
                rw [FormatItem.format, formatDateTime_cached hsecond, hready, Option.bind_some, hrest]
                simp [FormatItem.text]
              · rw [if_neg hsecond] at hready
                obtain ⟨cache, hlast, hcached, hdate⟩ := formatDateTime_converted hsecond hready
                obtain ⟨cache', hrest⟩ := ih { st with cache } (output ++ text)
                  (DateReady.of_cached hlast hcached)
                refine ⟨cache', ?_⟩
                rw [FormatItem.format, hdate, Option.bind_some, hrest]
                simp [FormatItem.text]
          | _ => cases hitem

end

end Pans
