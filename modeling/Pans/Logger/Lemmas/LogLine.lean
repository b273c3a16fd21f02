import Pans.Buffer.Lemmas.Write
import Pans.Logger.LogLine

/-!
# What a line submits
-/

namespace Pans

namespace SmallStreamBuffer

variable {inlineCapacity : ArraySize}

/-- A new buffer takes the bytes in front of `size`, or it is refused storage and stays empty. -/
theorem xsputn_new (data : Chars) {size : Nat} (hsize : size ≤ data.val.length) (allocations : AppendAllocations) :
    xsputn (.new : InlineBuffer inlineCapacity) data size allocations = .threw .new ∧
        allocations.Refuse (max size (2 * inlineCapacity)) ∨
      ∃ buffer, xsputn (.new : InlineBuffer inlineCapacity) data size allocations = .done buffer size ∧
        buffer.Represents (data.val.take size) := by
  have hreadable : (size : Int) ≤ data.val.length := Int.ofNat_le.mpr hsize
  have hbytes : (Write.xsputn data size hreadable).bytes = data.val.take size := rfl
  have hperform := (@InlineBuffer.new_represents inlineCapacity).perform (.xsputn data size hreadable) allocations
  rw [hbytes, List.length_take, Nat.min_eq_left hsize, List.length_nil, Nat.zero_add, List.nil_append] at hperform
  cases hx : xsputn (.new : InlineBuffer inlineCapacity) data size allocations with
  | done buffer written =>
      rw [Write.perform, hx] at hperform
      rcases hperform with ⟨hthrew, _⟩ | ⟨_, hdone, hrepresents⟩
      · cases hthrew
      · simp only [Outcome.bind, Write.result, Outcome.done.injEq, Write.Result.size.injEq] at hdone
        obtain ⟨rfl, rfl⟩ := hdone
        exact .inr ⟨buffer, by simp, hrepresents⟩
  | threw buffer =>
      rw [Write.perform, hx] at hperform
      rcases hperform with ⟨hthrew, hrefuse⟩ | ⟨_, hdone, _⟩
      · cases hthrew
        exact .inl ⟨rfl, hrefuse⟩
      · cases hdone
  | undefined =>
      rw [Write.perform, hx] at hperform
      rcases hperform with ⟨hthrew, _⟩ | ⟨_, hdone, _⟩
      · cases hthrew
      · cases hdone

end SmallStreamBuffer

namespace PrintfStorage.Granted

variable {storage : PrintfStorage}

theorem not_refuse (h : storage.Granted) {needed : Nat} (hneeded : needed < objectLimit) :
    ¬storage.message.Refuse needed := by
  rintro (hreserve | hinsert | hlimit)
  · exact h.2.1 hreserve
  · exact h.2.2 hinsert
  · exact Nat.not_lt.mpr hlimit hneeded

end PrintfStorage.Granted

section

variable {loggers : Loggers} {logger : LoggerId} {level : LogLevel} {context : LogContext} {storage : PrintfStorage}

/-- The line is left with the text as its message, or with none if there is no storage for the text. -/
def LogLine.LeavesWith (loggers : Loggers) (logger : LoggerId) (level : LogLevel) (context : LogContext)
    (storage : PrintfStorage) (text : Bytes) (x : Outcome LogLine Unit) : Prop :=
  ∃ line message, (x = .done line () ∨ x = .threw line ∧ ¬storage.Granted) ∧
    (message = text ∨ message = [] ∧ ¬storage.Granted) ∧ line.logger = logger ∧
    line.getRecord loggers = some (context.getRecord level (loggers logger).name message)

namespace LogLine

theorem getRecord_of_view {line : LogLine} {message : Bytes} (hlogger : line.logger = logger)
    (hlevel : line.level = level) (hcontext : line.context = context) (hview : line.inlineBuffer.view = some message) :
    line.getRecord loggers = some (context.getRecord level (loggers logger).name message) := by
  rw [getRecord, hview, hlogger, hlevel, hcontext, Option.map_some]

theorem write_leavesWith {text data : Bytes} (hpre : text <+: data) (hsmall : data.length < 2 ^ 32) :
    LeavesWith loggers logger level context storage text
      ((new logger level context).write data text.length storage.message) := by
  have hlimit : data.length < objectLimit := Nat.lt_of_lt_of_le hsmall (by decide)
  have htake : data.take text.length = text := (List.prefix_iff_eq_take.mp hpre).symm
  have hneeded : max text.length (2 * logMessageInlineCapacity) < objectLimit :=
    Nat.max_lt.mpr ⟨Nat.lt_of_le_of_lt hpre.length_le hlimit, by decide⟩
  rw [write, if_neg (by simp [new]), dif_pos hlimit]
  rcases @SmallStreamBuffer.xsputn_new logMessageInlineCapacity ⟨data, hlimit⟩ text.length hpre.length_le
    storage.message with ⟨hthrew, hrefuse⟩ | ⟨buffer, hdone, hrepresents⟩
  · refine ⟨_, [], .inl (by rw [new, hthrew]), .inr ⟨rfl, fun hgranted => hgranted.not_refuse hneeded hrefuse⟩, rfl, ?_⟩
    exact getRecord_of_view rfl rfl rfl InlineBuffer.new_represents.view_eq
  · rw [htake] at hrepresents
    refine ⟨_, text, .inl (by rw [new, hdone]), .inl rfl, rfl, ?_⟩
    exact getRecord_of_view rfl rfl rfl hrepresents.view_eq

theorem LeavesWith.leaving {text : Bytes} {x : Outcome LogLine Unit} (submitted : Submitted)
    (h : LeavesWith loggers logger level context storage text x) :
    ∃ message, (message = text ∨ message = [] ∧ ¬storage.Granted) ∧
      let submitted' := submitted ++ [(logger, context.getRecord level (loggers logger).name message)]
      ((x.leaving fun line => line.destroy loggers submitted) = .done submitted' () ∨
        (x.leaving fun line => line.destroy loggers submitted) = .threw submitted' ∧ ¬storage.Granted) := by
  obtain ⟨line, message, hx, hmessage, rfl, hrecord⟩ := h
  refine ⟨message, hmessage, ?_⟩
  rcases hx with rfl | ⟨rfl, hrefused⟩
  · left
    simp [Outcome.leaving, Outcome.bind, destroy, hrecord]
  · right
    simp [Outcome.leaving, Outcome.bind, destroy, hrecord, hrefused]

end LogLine

/-! ## The passes -/

theorem storeText_prefix {text array : Bytes} (h : text.length < array.length) : text <+: storeText text array := by
  rw [storeText, List.take_of_length_le (by omega)]
  exact List.prefix_append _ _

theorem Vsnprintf.text_stored (vsnprintf : Vsnprintf) {pass : Pass} {format array : Bytes}
    (hresult : 0 ≤ (vsnprintf.call pass format array).1) (hfits : (vsnprintf.expand format).length < array.length) :
    vsnprintf.expand format <+: (vsnprintf.call pass format array).2 := by
  have hne : array ≠ [] := List.ne_nil_of_length_pos (Nat.zero_lt_of_lt hfits)
  rw [vsnprintf.stores_text pass format array hresult hne]
  exact storeText_prefix hfits

/-- What `LogPrintf` is to write: the text, unless the format is null or a pass that is made fails. -/
def printfMessage (vsnprintf : Vsnprintf) (inlineBuffer : CharArray printfFormatInlineCapacity) : Option Bytes → Bytes
  | none => ascii "<null-format>"
  | some format =>
      let text := vsnprintf.expand format
      if (vsnprintf.call .first format inlineBuffer).1 < 0 ∨ printfFormatInlineCapacity.val ≤ text.length ∧
          (vsnprintf.call .second format (List.replicate (text.length + 1) 0)).1 < 0 then ascii "<format-error>"
      else text

theorem formatLine_leavesWith (vsnprintf : Vsnprintf) (inlineBuffer : CharArray printfFormatInlineCapacity)
    (format : Option Bytes) :
    LogLine.LeavesWith loggers logger level context storage (printfMessage vsnprintf inlineBuffer format)
      (formatLine vsnprintf inlineBuffer storage (.new logger level context) format) := by
  have hinsert : ∀ text : Bytes, text.length < 2 ^ 32 → LogLine.LeavesWith loggers logger level context storage text
      ((LogLine.new logger level context).insert text storage.message) :=
    fun text hsmall => LogLine.write_leavesWith (List.prefix_refl text) hsmall
  cases format with
  | none => exact hinsert (ascii "<null-format>") (by decide)
  | some format =>
      simp only [formatLine, printfMessage]
      by_cases hfirst : (vsnprintf.call .first format inlineBuffer).1 < 0
      · simpa [hfirst] using hinsert (ascii "<format-error>") (by decide)
      have hresult := Int.not_lt.mp hfirst
      obtain ⟨hsmall, hsize⟩ := vsnprintf.returns_size .first format inlineBuffer hresult
      have hsizeNat : (vsnprintf.call .first format inlineBuffer).1.toNat = (vsnprintf.expand format).length := by
        rw [hsize, Int.toNat_natCast]
      simp only [hfirst, if_false, false_or, hsizeNat]
      by_cases hfits : (vsnprintf.expand format).length < printfFormatInlineCapacity.val
      · have harray : inlineBuffer.val.length = printfFormatInlineCapacity.val := inlineBuffer.property
        simp only [hfits, if_true, Nat.not_le.mpr hfits, false_and, if_false]
        apply LogLine.write_leavesWith (vsnprintf.text_stored hresult (by rwa [harray]))
        rw [vsnprintf.keeps_size, harray]
        decide
      have hlong := Nat.not_lt.mp hfits
      simp only [hfits, if_false, hlong, true_and]
      cases hstorage : storage.overflowBuffer with
      | false =>
          have hrefused : ¬storage.Granted := by simp [PrintfStorage.Granted, hstorage]
          exact ⟨_, [], .inr ⟨rfl, hrefused⟩, .inr ⟨rfl, hrefused⟩, rfl,
            LogLine.getRecord_of_view rfl rfl rfl InlineBuffer.new_represents.view_eq⟩
      | true =>
          by_cases hsecond : (vsnprintf.call .second format
              (List.replicate ((vsnprintf.expand format).length + 1) 0)).1 < 0
          · simpa [hsecond] using hinsert (ascii "<format-error>") (by decide)
          · simp only [hsecond, if_true, if_false]
            apply LogLine.write_leavesWith (vsnprintf.text_stored (Int.not_lt.mp hsecond) (by simp))
            rw [vsnprintf.keeps_size, List.length_replicate]
            omega

end

end Pans
