import Pans.Utils.CallStack

/-!
# The lines of a call stack

The loop writes the words of `frameCode`, for the frames that are neither skipped nor beyond the size.
-/

namespace Pans

variable (info : ExecInfo) (parser : SourceLocationParser) (cxaDemangle : Bytes → Int × Option Bytes) (linePrefix : Bytes)

theorem clamp_toNat (skip : Int) (count : Nat) : (clamp skip 0 count).toNat = min skip.toNat count := by
  unfold clamp
  split
  · omega
  · split <;> omega

theorem frameCode_enc (number : Nat) (text : Bytes) :
    (frameCode linePrefix).enc (number, text) =
      linePrefix ++ ascii "#" ++ decimalDigits number ++ ascii " " ++ text ++ [byte '\n'] := by
  have henc : (frameCode linePrefix).enc (number, text) =
      linePrefix ++ ascii "#" ++ (decimalDigits number ++ [byte ' ']) ++ (text ++ [byte '\n']) := rfl
  rw [henc]
  simp only [List.append_assoc]
  rfl

theorem frameCode_valid_iff {number : Nat} (hnumber : number < 2 ^ 31) {text : Bytes} :
    (frameCode linePrefix).Valid (number, text) ↔ byte '\n' ∉ text := by
  have hdigits : byte ' ' ∉ decimalDigits number := not_mem_decimalDigits (by decide) number
  constructor
  · exact fun h => h.2
  · exact fun h => ⟨⟨hnumber, hdigits⟩, h⟩

theorem numbered_valid_iff {texts : List Bytes} (hshort : texts.length < 2 ^ 31) :
    (∀ entry ∈ texts.mapIdx Prod.mk, (frameCode linePrefix).Valid entry) ↔ ∀ text ∈ texts, byte '\n' ∉ text := by
  constructor
  · intro h text hmem
    obtain ⟨i, hi, rfl⟩ := List.getElem_of_mem hmem
    have hvalid := h (i, texts[i]) (List.mem_mapIdx.mpr ⟨i, hi, rfl⟩)
    exact (frameCode_valid_iff linePrefix (Nat.lt_trans hi hshort)).mp hvalid
  · intro h entry hmem
    obtain ⟨i, hi, rfl⟩ := List.mem_mapIdx.mp hmem
    exact (frameCode_valid_iff linePrefix (Nat.lt_trans hi hshort)).mpr (h _ (List.getElem_mem hi))

theorem backtraceLoop_eq (firstFrame : Nat) (frames : List Address) {i : Nat} (hi : firstFrame ≤ i) (stream : Bytes) :
    backtraceLoop parser cxaDemangle linePrefix firstFrame i (frames.map fun frame => (frame, info.describe frame)) stream =
      stream ++ (frames.mapIdx fun k frame => (frameCode linePrefix).enc
        (i - firstFrame + k, frameText info parser cxaDemangle (i + k) frame)).flatten := by
  induction frames generalizing i stream with
  | nil => simp [backtraceLoop]
  | cons frame frames ih =>
      have hnumber : numeral (i - firstFrame) = decimalDigits (i - firstFrame) := by
        rw [← Int.ofNat_sub hi]
        exact numeral_natCast _
      have hnext (k : Nat) : i + 1 - firstFrame + k = i - firstFrame + (k + 1) ∧ i + 1 + k = i + (k + 1) := by omega
      rw [List.map_cons, backtraceLoop, ih (Nat.le_succ_of_le hi), List.mapIdx_cons, List.flatten_cons]
      simp only [hnext, hnumber, frameCode_enc, frameText, Nat.add_zero]
      split <;> simp only [List.append_assoc, List.append_nil]

/-- The frames that are shown, as they are numbered. -/
def shownTexts (size skip : Int32) : List Bytes :=
  ((stackTexts info parser cxaDemangle).take size.toInt.toNat).drop skip.toInt.toNat

theorem shownTexts_eq (size skip : Int32) :
    shownTexts info parser cxaDemangle size skip =
      ((info.backtrace size.toInt.toNat).drop skip.toInt.toNat).mapIdx fun i frame =>
        frameText info parser cxaDemangle (skip.toInt.toNat + i) frame := by
  refine List.ext_getElem? fun i => ?_
  simp only [shownTexts, stackTexts, ExecInfo.backtrace, List.getElem?_drop, List.getElem?_take, List.getElem?_mapIdx]
  split <;> simp

theorem getBacktrace_eq (hgranted : info.granted = true) (size skip : Int32) :
    getBacktrace info parser cxaDemangle linePrefix size skip =
      ((shownTexts info parser cxaDemangle size skip).mapIdx Prod.mk).flatMap (frameCode linePrefix).enc := by
  rw [shownTexts_eq, getBacktrace]
  split
  · rename_i hsize
    simp [ExecInfo.backtrace, Int.toNat_of_nonpos hsize]
  simp only
  split
  · rename_i hempty
    rw [List.length_eq_zero_iff.mp hempty, List.drop_nil]
    rfl
  rw [ExecInfo.backtraceSymbols, if_pos hgranted]
  set frames := info.backtrace size.toInt.toNat
  have hpairs : frames.zip (frames.map info.describe) = frames.map fun frame => (frame, info.describe frame) :=
    List.map_prod_left_eq_zip.symm
  simp only [clamp_toNat, hpairs, ← List.map_drop, backtraceLoop_eq _ _ _ _ _ _ (Nat.le_refl _), List.nil_append,
    Nat.sub_self, Nat.zero_add, List.flatMap_def]
  congr 1
  rcases Nat.le_total skip.toInt.toNat frames.length with hle | hle
  · rw [Nat.min_eq_left hle]
    refine List.ext_getElem? fun i => ?_
    simp only [List.getElem?_mapIdx, List.getElem?_map, Option.map_map]
    rfl
  · rw [Nat.min_eq_right hle, List.drop_length, List.drop_eq_nil_of_le hle]
    rfl

theorem getBacktrace_refused (hrefused : info.granted = false) (size skip : Int32) :
    getBacktrace info parser cxaDemangle linePrefix size skip = [] := by
  have hnull (frames : List Address) : info.backtraceSymbols frames = none := if_neg (by simp [hrefused])
  simp only [getBacktrace, hnull, ite_self]

/-- Of fewer frames, the first ones are shown. -/
theorem shownTexts_prefix {size size' : Int32} (h : size ≤ size') (skip : Int32) :
    shownTexts info parser cxaDemangle size skip <+: shownTexts info parser cxaDemangle size' skip := by
  have hsize : size.toInt.toNat ≤ size'.toInt.toNat := Int.toNat_le_toNat (Int32.le_iff_toInt_le.mp h)
  rw [shownTexts, shownTexts, List.drop_take, List.drop_take]
  exact List.take_prefix_take_left (Nat.sub_le_sub_right hsize _)

end Pans
