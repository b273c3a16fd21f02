import Pans.Buffer.InlineBuffer

/-!
# What a buffer holds

A buffer represents a byte string: in its array as long as that fits, in its vector from then on. An `append` adds
to the string, or it throws and the buffer is as before.
-/

namespace Pans

/-- A request for storage is refused, or more is needed than a vector can hold. The insertion of the inline bytes
never asks for storage. -/
def AppendAllocations.Refuse (allocations : AppendAllocations) (needed : Nat) : Prop :=
  allocations.reserve = none ∨ allocations.insertData = none ∨ objectLimit ≤ needed

namespace InlineBuffer

variable {inlineCapacity : ArraySize}

structure Represents (this : InlineBuffer inlineCapacity) (content : Bytes) : Prop where
  size : this.size = content.length
  small : content.length < objectLimit
  inline : content.length ≤ inlineCapacity →
    this.overflow.toList = [] ∧ this.inline.val.take content.length = content
  overflow : inlineCapacity < content.length → this.overflow.toList = content

variable {this this' : InlineBuffer inlineCapacity} {content : Bytes} {data : Chars} {allocations : AppendAllocations}

theorem new_represents : (new : InlineBuffer inlineCapacity).Represents [] where
  size := rfl
  small := Nat.two_pow_pos 63
  inline _ := ⟨rfl, rfl⟩
  overflow := nofun

namespace Represents

theorem overflow_eq_nil (h : this.Represents content) :
    this.overflow.toList = [] ↔ content.length ≤ inlineCapacity := by
  refine ⟨fun hempty => Nat.le_of_not_lt fun hlt => ?_, fun hle => (h.inline hle).1⟩
  rw [h.overflow hlt] at hempty
  simp [hempty] at hlt

theorem view_eq (h : this.Represents content) : this.view = some content := by
  rw [view, InlineBuffer.data, h.size]
  by_cases hle : content.length ≤ inlineCapacity
  · obtain ⟨hempty, htake⟩ := h.inline hle
    rw [hempty, List.isEmpty_nil, if_pos rfl, charRange_eq (by rwa [this.inline.property]), htake]
  · have hcontent := h.overflow (Nat.lt_of_not_le hle)
    rw [if_neg, hcontent, charRange_eq (Nat.le_refl _), List.take_length]
    rw [List.isEmpty_iff, h.overflow_eq_nil]
    exact hle

theorem inline_range (h : this.Represents content) (hle : content.length ≤ inlineCapacity) :
    charRange this.inline this.size = some content := by
  rw [h.size, charRange_eq (by rwa [this.inline.property]), (h.inline hle).2]

theorem addSize_size (h : this.Represents content) (data : Chars) :
    addSize this.size data.val.length = content.length + data.val.length := by
  rw [h.size, addSize_eq h.small data.property]

/-! ## Appending -/

/-- After the spill, the vector holds the content and has room for the data. -/
theorem spill (h : this.Represents content) (data : Chars) (allocations : AppendAllocations)
    (hle : content.length ≤ inlineCapacity) :
    this.spill data.val.length allocations = .threw this ∧
        allocations.Refuse (max (content.length + data.val.length) (2 * inlineCapacity)) ∨
      ∃ this', this.spill data.val.length allocations = .done this' () ∧ this'.overflow.toList = content ∧
        this'.size = content.length ∧ content.length + data.val.length ≤ this'.overflow.capacity := by
  have hempty := (h.inline hle).1
  rw [InlineBuffer.spill, h.addSize_size, h.inline_range hle, two_mulSize]
  cases hreserve : this.overflow.reserve
      (max (content.length + data.val.length) (2 * inlineCapacity)) allocations.reserve with
  | undefined => exact absurd hreserve Growable.reserve_ne_undefined
  | threw v =>
      obtain ⟨rfl, hwhy⟩ := Growable.reserve_threw hreserve
      exact .inl ⟨rfl, hwhy.imp_right fun hlimit => .inr (Nat.le_of_pred_lt hlimit)⟩
  | done v _ =>
      obtain ⟨hv, hcapacity⟩ := Growable.reserve_done hreserve
      have hroom : content.length + data.val.length ≤ v.capacity := Nat.le_trans (Nat.le_max_left _ _) hcapacity
      have hfits : v.toList.length + content.length ≤ v.capacity := by
        rw [hv, hempty, List.length_nil]
        omega
      obtain ⟨w, hinsert, hw⟩ := Growable.insertEnd_of_room allocations.insertInline hfits
      refine .inr ⟨{ this with overflow := w }, ?_, ?_, h.size, ?_⟩
      · simp only [Outcome.bind, hinsert, Outcome.within]
      · rw [Growable.insertEnd_done hinsert, hv, hempty, List.nil_append]
      · rwa [hw]

theorem inlined {array : CharArray inlineCapacity} (h : this.Represents content)
    (hfits : content.length + data.val.length ≤ inlineCapacity)
    (htake : array.val.take (content.length + data.val.length) = this.inline.val.take content.length ++ data) :
    Represents { this with inline := array, size := addSize this.size data.val.length } (content ++ data) := by
  have hle : content.length ≤ inlineCapacity := Nat.le_trans (Nat.le_add_right _ _) hfits
  obtain ⟨hempty, hcontent⟩ := h.inline hle
  constructor
  case size =>
      rw [List.length_append]
      exact h.addSize_size data
  case small =>
      rw [List.length_append]
      exact Nat.lt_of_le_of_lt hfits inlineCapacity.property
  case inline =>
      rw [List.length_append, htake, hcontent]
      exact fun _ => ⟨hempty, rfl⟩
  case overflow =>
      rw [List.length_append]
      exact fun hlong => absurd hfits (Nat.not_le.mpr hlong)

theorem insertData_done {v : Growable Byte (objectLimit - 1)} (hoverflow : this.overflow.toList = content)
    (hsize : this.size = content.length) (hlong : inlineCapacity < content.length + data.val.length)
    (hinsert : this.overflow.insertEnd data allocations.insertData = .done v ()) :
    ∃ this', this.insertData data allocations = .done this' () ∧ this'.Represents (content ++ data) := by
  have hv : v.toList = content ++ data := by rw [Growable.insertEnd_done hinsert, hoverflow]
  have hsmall : (content ++ data.val).length < objectLimit := by
    rw [← hv]
    exact Nat.lt_of_le_pred (Nat.two_pow_pos 63) v.length_le_limit
  rw [List.length_append] at hsmall
  rw [InlineBuffer.insertData, hinsert]
  refine ⟨_, rfl, ?_, by rwa [List.length_append], fun hle => ?_, fun _ => hv⟩
  · rw [List.length_append, ← hsize]
    refine addSize_eq ?_ data.property
    rw [hsize]
    exact Nat.lt_of_le_of_lt (Nat.le_add_right _ _) hsmall
  · rw [List.length_append] at hle
    exact absurd hlong (Nat.not_lt.mpr hle)

/-- An `append` appends, or it throws and leaves the buffer as it was. -/
theorem append (h : this.Represents content) (data : Chars) (allocations : AppendAllocations) :
    this.append data allocations = .threw this ∧
        allocations.Refuse (max (content.length + data.val.length) (2 * inlineCapacity)) ∨
      ∃ this', this.append data allocations = .done this' () ∧ this'.Represents (content ++ data) := by
  rw [InlineBuffer.append]
  split
  · rename_i hnone
    have hdata : data.val = [] := List.length_eq_zero_iff.mp hnone
    refine .inr ⟨this, rfl, ?_⟩
    rwa [hdata, List.append_nil]
  rename_i hsome
  simp only [List.isEmpty_iff, h.overflow_eq_nil, addSize_comm data.val.length this.size, h.addSize_size]
  split
  · rename_i hfits
    obtain ⟨hle, hfits⟩ := hfits
    obtain ⟨array, hcopy, htake⟩ := memcpy_eq this.inline hfits
    rw [← h.size] at hcopy
    rw [hcopy]
    exact .inr ⟨_, rfl, h.inlined hfits htake⟩
  rename_i hfull
  split
  · rename_i hle
    have hlong : inlineCapacity < content.length + data.val.length :=
      Nat.lt_of_not_le fun hfits => hfull ⟨hle, hfits⟩
    rcases h.spill data allocations hle with ⟨hthrew, hwhy⟩ | ⟨spilled, hspill, hoverflow, hsize, hroom⟩
    · rw [hthrew]
      exact .inl ⟨rfl, hwhy⟩
    · rw [← hoverflow] at hroom
      obtain ⟨v, hinsert, _⟩ := Growable.insertEnd_of_room allocations.insertData hroom
      rw [hspill]
      exact .inr (insertData_done hoverflow hsize hlong hinsert)
  · rename_i hlong
    have hlong := Nat.lt_of_not_le hlong
    cases hinsert : this.overflow.insertEnd data allocations.insertData with
    | undefined => exact absurd hinsert Growable.insertEnd_ne_undefined
    | threw v =>
        obtain ⟨rfl, hwhy⟩ := Growable.insertEnd_threw hinsert
        rw [InlineBuffer.insertData, hinsert]
        rw [h.overflow hlong] at hwhy
        refine .inl ⟨rfl, .inr (hwhy.imp_right fun hlimit => ?_)⟩
        exact Nat.le_trans (Nat.le_of_pred_lt hlimit) (Nat.le_max_left _ _)
    | done v _ =>
        exact .inr (insertData_done (h.overflow hlong) h.size (Nat.lt_add_right _ hlong) hinsert)

/-- What fits into the array is appended, whatever becomes of requests for storage: there are none. -/
theorem append_of_room (h : this.Represents content) (data : Chars) (allocations : AppendAllocations)
    (hfits : content.length + data.val.length ≤ inlineCapacity) :
    ∃ this', this.append data allocations = .done this' () ∧ this'.overflow = this.overflow := by
  have hempty : this.overflow.toList = [] := h.overflow_eq_nil.mpr (Nat.le_trans (Nat.le_add_right _ _) hfits)
  rw [← h.size] at hfits
  obtain ⟨array, hcopy, _⟩ := memcpy_eq this.inline hfits
  rw [h.size] at hfits
  rw [InlineBuffer.append]
  split
  · exact ⟨_, rfl, rfl⟩
  · rw [if_pos ⟨List.isEmpty_iff.mpr hempty, by rwa [addSize_comm, h.addSize_size]⟩, hcopy]
    exact ⟨_, rfl, rfl⟩

theorem append_of_done (h : this.Represents content) (hdone : this.append data allocations = .done this' ()) :
    this'.Represents (content ++ data) := by
  rcases h.append data allocations with ⟨hthrew, _⟩ | ⟨_, hdone', hthis'⟩
  · cases hdone.symm.trans hthrew
  · cases hdone.symm.trans hdone'
    exact hthis'

/-- What outgrows the array goes to the vector, behind the bytes that were in the array. -/
theorem append_of_outgrown (h : this.Represents content) (allocations : AppendAllocations)
    (hle : content.length ≤ inlineCapacity) (hlong : inlineCapacity < content.length + data.val.length) :
    this.append data allocations =
      (this.spill data.val.length allocations).bind fun this _ => this.insertData data allocations := by
  have hempty := List.isEmpty_iff.mpr (h.overflow_eq_nil.mpr hle)
  rw [InlineBuffer.append, if_neg (by omega), if_neg, if_pos hempty]
  rw [addSize_comm, h.addSize_size]
  exact fun hfits => absurd hfits.2 (Nat.not_le.mpr hlong)

theorem append_to_vector (h : this.Represents content) (allocations : AppendAllocations)
    (hlong : inlineCapacity < content.length) (hsome : 0 < data.val.length) :
    this.append data allocations = this.insertData data allocations := by
  have hfull : ¬this.overflow.toList.isEmpty = true := by
    rw [List.isEmpty_iff, h.overflow_eq_nil]
    exact Nat.not_le.mpr hlong
  rw [InlineBuffer.append, if_neg (Nat.ne_of_gt hsome), if_neg fun hfits => hfull hfits.1, if_neg hfull]

end Represents

end InlineBuffer

end Pans
