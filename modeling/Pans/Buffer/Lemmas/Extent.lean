import Pans.Buffer.Lemmas.Write

/-!
# The room that a buffer has

A buffer asks for storage for text that it has no room for: once when it moves out of its array, and then whenever its
vector is full. An `append` throws exactly if it asks and is refused.
-/

namespace Pans

/-! ## Extents -/

/-- How long a text is, and how long it can get without a request for storage. -/
structure Extent where
  size : Nat
  room : Nat

namespace Extent

variable (inlineCapacity : ArraySize)

/-- The room that a request for storage gives; `none` if it is refused. -/
def request (extent : Extent) (more : Nat) (allocations : AppendAllocations) : Option Nat :=
  if extent.size ≤ inlineCapacity then
    Growable.grown (objectLimit - 1) (max (extent.size + more) (2 * inlineCapacity)) allocations.reserve
  else Growable.grown (objectLimit - 1) (extent.size + more) allocations.insertData

/-- `more` bytes are appended; `none` if the storage for them is refused. -/
def extend (extent : Extent) (more : Nat) (allocations : AppendAllocations) : Option Extent :=
  if extent.size + more ≤ extent.room then some ⟨extent.size + more, extent.room⟩
  else (extent.request inlineCapacity more allocations).map (⟨extent.size + more, ·⟩)

variable {inlineCapacity} {extent extent' : Extent} {more : Nat} {allocations : AppendAllocations}

theorem extend_of_room (h : extent.size + more ≤ extent.room) :
    extent.extend inlineCapacity more allocations = some ⟨extent.size + more, extent.room⟩ := if_pos h

theorem extend_of_full (h : extent.room < extent.size + more) :
    extent.extend inlineCapacity more allocations =
      (extent.request inlineCapacity more allocations).map (⟨extent.size + more, ·⟩) := if_neg (Nat.not_le.mpr h)

theorem le_request {room : Nat} (h : extent.request inlineCapacity more allocations = some room) :
    extent.size + more ≤ room := by
  unfold request at h
  split at h
  · exact Nat.le_trans (Nat.le_max_left _ _) (Growable.grown_le h)
  · exact Growable.grown_le h

/-- Room is not given back. -/
theorem extend_le (h : extent.extend inlineCapacity more allocations = some extent') :
    extent'.size = extent.size + more ∧ extent.room ≤ extent'.room := by
  by_cases hroom : extent.size + more ≤ extent.room
  · rw [extend_of_room hroom] at h
    cases h
    exact ⟨rfl, Nat.le_refl _⟩
  · rw [extend_of_full (Nat.lt_of_not_le hroom)] at h
    obtain ⟨room, hrequest, rfl⟩ := Option.map_eq_some_iff.mp h
    exact ⟨rfl, Nat.le_trans (Nat.le_of_not_le hroom) (le_request hrequest)⟩

end Extent

/-! ## Buffers -/

namespace InlineBuffer

variable {inlineCapacity : ArraySize}

structure Occupies (this : InlineBuffer inlineCapacity) (extent : Extent) (content : Bytes) : Prop
    extends this.Represents content where
  length : extent.size = content.length
  array : content.length ≤ inlineCapacity → extent.room = inlineCapacity ∧ this.overflow.capacity = 0
  vector : inlineCapacity < content.length → extent.room = this.overflow.capacity

variable {this : InlineBuffer inlineCapacity} {extent : Extent} {content : Bytes} {allocations : AppendAllocations}

theorem new_occupies : (new : InlineBuffer inlineCapacity).Occupies ⟨0, inlineCapacity⟩ [] :=
  ⟨new_represents, rfl, fun _ => ⟨rfl, rfl⟩, nofun⟩

theorem insertData_of_done {data : Chars} {v : Growable Byte (objectLimit - 1)}
    (hinsert : this.overflow.insertEnd data allocations.insertData = .done v ()) :
    ∃ this', this.insertData data allocations = .done this' () ∧ this'.overflow = v := by
  rw [InlineBuffer.insertData, hinsert]
  exact ⟨_, rfl, rfl⟩

namespace Occupies

theorem size_le_room (h : this.Occupies extent content) : content.length ≤ extent.room := by
  by_cases hle : content.length ≤ inlineCapacity
  · rwa [(h.array hle).1]
  · have hlong := Nat.lt_of_not_le hle
    rw [h.vector hlong, ← h.overflow hlong]
    exact this.overflow.length_le

/-- An append that is done, and the capacity that it leaves. -/
theorem done {this' : InlineBuffer inlineCapacity} {data : Chars} (h : this.Occupies extent content) {room : Nat}
    (hdone : this.append data allocations = .done this' ())
    (harray : content.length + data.val.length ≤ inlineCapacity → room = inlineCapacity ∧ this'.overflow.capacity = 0)
    (hvector : inlineCapacity < content.length + data.val.length → room = this'.overflow.capacity) :
    this'.Occupies ⟨content.length + data.val.length, room⟩ (content ++ data) where
  toRepresents := h.append_of_done hdone
  length := by rw [List.length_append]
  array := by rwa [List.length_append]
  vector := by rwa [List.length_append]

/-- The first request for storage, when the bytes leave the array. -/
theorem spill (h : this.Occupies extent content) (data : Chars) (allocations : AppendAllocations)
    (hle : content.length ≤ inlineCapacity) (hsome : 0 < data.val.length) :
    extent.request inlineCapacity data.val.length allocations = none ∧
        this.spill data.val.length allocations = .threw this ∨
      ∃ this', extent.request inlineCapacity data.val.length allocations = some this'.overflow.capacity ∧
        this.spill data.val.length allocations = .done this' () ∧ this'.overflow.toList = content := by
  have hrequest : extent.request inlineCapacity data.val.length allocations = Growable.grown (objectLimit - 1)
      (max (content.length + data.val.length) (2 * inlineCapacity)) allocations.reserve := by
    rw [Extent.request, h.length, if_pos hle]
  have hempty := (h.inline hle).1
  rw [InlineBuffer.spill, h.addSize_size, h.inline_range hle, two_mulSize, hrequest]
  have hfull : this.overflow.capacity < max (content.length + data.val.length) (2 * inlineCapacity) := by
    rw [(h.array hle).2]
    omega
  rcases Growable.reserve_of_full hfull with ⟨hgrown, hreserve⟩ | ⟨v, hgrown, hreserve⟩
  · exact .inl ⟨hgrown, by rw [hreserve]; rfl⟩
  · have hlist := (Growable.reserve_done hreserve).1
    have hroom : v.toList.length + content.length ≤ v.capacity := by
      have := Growable.grown_le hgrown
      rw [hlist, hempty, List.length_nil]
      omega
    obtain ⟨w, hinsert, hcapacity⟩ := Growable.insertEnd_of_room allocations.insertInline hroom
    refine .inr ⟨{ this with overflow := w }, by rw [hgrown, hcapacity], ?_, ?_⟩
    · simp only [hreserve, Outcome.bind, hinsert, Outcome.within]
    · rw [Growable.insertEnd_done hinsert, hlist, hempty, List.nil_append]

/-- No storage is asked for. -/
theorem append_of_room (h : this.Occupies extent content) (data : Chars) (allocations : AppendAllocations)
    (hroom : content.length + data.val.length ≤ extent.room) :
    ∃ this', this.append data allocations = .done this' () ∧
      this'.Occupies ⟨content.length + data.val.length, extent.room⟩ (content ++ data) := by
  by_cases hle : content.length ≤ inlineCapacity
  · obtain ⟨hinline, hcapacity⟩ := h.array hle
    rw [hinline] at hroom
    obtain ⟨this', hdone, hsame⟩ := h.toRepresents.append_of_room data allocations hroom
    refine ⟨this', hdone, h.done hdone (fun _ => ⟨hinline, hsame ▸ hcapacity⟩) fun hlong => ?_⟩
    exact absurd hroom (Nat.not_le.mpr hlong)
  have hlong := Nat.lt_of_not_le hle
  have harray {room : Nat} {this' : InlineBuffer inlineCapacity}
      (hfits : content.length + data.val.length ≤ inlineCapacity) :
      room = inlineCapacity ∧ this'.overflow.capacity = 0 :=
    absurd (Nat.le_trans (Nat.le_add_right _ _) hfits) hle
  rcases Nat.eq_zero_or_pos data.val.length with hnone | hsome
  · have hdone := this.append_nil allocations (List.length_eq_zero_iff.mp hnone)
    exact ⟨this, hdone, h.done hdone harray fun _ => h.vector hlong⟩
  · have hfits : this.overflow.toList.length + data.val.length ≤ this.overflow.capacity := by
      rwa [h.overflow hlong, ← h.vector hlong]
    obtain ⟨v, hinsert, hcapacity⟩ := Growable.insertEnd_of_room allocations.insertData hfits
    obtain ⟨this', hdone, rfl⟩ := insertData_of_done hinsert
    rw [← h.append_to_vector allocations hlong hsome] at hdone
    exact ⟨this', hdone, h.done hdone harray fun _ => (h.vector hlong).trans hcapacity.symm⟩

/-- Storage is asked for, and it is granted or refused. -/
theorem append_of_full (h : this.Occupies extent content) (data : Chars) (allocations : AppendAllocations)
    (hfull : extent.room < content.length + data.val.length) :
    extent.request inlineCapacity data.val.length allocations = none ∧ this.append data allocations = .threw this ∨
      ∃ room this', extent.request inlineCapacity data.val.length allocations = some room ∧
        this.append data allocations = .done this' () ∧
        this'.Occupies ⟨content.length + data.val.length, room⟩ (content ++ data) := by
  have hsome : 0 < data.val.length := by
    have := h.size_le_room
    omega
  have harray {room : Nat} {this' : InlineBuffer inlineCapacity}
      (hfits : content.length + data.val.length ≤ inlineCapacity) :
      room = inlineCapacity ∧ this'.overflow.capacity = 0 := by
    have := (h.array (by omega)).1
    omega
  by_cases hle : content.length ≤ inlineCapacity
  · have hlong : inlineCapacity < content.length + data.val.length := (h.array hle).1 ▸ hfull
    have happend := h.append_of_outgrown allocations hle hlong
    rcases h.spill data allocations hle hsome with ⟨hrequest, hspill⟩ | ⟨spilled, hrequest, hspill, hlist⟩
    · rw [hspill] at happend
      exact .inl ⟨hrequest, happend⟩
    · have hroom : spilled.overflow.toList.length + data.val.length ≤ spilled.overflow.capacity := by
        rw [hlist, ← h.length]
        exact Extent.le_request hrequest
      obtain ⟨v, hinsert, hcapacity⟩ := Growable.insertEnd_of_room allocations.insertData hroom
      obtain ⟨this', hdone, rfl⟩ := insertData_of_done hinsert
      rw [hspill, Outcome.bind, hdone] at happend
      exact .inr ⟨_, this', hrequest, happend, h.done happend harray fun _ => hcapacity.symm⟩
  · have hlong := Nat.lt_of_not_le hle
    have happend := h.append_to_vector allocations hlong hsome
    have hrequest : extent.request inlineCapacity data.val.length allocations =
        Growable.grown (objectLimit - 1) (content.length + data.val.length) allocations.insertData := by
      rw [Extent.request, h.length, if_neg hle]
    have hfull : this.overflow.capacity < this.overflow.toList.length + data.val.length := by
      rwa [h.overflow hlong, ← h.vector hlong]
    have hinserts := @Growable.insertEnd_of_full _ _ _ _ allocations.insertData hfull
    rw [h.overflow hlong, ← hrequest] at hinserts
    rcases hinserts with ⟨hrefused, hinsert⟩ | ⟨v, hgrown, hinsert⟩
    · rw [InlineBuffer.insertData, hinsert] at happend
      exact .inl ⟨hrefused, happend⟩
    · obtain ⟨this', hdone, rfl⟩ := insertData_of_done hinsert
      rw [hdone] at happend
      exact .inr ⟨_, this', hgrown, happend, h.done happend harray fun _ => rfl⟩

theorem append (h : this.Occupies extent content) (data : Chars) (allocations : AppendAllocations) :
    extent.extend inlineCapacity data.val.length allocations = none ∧ this.append data allocations = .threw this ∨
      ∃ extent' this', extent.extend inlineCapacity data.val.length allocations = some extent' ∧
        this.append data allocations = .done this' () ∧ this'.Occupies extent' (content ++ data) := by
  by_cases hroom : content.length + data.val.length ≤ extent.room
  · obtain ⟨this', hdone, hthis'⟩ := h.append_of_room data allocations hroom
    rw [← h.length] at hroom hthis'
    exact .inr ⟨_, this', Extent.extend_of_room hroom, hdone, hthis'⟩
  · have hfull := Nat.lt_of_not_le hroom
    have hrequested := h.append_of_full data allocations hfull
    rw [← h.length] at hfull hrequested
    rw [Extent.extend_of_full hfull]
    rcases hrequested with ⟨hrequest, hthrew⟩ | ⟨room, this', hrequest, hdone, hthis'⟩
    · exact .inl ⟨by rw [hrequest]; rfl, hthrew⟩
    · exact .inr ⟨_, this', by rw [hrequest]; rfl, hdone, hthis'⟩

theorem perform (h : this.Occupies extent content) (write : Write) (allocations : AppendAllocations) :
    extent.extend inlineCapacity write.bytes.length allocations = none ∧
        write.perform this allocations = .threw this ∨
      ∃ extent' this', extent.extend inlineCapacity write.bytes.length allocations = some extent' ∧
        write.perform this allocations = .done this' write.result ∧
        this'.Occupies extent' (content ++ write.bytes) := by
  rw [Write.perform_eq]
  rcases h.append ⟨write.bytes, write.bytes_small⟩ allocations with
    ⟨hrefused, hthrew⟩ | ⟨extent', this', hextends, hdone, hthis'⟩
  · rw [hthrew]
    exact .inl ⟨hrefused, rfl⟩
  · rw [hdone]
    exact .inr ⟨extent', this', hextends, rfl, hthis'⟩

end Occupies

end InlineBuffer

end Pans
