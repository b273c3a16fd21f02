import Pans.Buffer.Lemmas.Write

/-!
# Results about the buffers
-/

namespace Pans

/-- However the writes split the text, the buffer holds the text: nothing undefined is reached, so no copy leaves the
array; unless a write throws, each reports what it should, and the vector is in use exactly when the text has
outgrown the array. Sums and the product of sizes are exact. -/
theorem inlineBuffer_refines_bytes (inlineCapacity : ArraySize) (writes : List (Write × AppendAllocations)) :
    Write.performAll (.new : InlineBuffer inlineCapacity) writes ≠ .undefined ∧
    (∀ (this : InlineBuffer inlineCapacity) results, Write.performAll .new writes = .done this results →
      results = writes.map (·.1.result) ∧ this.view = some (Write.content writes) ∧
      this.size = (Write.content writes).length ∧
      (this.overflow.toList ≠ [] ↔ inlineCapacity < (Write.content writes).length) ∧
      (this.overflow.toList ≠ [] → this.overflow.toList = Write.content writes) ∧
      this.Represents (Write.content writes) ∧
      mulSize 2 inlineCapacity = 2 * inlineCapacity ∧
      ∀ data : Chars, addSize this.size data.val.length = this.size + data.val.length) ∧
    ((∀ write ∈ writes, ¬write.2.Refuse (max (Write.content writes).length (2 * inlineCapacity))) →
      ∃ (this : InlineBuffer inlineCapacity) (results : _), Write.performAll .new writes = .done this results) := by
  have hall := (@InlineBuffer.new_represents inlineCapacity).performAll writes
  rw [List.nil_append, List.length_nil, Nat.zero_add] at hall
  refine ⟨fun hundefined => ?_, fun this results hdone => ?_, fun hgranted => ?_⟩
  · rw [hundefined] at hall
    rcases hall with ⟨_, hthrew, _⟩ | ⟨_, hdone, _⟩
    · cases hthrew
    · cases hdone
  · rw [hdone] at hall
    rcases hall with ⟨_, hthrew, _⟩ | ⟨_, heq, h⟩
    · cases hthrew
    cases heq
    have hempty := h.overflow_eq_nil
    refine ⟨rfl, h.view_eq, h.size, ?_, ?_, h, two_mulSize inlineCapacity, fun data => ?_⟩
    · rw [Ne, hempty, Nat.not_le]
    · rw [Ne, hempty, Nat.not_le]
      exact h.overflow
    · rw [h.addSize_size, h.size]
  · rcases hall with ⟨_, _, write, hmem, hrefuse⟩ | ⟨this, hdone, _⟩
    · exact absurd hrefuse (hgranted write hmem)
    · exact ⟨this, _, hdone⟩

/-- An `append` that throws has no effect at all: the buffer is as if it had not been attempted, and so is every
buffer with failures in its past. Once the inline bytes are in the vector, nothing throws any more. -/
theorem append_all_or_nothing {inlineCapacity : ArraySize} {history : List Attempt}
    {this : InlineBuffer inlineCapacity} (h : Run Attempt.Step (· = .new) history this) (data : Chars)
    (allocations : AppendAllocations) :
    this.Represents (Attempt.written history) ∧
    Run Attempt.Step (· = .new) (history.filter fun attempt => !attempt.threw) this ∧
    this.append data allocations ≠ .undefined ∧
    (∀ this', this.append data allocations = .threw this' →
      this' = this ∧ this'.view = some (Attempt.written history) ∧ this'.size = (Attempt.written history).length) ∧
    (this.overflow.toList = [] → ∀ spilled, this.spill data.val.length allocations = .done spilled () →
      spilled.overflow.toList = Attempt.written history ∧
      ∀ allocations', ∃ this', spilled.insertData data allocations' = .done this' ()) := by
  have hthis := Attempt.represents_of_run h
  have happend := hthis.append data allocations
  refine ⟨hthis, Attempt.run_without_failures h, fun hundefined => ?_, fun this' hthrew => ?_,
    fun hempty spilled hspill => ?_⟩
  · rw [hundefined] at happend
    rcases happend with ⟨hthrew, _⟩ | ⟨_, hdone, _⟩
    · cases hthrew
    · cases hdone
  · rw [hthrew] at happend
    rcases happend with ⟨heq, _⟩ | ⟨_, hdone, _⟩
    · cases heq
      exact ⟨rfl, hthis.view_eq, hthis.size⟩
    · cases hdone
  · rcases hthis.spill data allocations (hthis.overflow_eq_nil.mp hempty) with
      ⟨hthrew, _⟩ | ⟨_, hdone, hoverflow, _, hroom⟩
    · cases hspill.symm.trans hthrew
    · cases hspill.symm.trans hdone
      refine ⟨hoverflow, fun allocations' => ?_⟩
      rw [← hoverflow] at hroom
      obtain ⟨v, hinsert, _⟩ := Growable.insertEnd_of_room allocations'.insertData hroom
      rw [InlineBuffer.insertData, hinsert]
      exact ⟨_, rfl⟩

def AppendAllocations.refused : AppendAllocations := ⟨none, some 0, some 0⟩

/-- The third byte does not fit into the array, and the vector gets no storage. -/
theorem append_all_or_nothing_refused :
    ∃ this this' : InlineBuffer ⟨2, by decide⟩,
      this.append ⟨ascii "cd", by decide⟩ .refused = .threw this' ∧ this'.view = some (ascii "ab") := by
  let full : InlineBuffer ⟨2, by decide⟩ := ⟨⟨ascii "ab", by decide⟩, Growable.empty, 2⟩
  let write : Write := .append ⟨ascii "ab", by decide⟩
  have hfits : write.perform .new .refused = .done full .void := by decide +kernel
  have hlong : write.perform full .refused = .threw full := by decide +kernel
  have hrun : Run Attempt.Step (· = .new) [⟨write, .refused, true⟩, ⟨write, .refused, false⟩] full :=
    .extend (.extend (.start rfl) (.done hfits)) (.threw hlong)
  have hthrew : full.append ⟨ascii "cd", by decide⟩ .refused = .threw full := by decide +kernel
  exact ⟨full, full, hthrew,
    ((append_all_or_nothing hrun ⟨ascii "cd", by decide⟩ .refused).2.2.2.1 full hthrew).2.1⟩

end Pans
