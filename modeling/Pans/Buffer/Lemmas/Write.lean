import Pans.Buffer.Lemmas.InlineBuffer
import Pans.Lib.Run

/-!
# What a sequence of writes leaves behind
-/

namespace Pans

variable {inlineCapacity : ArraySize}

namespace Write

/-- The bytes that a write stands for. -/
def bytes : Write → Bytes
  | append data => data
  | appendChar value => [value]
  | xsputn data size _ => data.val.take size.toNat
  | overflow character => if character = SmallStreamBuffer.eof then [] else [SmallStreamBuffer.toCharType character]

/-- What it reports: the end of the stream is no failure, and neither is having nothing to write. -/
def result : Write → Result
  | append _ => .void
  | appendChar _ => .void
  | xsputn _ size _ => .size (max size 0)
  | overflow character => .character (if character = SmallStreamBuffer.eof then 0 else character)

def content (writes : List (Write × AppendAllocations)) : Bytes := writes.flatMap (·.1.bytes)

end Write

theorem Write.bytes_small (write : Write) : write.bytes.length < objectLimit := by
  cases write with
  | append data => exact data.property
  | appendChar value => exact Nat.one_lt_two_pow (by decide)
  | xsputn data size _ => exact Nat.lt_of_le_of_lt (List.length_take_le' _ _) data.property
  | overflow character =>
      rw [Write.bytes]
      split
      · exact Nat.two_pow_pos 63
      · exact Nat.one_lt_two_pow (by decide)

theorem InlineBuffer.append_nil (this : InlineBuffer inlineCapacity) (allocations : AppendAllocations)
    {data : Chars} (h : data.val = []) : this.append data allocations = .done this () := by
  rw [append, h]
  rfl

/-- Each write is an `append` of its bytes. -/
theorem Write.perform_eq (this : InlineBuffer inlineCapacity) (allocations : AppendAllocations) (write : Write) :
    write.perform this allocations =
      (this.append ⟨write.bytes, write.bytes_small⟩ allocations).bind fun this _ => .done this write.result := by
  cases write with
  | append data => rfl
  | appendChar value => rfl
  | xsputn data size readable =>
      rw [perform, SmallStreamBuffer.xsputn]
      split
      · rename_i hsize
        have hnone : (xsputn data size readable).bytes = [] := by
          rw [bytes, Int.toNat_of_nonpos hsize, List.take_zero]
        rw [this.append_nil allocations hnone, result, Int.max_eq_right hsize]
        rfl
      · rename_i hsize
        rw [result, Int.max_eq_left (Int.le_of_lt (Int.not_le.mp hsize))]
        cases happend : this.append ⟨data.val.take size.toNat, _⟩ allocations <;>
          simp only [bytes, happend, Outcome.bind]
  | overflow character =>
      rw [perform, SmallStreamBuffer.overflow, result]
      split
      · rename_i hend
        have hnone : (overflow character).bytes = [] := by rw [bytes, if_pos hend]
        rw [this.append_nil allocations hnone, SmallStreamBuffer.notEof, if_pos hend]
        rfl
      · rename_i hcharacter
        simp only [bytes, if_neg hcharacter, InlineBuffer.appendChar]
        cases happend : this.append ⟨[SmallStreamBuffer.toCharType character], _⟩ allocations <;>
          simp only [Outcome.bind]

namespace InlineBuffer.Represents

variable {this : InlineBuffer inlineCapacity} {text : Bytes} {allocations : AppendAllocations}

theorem perform (h : this.Represents text) (write : Write) (allocations : AppendAllocations) :
    write.perform this allocations = .threw this ∧
        allocations.Refuse (max (text.length + write.bytes.length) (2 * inlineCapacity)) ∨
      ∃ this', write.perform this allocations = .done this' write.result ∧ this'.Represents (text ++ write.bytes) := by
  rw [Write.perform_eq]
  rcases h.append ⟨write.bytes, write.bytes_small⟩ allocations with
    ⟨hthrew, hwhy⟩ | ⟨this', hdone, hthis⟩
  · rw [hthrew]
    exact .inl ⟨rfl, hwhy⟩
  · rw [hdone]
    exact .inr ⟨this', rfl, hthis⟩

/-- The writes are all made, or one of them finds no storage. -/
theorem performAll (h : this.Represents text) (writes : List (Write × AppendAllocations)) :
    (∃ this', Write.performAll this writes = .threw this' ∧ ∃ write ∈ writes,
        write.2.Refuse (max (text.length + (Write.content writes).length) (2 * inlineCapacity))) ∨
      ∃ this', Write.performAll this writes = .done this' (writes.map (·.1.result)) ∧
        this'.Represents (text ++ Write.content writes) := by
  induction writes generalizing this text with
  | nil => exact .inr ⟨this, rfl, by rwa [Write.content, List.flatMap_nil, List.append_nil]⟩
  | cons first writes ih =>
      obtain ⟨write, allocations⟩ := first
      have hcontent : Write.content ((write, allocations) :: writes) = write.bytes ++ Write.content writes := rfl
      rw [Write.performAll, hcontent, List.length_append, ← Nat.add_assoc]
      rcases h.perform write allocations with ⟨hthrew, hwhy⟩ | ⟨this₁, hdone, hthis₁⟩
      · rw [hthrew]
        refine .inl ⟨this, rfl, _, List.mem_cons_self, hwhy.imp_right (.imp_right fun hneeded => ?_)⟩
        omega
      · rw [hdone]
        rcases ih hthis₁ with ⟨this₂, hthrew, other, hmem, hwhy⟩ | ⟨this₂, hdone₂, hthis₂⟩
        · rw [List.length_append] at hwhy
          refine .inl ⟨this₂, ?_, other, List.mem_cons_of_mem _ hmem, hwhy⟩
          simp only [Outcome.bind, hthrew]
        · rw [List.append_assoc] at hthis₂
          refine .inr ⟨this₂, ?_, hthis₂⟩
          simp only [Outcome.bind, hdone₂, List.map_cons]

end InlineBuffer.Represents

/-! ## Attempts -/

/-- A write, and whether it threw. The caller goes on either way. -/
structure Attempt where
  write : Write
  allocations : AppendAllocations
  threw : Bool

namespace Attempt

inductive Step (this : InlineBuffer inlineCapacity) : Attempt → InlineBuffer inlineCapacity → Prop where
  | done {write allocations result this'} : Write.perform this allocations write = .done this' result →
      Step this ⟨write, allocations, false⟩ this'
  | threw {write allocations this'} : Write.perform this allocations write = .threw this' →
      Step this ⟨write, allocations, true⟩ this'

/-- What the attempts that did not throw have written. -/
def written : List Attempt → Bytes
  | [] => []
  | attempt :: history => written history ++ if attempt.threw then [] else attempt.write.bytes

variable {this : InlineBuffer inlineCapacity} {history : List Attempt}

theorem represents_of_run (h : Run Step (· = .new) history this) : this.Represents (written history) := by
  induction h with
  | start hnew => exact hnew ▸ InlineBuffer.new_represents
  | extend _ hstep ih =>
      cases hstep with
      | @done write allocations _ _ hdone =>
          rcases ih.perform write allocations with ⟨hthrew, _⟩ | ⟨this', hdone', hthis'⟩
          · cases hdone.symm.trans hthrew
          · cases hdone.symm.trans hdone'
            exact hthis'
      | @threw write allocations _ hthrew =>
          rcases ih.perform write allocations with ⟨hthrew', _⟩ | ⟨_, hdone, _⟩
          · cases hthrew.symm.trans hthrew'
            rwa [written, if_pos rfl, List.append_nil]
          · cases hthrew.symm.trans hdone

/-- The attempts that threw could as well not have been made. -/
theorem run_without_failures (h : Run Step (· = .new) history this) :
    Run Step (· = .new) (history.filter fun attempt => !attempt.threw) this := by
  induction h with
  | start hnew => exact .start hnew
  | extend hrun hstep ih =>
      cases hstep with
      | done hdone => exact .extend ih (.done hdone)
      | @threw write allocations _ hthrew =>
          rcases (represents_of_run hrun).perform write allocations with ⟨hthrew', _⟩ | ⟨_, hdone, _⟩
          · cases hthrew.symm.trans hthrew'
            exact ih
          · cases hthrew.symm.trans hdone

end Attempt

end Pans
