import Mathlib.Data.List.Infix

/-!
# Write-back storage

Three levels of what has been written: accepted into a buffer, handed to the level below, synced to the lowest one.
The buffer may give up any part of its front at any time.
-/

structure WriteBack (α : Type*) where
  accepted : List α
  handed : List α
  synced : List α
  deriving DecidableEq, Repr

namespace WriteBack

variable {α : Type*}

def empty : WriteBack α := ⟨[], [], []⟩

def buffer (f : WriteBack α) : List α := f.accepted.drop f.handed.length

def write (f : WriteBack α) (xs : List α) : WriteBack α := { f with accepted := f.accepted ++ xs }

/-- The buffer gives up `n` elements, or all that it has. -/
def spill (f : WriteBack α) (n : Nat) : WriteBack α := { f with handed := f.handed ++ f.buffer.take n }

def flush (f : WriteBack α) : WriteBack α := { f with handed := f.handed ++ f.buffer }

def sync (f : WriteBack α) : WriteBack α := { f with synced := f.handed }

/-- No level has anything that the level above it has not. -/
structure Valid (f : WriteBack α) : Prop where
  handed : f.handed <+: f.accepted
  synced : f.synced <+: f.handed

variable {f : WriteBack α}

theorem valid_empty : (empty : WriteBack α).Valid := ⟨List.prefix_refl _, List.prefix_refl _⟩

theorem Valid.handed_append_buffer (h : f.Valid) : f.handed ++ f.buffer = f.accepted := by
  obtain ⟨rest, hrest⟩ := h.handed
  rw [buffer, ← hrest, List.drop_left]

/-- What has been handed over completely stays so when nothing is written. -/
theorem buffer_eq_nil (h : f.handed = f.accepted) : f.buffer = [] := by rw [buffer, h, List.drop_length]

/-! ## Operations -/

theorem Valid.write (h : f.Valid) (xs : List α) : (f.write xs).Valid where
  handed := h.handed.trans (List.prefix_append _ _)
  synced := h.synced

theorem Valid.spill (h : f.Valid) (n : Nat) : (f.spill n).Valid where
  handed := by
    obtain ⟨rest, hrest⟩ := List.take_prefix n f.buffer
    refine ⟨rest, ?_⟩
    rw [WriteBack.spill, List.append_assoc, hrest, h.handed_append_buffer]
  synced := h.synced.trans (List.prefix_append _ _)

theorem Valid.flush_handed (h : f.Valid) : f.flush.handed = f.accepted := h.handed_append_buffer

theorem Valid.flush (h : f.Valid) : f.flush.Valid where
  handed := h.flush_handed ▸ List.prefix_refl _
  synced := h.synced.trans (List.prefix_append _ _)

theorem Valid.sync (h : f.Valid) : f.sync.Valid := ⟨h.handed, List.prefix_refl _⟩

/-- `g` comes after `f`: it has accepted `xs` more, and has lost nothing that reached a lower level. -/
structure Extends (f : WriteBack α) (xs : List α) (g : WriteBack α) : Prop where
  accepted : g.accepted = f.accepted ++ xs
  handed : f.handed <+: g.handed
  synced : f.synced <+: g.synced

theorem Extends.refl (f : WriteBack α) : f.Extends [] f :=
  ⟨(List.append_nil _).symm, List.prefix_refl _, List.prefix_refl _⟩

theorem Extends.trans {g k : WriteBack α} {xs ys : List α} (h : f.Extends xs g) (h' : g.Extends ys k) :
    f.Extends (xs ++ ys) k where
  accepted := by rw [h'.accepted, h.accepted, List.append_assoc]
  handed := h.handed.trans h'.handed
  synced := h.synced.trans h'.synced

theorem extends_write (f : WriteBack α) (xs : List α) : f.Extends xs (f.write xs) :=
  ⟨rfl, List.prefix_refl _, List.prefix_refl _⟩

theorem extends_spill (f : WriteBack α) (n : Nat) : f.Extends [] (f.spill n) :=
  ⟨(List.append_nil _).symm, List.prefix_append _ _, List.prefix_refl _⟩

theorem extends_flush (f : WriteBack α) : f.Extends [] f.flush :=
  ⟨(List.append_nil _).symm, List.prefix_append _ _, List.prefix_refl _⟩

theorem Valid.extends_sync (h : f.Valid) : f.Extends [] f.sync :=
  ⟨(List.append_nil _).symm, List.prefix_refl _, h.synced⟩

/-- Spilling and flushing do nothing to a buffer that is empty. -/
theorem spill_of_handed (h : f.handed = f.accepted) (n : Nat) : f.spill n = f := by
  rw [spill, buffer_eq_nil h, List.take_nil, List.append_nil]

theorem flush_of_handed (h : f.handed = f.accepted) : f.flush = f := by
  rw [flush, buffer_eq_nil h, List.append_nil]

end WriteBack
