import Mathlib.Data.List.Basic
import Mathlib.Data.Option.Basic

/-!
# Self-delimiting codes

A code writes each valid symbol as a non-empty word, and reads one symbol off the front of a text. Words need no
separator, so a text is read back symbol by symbol. Two codes of the same symbols translate into each other.
-/

/-- A code of the symbols `α` by words over `β`. -/
structure SymbolCode (α β : Type*) where
  Valid : α → Prop
  enc : α → List β
  dec : List β → Option (α × List β)
  enc_ne_nil : ∀ {a}, Valid a → enc a ≠ []
  dec_enc : ∀ {a} (rest), Valid a → dec (enc a ++ rest) = some (a, rest)
  dec_sound : ∀ {s a rest}, dec s = some (a, rest) → Valid a ∧ s = enc a ++ rest

namespace SymbolCode

variable {α β γ : Type*}

theorem dec_length_lt (C : SymbolCode α β) {s : List β} {a rest} (h : C.dec s = some (a, rest)) :
    rest.length < s.length := by
  obtain ⟨ha, rfl⟩ := C.dec_sound h
  have := List.length_pos_of_ne_nil (C.enc_ne_nil ha)
  simp only [List.length_append]
  omega

def decodeAll (C : SymbolCode α β) (s : List β) : Option (List α) :=
  if s = [] then some []
  else
    match h : C.dec s with
    | none => none
    | some (a, rest) =>
        have := C.dec_length_lt h
        (C.decodeAll rest).map (a :: ·)
termination_by s.length

@[simp] theorem decodeAll_nil (C : SymbolCode α β) : C.decodeAll [] = some [] := by
  rw [decodeAll]
  simp

theorem decodeAll_of_dec (C : SymbolCode α β) {s : List β} {a rest} (h : C.dec s = some (a, rest)) :
    C.decodeAll s = (C.decodeAll rest).map (a :: ·) := by
  have hne : s ≠ [] := by
    rintro rfl
    exact absurd (C.dec_length_lt h) (by simp)
  rw [decodeAll, if_neg hne]
  split
  · rename_i hn
    rw [hn] at h
    cases h
  · rename_i b rest' hs
    rw [hs] at h
    cases h
    rfl

theorem decodeAll_of_dec_none (C : SymbolCode α β) {s : List β} (hne : s ≠ []) (h : C.dec s = none) :
    C.decodeAll s = none := by
  rw [decodeAll, if_neg hne]
  split
  · rfl
  · rename_i b rest hs
    rw [hs] at h
    cases h

/-- A text is read as `as` exactly when it is the words of `as` one after the other. -/
theorem decodeAll_eq_some_iff (C : SymbolCode α β) {s : List β} {as : List α} :
    C.decodeAll s = some as ↔ (∀ a ∈ as, C.Valid a) ∧ s = as.flatMap C.enc := by
  constructor
  · intro h
    fun_induction C.decodeAll s generalizing as with
    | case1 =>
        cases h
        simp_all
    | case2 => cases h
    | case3 s hne a rest hs _ ih =>
        obtain ⟨as, has, rfl⟩ := Option.map_eq_some_iff.mp h
        obtain ⟨hvalid, rfl⟩ := ih has
        obtain ⟨ha, rfl⟩ := C.dec_sound hs
        exact ⟨List.forall_mem_cons.mpr ⟨ha, hvalid⟩, rfl⟩
  · rintro ⟨hvalid, rfl⟩
    induction as with
    | nil => exact C.decodeAll_nil
    | cons a as ih =>
        obtain ⟨ha, has⟩ := List.forall_mem_cons.mp hvalid
        rw [List.flatMap_cons, C.decodeAll_of_dec (C.dec_enc _ ha), ih has, Option.map_some]

/-! ## Translation -/

/-- Reads a text in one code and writes its symbols in the other. -/
def translate (C : SymbolCode α β) (D : SymbolCode α γ) (s : List β) : Option (List γ) :=
  (C.decodeAll s).map fun as => as.flatMap D.enc

@[simp] theorem translate_nil (C : SymbolCode α β) (D : SymbolCode α γ) : C.translate D [] = some [] := by
  simp [translate]

theorem translate_of_dec (C : SymbolCode α β) (D : SymbolCode α γ) {s : List β} {a rest} (out : List γ)
    (h : C.dec s = some (a, rest)) :
    (C.translate D s).map (out ++ ·) = (C.translate D rest).map (out ++ D.enc a ++ ·) := by
  rw [translate, translate, C.decodeAll_of_dec h, Option.map_map, Option.map_map, Option.map_map]
  congr 1
  funext as
  simp

theorem translate_of_dec_none (C : SymbolCode α β) (D : SymbolCode α γ) {s : List β} (hne : s ≠ [])
    (h : C.dec s = none) : C.translate D s = none := by
  rw [translate, C.decodeAll_of_dec_none hne h, Option.map_none]

theorem translate_eq_some_iff (C : SymbolCode α β) (D : SymbolCode α γ) {s : List β} {t : List γ} :
    C.translate D s = some t ↔
      ∃ as : List α, (∀ a ∈ as, C.Valid a) ∧ s = as.flatMap C.enc ∧ t = as.flatMap D.enc := by
  simp only [translate, Option.map_eq_some_iff, decodeAll_eq_some_iff, and_assoc, @eq_comm _ t]

theorem translate_symm (C : SymbolCode α β) (D : SymbolCode α γ) (hv : ∀ a, C.Valid a ↔ D.Valid a)
    {s : List β} {t : List γ} : C.translate D s = some t ↔ D.translate C t = some s := by
  simp only [translate_eq_some_iff, hv]
  constructor <;>
    · rintro ⟨as, ha, hs, ht⟩
      exact ⟨as, ha, ht, hs⟩

/-! ## Building codes -/

section

variable (C : SymbolCode α β) (D : SymbolCode γ β)

theorem dec_seq {a : α} {c : γ} (rest : List β) (ha : C.Valid a) (hc : D.Valid c) :
    (C.dec (C.enc a ++ D.enc c ++ rest)).bind (fun p => (D.dec p.2).map fun q => ((p.1, q.1), q.2)) =
      some ((a, c), rest) := by
  rw [List.append_assoc, C.dec_enc _ ha, Option.bind_some, D.dec_enc _ hc, Option.map_some]

theorem seq_sound {s rest : List β} {p : α × γ}
    (h : (C.dec s).bind (fun p => (D.dec p.2).map fun q => ((p.1, q.1), q.2)) = some (p, rest)) :
    (C.Valid p.1 ∧ D.Valid p.2) ∧ s = C.enc p.1 ++ D.enc p.2 ++ rest := by
  obtain ⟨⟨a, s'⟩, hC, hbehind⟩ := Option.bind_eq_some_iff.mp h
  obtain ⟨⟨c, rest'⟩, hD, heq⟩ := Option.map_eq_some_iff.mp hbehind
  cases heq
  obtain ⟨ha, rfl⟩ := C.dec_sound hC
  obtain ⟨hc, rfl⟩ := D.dec_sound hD
  exact ⟨⟨ha, hc⟩, (List.append_assoc _ _ _).symm⟩

/-- A word of the one code, and a word of the other behind it. -/
def seq : SymbolCode (α × γ) β where
  Valid p := C.Valid p.1 ∧ D.Valid p.2
  enc p := C.enc p.1 ++ D.enc p.2
  dec s := (C.dec s).bind fun p => (D.dec p.2).map fun q => ((p.1, q.1), q.2)
  enc_ne_nil h := List.append_ne_nil_of_left_ne_nil (C.enc_ne_nil h.1) _
  dec_enc rest h := C.dec_seq D rest h.1 h.2
  dec_sound h := C.seq_sound D h

variable [DecidableEq β] (pre : List β)

theorem dec_after {a : α} (rest : List β) (ha : C.Valid a) :
    ((pre ++ C.enc a ++ rest).dropPrefix? pre).bind C.dec = some (a, rest) := by
  have hdrop : (pre ++ C.enc a ++ rest).dropPrefix? pre = some (C.enc a ++ rest) := by
    simp [List.dropPrefix?_eq_some_iff]
  rw [hdrop, Option.bind_some, C.dec_enc _ ha]

theorem after_sound {s rest : List β} {a : α} (h : (s.dropPrefix? pre).bind C.dec = some (a, rest)) :
    C.Valid a ∧ s = pre ++ C.enc a ++ rest := by
  obtain ⟨s', hdrop, hC⟩ := Option.bind_eq_some_iff.mp h
  obtain ⟨ha, rfl⟩ := C.dec_sound hC
  obtain ⟨pre', rfl, hpre⟩ := List.dropPrefix?_eq_some_iff.mp hdrop
  rw [beq_iff_eq.mp hpre, List.append_assoc]
  exact ⟨ha, rfl⟩

/-- The code with the same text in front of each word. -/
def after : SymbolCode α β where
  Valid := C.Valid
  enc a := pre ++ C.enc a
  dec s := (s.dropPrefix? pre).bind C.dec
  enc_ne_nil h := List.append_ne_nil_of_right_ne_nil _ (C.enc_ne_nil h)
  dec_enc rest h := C.dec_after pre rest h
  dec_sound h := C.after_sound pre h

end

end SymbolCode

/-- What a symbol stands for, if it stands for anything. -/
structure Reading (α γ : Type*) where
  Valid : γ → Prop
  write : γ → α
  read : α → Option γ
  read_eq_some_iff : ∀ {a c}, read a = some c ↔ Valid c ∧ a = write c

namespace SymbolCode

variable {α β γ : Type*} (C : SymbolCode α β) (R : Reading α γ)

theorem dec_of {c : γ} (rest : List β) (hc : R.Valid c) (hword : C.Valid (R.write c)) :
    (C.dec (C.enc (R.write c) ++ rest)).bind (fun p => (R.read p.1).map fun c => (c, p.2)) = some (c, rest) := by
  rw [C.dec_enc _ hword, Option.bind_some, R.read_eq_some_iff.mpr ⟨hc, rfl⟩, Option.map_some]

theorem of_sound {s rest : List β} {c : γ}
    (h : (C.dec s).bind (fun p => (R.read p.1).map fun c => (c, p.2)) = some (c, rest)) :
    (R.Valid c ∧ C.Valid (R.write c)) ∧ s = C.enc (R.write c) ++ rest := by
  obtain ⟨⟨a, s'⟩, hC, hR⟩ := Option.bind_eq_some_iff.mp h
  obtain ⟨c, hread, heq⟩ := Option.map_eq_some_iff.mp hR
  cases heq
  obtain ⟨ha, rfl⟩ := C.dec_sound hC
  obtain ⟨hc, rfl⟩ := R.read_eq_some_iff.mp hread
  exact ⟨⟨hc, ha⟩, rfl⟩

/-- The words of those symbols that stand for something. -/
def of : SymbolCode γ β where
  Valid c := R.Valid c ∧ C.Valid (R.write c)
  enc c := C.enc (R.write c)
  dec s := (C.dec s).bind fun p => (R.read p.1).map fun c => (c, p.2)
  enc_ne_nil h := C.enc_ne_nil h.2
  dec_enc rest h := C.dec_of R rest h.1 h.2
  dec_sound h := C.of_sound R h

end SymbolCode
