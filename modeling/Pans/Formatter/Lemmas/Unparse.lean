import Pans.Formatter.Lemmas.Concat
import Pans.Formatter.Unparse

/-!
# The written pattern reads as the items, and no pattern for them is shorter

Both go token by token. The byte at the front of the written pattern is the one at the front of any other pattern for
the same items, so that a bare directive can be written where one was read.
-/

namespace Pans

/-! ## Directives -/

theorem createFormatItem_directive {item : FormatItem} (h : item.isLiteral = false) (rest : Bytes) :
    createFormatItem item.directive (item.writtenFormat rest) = some item := by
  cases item with
  | literal text => cases h
  | _ => rfl

theorem createFormatItem_dateTime {c : Byte} {f g : Bytes} (h : createFormatItem c f = some (.dateTime g)) : g = f := by
  have hall : ∀ entry ∈ getFormatItemFactories, ∀ f g, entry.2 f = .dateTime g → f = g := by
    simp [getFormatItemFactories, createSimpleFormatItem, createConfiguredFormatItem]
  simp only [createFormatItem, Option.map_eq_some_iff] at h
  obtain ⟨factory, hlookup, hitem⟩ := h
  obtain ⟨before, after, hsplit, _⟩ := List.lookup_eq_some_iff.mp hlookup
  exact (hall (c, factory) (by simp [hsplit]) f g hitem).symm

theorem directive_ne_percent {item : FormatItem} (h : item.isLiteral = false) : item.directive ≠ byte '%' := by
  cases item with
  | literal text => cases h
  | _ =>
      simp only [FormatItem.directive]
      decide

theorem unparse_directive {item : FormatItem} (h : item.isLiteral = false) (items : List FormatItem) :
    unparse (item :: items) =
      writeDirective item.directive (item.writtenFormat (unparse items)) (unparse items) := by
  cases item with
  | literal text => cases h
  | _ => rfl

theorem writtenFormat_simple {item : FormatItem} (h : ∀ format, item ≠ .dateTime format) (rest : Bytes) :
    item.writtenFormat rest = if rest.head? = some (byte '{') then [byte '_'] else [] := by
  cases item with
  | dateTime format => exact absurd rfl (h format)
  | _ => rfl

theorem writeDirective_length (c : Byte) (format rest : Bytes) :
    (writeDirective c format rest).length = (if format = [] then 2 else format.length + 4) + rest.length := by
  unfold writeDirective
  split
  · simp only [List.length_cons]
    omega
  · simp only [List.length_cons, List.length_append]
    omega

theorem writeDirective_lexes {c : Byte} {format rest : Bytes} {ts : List Token} (hc : c ≠ byte '%')
    (hbrace : byte '}' ∉ format) (hbare : format = [] → rest.head? ≠ some (byte '{')) (h : Lexes rest ts) :
    Lexes (writeDirective c format rest) (.directive c format :: ts) := by
  unfold writeDirective
  split
  · rename_i hempty
    subst hempty
    exact .bare hc (hbare rfl) h
  · rename_i hne
    exact .braced hc hne hbrace h

/-! ## Literals -/

theorem escape_append_lexes (text : Bytes) {p : Bytes} {ts : List Token} (h : Lexes p ts) :
    ∃ us, Lexes (escape text ++ p) us ∧ denote us = prependLiteral text (denote ts) := by
  induction text with
  | nil => exact ⟨ts, h, (Formatter.prependLiteral_nil _).symm⟩
  | cons c text ih =>
      obtain ⟨us, hlex, hdenote⟩ := ih
      rw [escape_cons]
      split
      · rename_i hc
        subst hc
        refine ⟨.percent :: us, .percent hlex, ?_⟩
        rw [denote, hdenote, Formatter.prependLiteral_append]
        rfl
      · rename_i hc
        refine ⟨.char c :: us, .char hc hlex, ?_⟩
        rw [denote, hdenote, Formatter.prependLiteral_append]
        rfl

theorem escape_append (a b : Bytes) : escape (a ++ b) = escape a ++ escape b := List.flatMap_append

/-- Literal text in front of the items is written in front of their pattern, merged or not. -/
theorem unparse_prepend {text : Bytes} (ht : text ≠ []) {items out : List FormatItem}
    (h : prependLiteral text (items.map some) = out.map some) : unparse out = escape text ++ unparse items := by
  rw [prependLiteral_map_some ht, List.map_inj_right (fun _ _ => Option.some.inj)] at h
  subst h
  split
  · rename_i s rest
    rw [unparse, unparse, escape_append, List.append_assoc]
  · rfl

/-- A pattern begins with an open brace exactly if its first item is a literal that does. -/
theorem unparse_head?_brace {items : List FormatItem} (h : .literal [] ∉ items) :
    (unparse items).head? = some (byte '{') ↔ ∃ text rest, items = .literal (byte '{' :: text) :: rest := by
  cases items with
  | nil => simp [unparse]
  | cons item items =>
      by_cases hitem : item.isLiteral
      · obtain ⟨text, rfl⟩ : ∃ text, item = .literal text := by
          cases item with
          | literal text => exact ⟨text, rfl⟩
          | _ => cases hitem
        cases text with
        | nil => simp at h
        | cons c text =>
            rw [unparse, escape_cons]
            by_cases hc : c = byte '%'
            · subst hc
              simp
            · simp [hc]
      · rw [unparse_directive (by simpa using hitem)]
        constructor
        · intro hhead
          cases hhead
        · rintro ⟨text, rest, hsplit⟩
          cases hsplit
          exact absurd rfl hitem

/-! ## Reading what was written -/

theorem Writable.tail {item : FormatItem} {items : List FormatItem} (h : Writable (item :: items)) : Writable items :=
  ⟨⟨fun hm => h.1.1 (List.mem_cons_of_mem _ hm), h.1.2.tail⟩, fun f hf => h.2.1 f (List.mem_cons_of_mem _ hf),
    h.2.2.tail⟩

theorem unparse_lexes {items : List FormatItem} (h : Writable items) :
    ∃ ts, Lexes (unparse items) ts ∧ denote ts = items.map some := by
  induction items with
  | nil => exact ⟨[], .nil, rfl⟩
  | cons item items ih =>
      obtain ⟨ts, hlex, hdenote⟩ := ih h.tail
      by_cases hitem : item.isLiteral
      · obtain ⟨text, rfl⟩ : ∃ text, item = .literal text := by
          cases item with
          | literal text => exact ⟨text, rfl⟩
          | _ => cases hitem
        obtain ⟨us, hus, hd⟩ := escape_append_lexes text hlex
        refine ⟨us, hus, ?_⟩
        have ht : text ≠ [] := fun hempty => h.1.1 (by simp [hempty])
        rw [hd, hdenote, prependLiteral_map_some ht]
        split
        · rename_i s rest
          exact absurd ⟨rfl, rfl⟩ ((List.isChain_cons.mp h.1.2).1 _ rfl)
        · rfl
      · replace hitem : item.isLiteral = false := by simpa using hitem
        rw [unparse_directive hitem]
        refine ⟨_, writeDirective_lexes (directive_ne_percent hitem) ?_ ?_ hlex, ?_⟩
        · by_cases hdate : ∃ f, item = .dateTime f
          · obtain ⟨f, rfl⟩ := hdate
            exact h.2.1 f List.mem_cons_self
          · rw [writtenFormat_simple fun f hf => hdate ⟨f, hf⟩]
            split
            · decide
            · simp
        · intro hempty hbrace
          obtain ⟨text, rest, rfl⟩ := (unparse_head?_brace h.tail.1.1).mp hbrace
          by_cases hdate : ∃ f, item = .dateTime f
          · obtain ⟨f, rfl⟩ := hdate
            exact (List.isChain_cons.mp h.2.2).1 _ rfl ⟨congrArg _ hempty, text, rfl⟩
          · rw [writtenFormat_simple fun f hf => hdate ⟨f, hf⟩, if_pos hbrace] at hempty
            cases hempty
        · rw [denote_cons_directive, createFormatItem_directive hitem, hdenote, List.map_cons]

/-! ## What was read can be written, and no longer -/

/-- What is kept along the tokens: the items can be written, at most as long as the pattern and with its first byte. -/
def WrittenFor (p : Bytes) (items : List FormatItem) : Prop :=
  Writable items ∧ (unparse items).length ≤ p.length ∧ (unparse items).head? = p.head?

theorem escape_singleton (c : Byte) : escape [c] = if c = byte '%' then [byte '%', byte '%'] else [c] := by
  rw [escape_cons]
  split <;> rfl

theorem Writable.prepend {text : Bytes} {items out : List FormatItem} (ht : text ≠ []) (h : Writable items)
    (he : prependLiteral text (items.map some) = out.map some) : Writable out := by
  refine ⟨h.1.prepend ht he, ?_⟩
  rw [prependLiteral_map_some ht, List.map_inj_right (fun _ _ => Option.some.inj)] at he
  subst he
  split
  · refine ⟨fun f hf => h.2.1 f (by simpa using hf), List.isChain_cons.mpr ⟨?_, h.2.2.tail⟩⟩
    rintro _ _ ⟨hbare, _⟩
    cases hbare
  · refine ⟨fun f hf => h.2.1 f (by simpa using hf), List.isChain_cons.mpr ⟨?_, h.2.2⟩⟩
    rintro _ _ ⟨hbare, _⟩
    cases hbare

theorem WrittenFor.char {p : Bytes} {items out : List FormatItem} {c : Byte} (hc : c ≠ byte '%') (h : WrittenFor p items)
    (he : prependLiteral [c] (items.map some) = out.map some) : WrittenFor (c :: p) out := by
  have hne : [c] ≠ [] := List.cons_ne_nil c []
  refine ⟨h.1.prepend hne he, ?_⟩
  rw [unparse_prepend hne he, escape_singleton, if_neg hc]
  simpa using h.2.1

theorem WrittenFor.percent {p : Bytes} {items out : List FormatItem} (h : WrittenFor p items)
    (he : prependLiteral [byte '%'] (items.map some) = out.map some) :
    WrittenFor (byte '%' :: byte '%' :: p) out := by
  have hne : [byte '%'] ≠ [] := List.cons_ne_nil _ _
  refine ⟨h.1.prepend hne he, ?_⟩
  rw [unparse_prepend hne he, escape_singleton, if_pos rfl]
  simpa using h.2.1

theorem WrittenFor.directive {p format : Bytes} {items : List FormatItem} {c : Byte} {item : FormatItem}
    (h : WrittenFor p items) (hitem : createFormatItem c format = some item) (hbrace : byte '}' ∉ format)
    (hbare : format = [] → p.head? ≠ some (byte '{')) :
    WrittenFor (writeDirective c format p) (item :: items) := by
  have hliteral : item.isLiteral = false := by
    cases item with
    | literal s => exact absurd hitem (createFormatItem_ne_literal c format s)
    | _ => rfl
  have hformat : ∀ f, item = .dateTime f → f = format := fun f hf => createFormatItem_dateTime (hf ▸ hitem)
  refine ⟨⟨h.1.1.cons_directive hliteral, ?_, ?_⟩, ?_, ?_⟩
  · intro f hf
    rcases List.mem_cons.mp hf with heq | hmem
    · rw [hformat f heq.symm]
      exact hbrace
    · exact h.1.2.1 f hmem
  · refine List.isChain_cons.mpr ⟨?_, h.1.2.2⟩
    rintro next hnext ⟨hdate, text, rfl⟩
    obtain ⟨rest, rfl⟩ := List.head?_eq_some_iff.mp hnext
    apply hbare (hformat [] hdate).symm
    rw [← h.2.2]
    exact (unparse_head?_brace h.1.1.1).mpr ⟨text, rest, rfl⟩
  · rw [unparse_directive hliteral, writeDirective_length, writeDirective_length]
    have hlength := h.2.1
    by_cases hdate : ∃ f, item = .dateTime f
    · obtain ⟨f, rfl⟩ := hdate
      rw [FormatItem.writtenFormat, hformat f rfl]
      omega
    · rw [writtenFormat_simple fun f hf => hdate ⟨f, hf⟩, h.2.2]
      split
      · rename_i hopen
        have hne : format ≠ [] := fun hempty => hbare hempty hopen
        have hpos := List.length_pos_of_ne_nil hne
        simp only [List.cons_ne_nil, if_false, if_neg hne, List.length_singleton]
        omega
      · rw [if_pos rfl]
        split <;> omega
  · rw [unparse_directive hliteral]
    rfl

theorem denote_directive {c : Byte} {f : Bytes} {ts : List Token} {items : List FormatItem}
    (h : denote (.directive c f :: ts) = items.map some) :
    ∃ item rest, items = item :: rest ∧ createFormatItem c f = some item ∧ denote ts = rest.map some := by
  cases items with
  | nil => cases h
  | cons item rest =>
      rw [denote_cons_directive, List.map_cons, List.cons.injEq] at h
      exact ⟨item, rest, rfl, h.1, h.2⟩

theorem writtenFor_of_lexes {p : Bytes} {ts : List Token} (h : Lexes p ts) {items : List FormatItem}
    (hd : denote ts = items.map some) : WrittenFor p items := by
  induction h generalizing items with
  | nil =>
      obtain rfl : items = [] := by simpa [denote] using hd.symm
      exact ⟨⟨⟨by simp, .nil⟩, by simp, .nil⟩, Nat.le_refl _, rfl⟩
  | @char c p ts hc _ ih =>
      have hsome : ∀ item ∈ denote (.char c :: ts), item.isSome := by simp [hd]
      obtain ⟨rest, hrest⟩ := exists_map_some (prependLiteral_isSome.mp hsome)
      exact (ih hrest).char hc (by rw [← hd, denote, hrest])
  | @percent p ts _ ih =>
      have hsome : ∀ item ∈ denote (.percent :: ts), item.isSome := by simp [hd]
      obtain ⟨rest, hrest⟩ := exists_map_some (prependLiteral_isSome.mp hsome)
      exact (ih hrest).percent (by rw [← hd, denote, hrest])
  | @bare c p ts hc hhead _ ih =>
      obtain ⟨item, rest, rfl, hitem, hrest⟩ := denote_directive hd
      exact (ih hrest).directive hitem List.not_mem_nil fun _ => hhead
  | @braced c f p ts hc hf hbrace _ ih =>
      obtain ⟨item, rest, rfl, hitem, hrest⟩ := denote_directive hd
      have hwritten := (ih hrest).directive hitem hbrace fun hempty => absurd hempty hf
      rwa [writeDirective, if_neg hf] at hwritten

end Pans
