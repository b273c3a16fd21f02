import Pans.Formatter.Parse
import Pans.Formatter.Grammar

/-!
# The parser follows the grammar

The loop of `parse` reads one token per round. `absorb` is what a token does to the pending literal and the
items; the loop is the fold of `absorb` over the tokens of the rest of the pattern.
-/

namespace Pans

/-! ## The factories -/

theorem createFormatItem_ne_literal (c : Byte) (f s : Bytes) : createFormatItem c f ≠ some (.literal s) := by
  have hall : ∀ entry ∈ getFormatItemFactories, ∀ f, (entry.2 f).isLiteral = false := by
    simp [getFormatItemFactories, createSimpleFormatItem, createConfiguredFormatItem, FormatItem.isLiteral]
  intro h
  simp only [createFormatItem, Option.map_eq_some_iff] at h
  obtain ⟨factory, hl, he⟩ := h
  obtain ⟨before, after, hsplit, _⟩ := List.lookup_eq_some_iff.mp hl
  have := hall (c, factory) (by simp [hsplit]) f
  simp [he, FormatItem.isLiteral] at this

theorem lookup_cons_ite {α β : Type} [DecidableEq α] (a k : α) (b : β) (entries : List (α × β)) :
    ((k, b) :: entries).lookup a = if a = k then some b else entries.lookup a := by
  rw [List.lookup_cons]
  by_cases h : a = k
  · rw [if_pos h, beq_iff_eq.mpr h]
  · rw [if_neg h, beq_eq_false_iff_ne.mpr h]

/-- The registered factories make the items of the directives. -/
theorem createFormatItem_eq (c : Byte) (f : Bytes) : createFormatItem c f = directiveItem c f := by
  simp only [createFormatItem, getFormatItemFactories, lookup_cons_ite, apply_ite (Option.map _)]
  rfl

theorem denote_cons_directive (c : Byte) (f : Bytes) (ts : List Token) :
    denote (.directive c f :: ts) = createFormatItem c f :: denote ts := by
  rw [denote, createFormatItem_eq]

theorem createFormatItem_isSome {c : Byte} {f : Bytes} :
    (createFormatItem c f).isSome ↔ c ∈ directives := by
  have hkeys : directives = getFormatItemFactories.map Prod.fst := by decide
  simp [hkeys, createFormatItem, List.lookup_isSome_iff]

/-! ## The loop -/

namespace Formatter

/-- One round of the loop, on the token it reads. -/
def absorb (state : Bytes × List (Option FormatItem)) : Token → Bytes × List (Option FormatItem)
  | .char c => (state.1 ++ [c], state.2)
  | .percent => (state.1 ++ [byte '%'], state.2)
  | .directive c f =>
      let flushed := addLiteral state.1 state.2
      (flushed.1, flushed.2 ++ [createFormatItem c f])

theorem parseLoop_char {pre s : Bytes} {c : Byte} {literal items} (hc : c ≠ byte '%') :
    parseLoop (pre ++ c :: s) pre.length literal items =
      parseLoop (pre ++ c :: s) (pre.length + 1) (literal ++ [c]) items := by
  rw [parseLoop]
  simp [hc]

theorem parseLoop_percent {pre s : Bytes} {literal items} :
    parseLoop (pre ++ byte '%' :: byte '%' :: s) pre.length literal items =
      parseLoop (pre ++ byte '%' :: byte '%' :: s) (pre.length + 2) (literal ++ [byte '%']) items := by
  rw [parseLoop]
  simp

theorem parseLoop_bare {pre s : Bytes} {c : Byte} {literal items} (hc : c ≠ byte '%')
    (hs : s.head? ≠ some (byte '{')) :
    parseLoop (pre ++ byte '%' :: c :: s) pre.length literal items =
      parseLoop (pre ++ byte '%' :: c :: s) (pre.length + 2) (addLiteral literal items).1
        ((addLiteral literal items).2 ++ [createFormatItem c []]) := by
  rw [parseLoop]
  have hnext : (pre ++ byte '%' :: c :: s)[pre.length + 2]? = s.head? := by
    rw [List.getElem?_append_right (by omega)]
    simp [List.head?_eq_getElem?]
  simp [hc, hnext, hs]

theorem parseLoop_braced {pre f s : Bytes} {c : Byte} {literal items} (hc : c ≠ byte '%')
    (hf : f ≠ []) (hbrace : byte '}' ∉ f) :
    parseLoop (pre ++ byte '%' :: c :: byte '{' :: (f ++ byte '}' :: s)) pre.length literal items =
      parseLoop (pre ++ byte '%' :: c :: byte '{' :: (f ++ byte '}' :: s)) (pre.length + 3 + f.length + 1)
        (addLiteral literal items).1 ((addLiteral literal items).2 ++ [createFormatItem c f]) := by
  set pattern := pre ++ byte '%' :: c :: byte '{' :: (f ++ byte '}' :: s) with hp
  have hsplit : pattern = (pre ++ [byte '%', c, byte '{']) ++ (f ++ byte '}' :: s) := by simp [hp]
  have hpre : (pre ++ [byte '%', c, byte '{']).length = pre.length + 3 := by simp
  have hfind : find pattern (byte '}') (pre.length + 3) = some (pre.length + 3 + f.length) := by
    rw [hsplit, ← hpre]
    exact find_append hbrace
  have hsub : substr pattern (pre.length + 3) f.length = f := by
    rw [hsplit, substr, List.drop_append_of_le_length (by omega), ← hpre]
    simp
  have hlen : f.length ≠ 0 := by simpa using hf
  have h0 : pattern[pre.length]? = some (byte '%') := by simp [hp]
  have h1 : pattern[pre.length + 1]? = some c := by simp [hp]
  have h2 : pattern[pre.length + 2]? = some (byte '{') := by simp [hp]
  obtain ⟨hlt0, hget0⟩ := List.getElem?_eq_some_iff.mp h0
  obtain ⟨hlt1, hget1⟩ := List.getElem?_eq_some_iff.mp h1
  rw [parseLoop, dif_pos hlt0, if_neg (by simp [hget0]), dif_pos hlt1]
  simp only [hget1, hc, ↓reduceIte, h2]
  split
  · rename_i hnone
    rw [hfind] at hnone
    cases hnone
  · rename_i closingBrace hsome
    rw [hfind] at hsome
    cases hsome
    rw [if_pos (by omega), Nat.add_sub_cancel_left, hsub]

theorem parseLoop_end (pattern literal : Bytes) (items) :
    parseLoop pattern pattern.length literal items = .ok (literal, items) := by
  rw [parseLoop]
  simp

/-- Completeness: the loop reads every token sequence. -/
theorem parseLoop_of_lexes {s : Bytes} {ts : List Token} (h : Lexes s ts) :
    ∀ pre literal items, parseLoop (pre ++ s) pre.length literal items =
      .ok (ts.foldl absorb (literal, items)) := by
  induction h with
  | nil =>
      intro pre literal items
      simpa using parseLoop_end pre literal items
  | @char c p ts hc _ ih =>
      intro pre literal items
      rw [parseLoop_char hc]
      simpa [absorb] using ih (pre ++ [c]) (literal ++ [c]) items
  | @percent p ts _ ih =>
      intro pre literal items
      rw [parseLoop_percent]
      simpa [absorb] using ih (pre ++ [byte '%', byte '%']) (literal ++ [byte '%']) items
  | @bare c p ts hc hp _ ih =>
      intro pre literal items
      rw [parseLoop_bare hc hp]
      simpa [absorb] using ih (pre ++ [byte '%', c]) _ _
  | @braced c f p ts hc hf hbrace _ ih =>
      intro pre literal items
      rw [parseLoop_braced hc hf hbrace]
      have := ih (pre ++ byte '%' :: c :: byte '{' :: (f ++ [byte '}'])) (addLiteral literal items).1
        ((addLiteral literal items).2 ++ [createFormatItem c f])
      simpa [absorb, Nat.add_assoc, Nat.add_comm, Nat.add_left_comm] using this

/-- Soundness: where the loop ends without an error, the rest of the pattern is a token sequence. -/
theorem lexes_of_parseLoop (pattern : Bytes) (index : Nat) (literal : Bytes) (items) {result}
    (h : parseLoop pattern index literal items = .ok result) :
    ∃ ts, Lexes (pattern.drop index) ts := by
  fun_induction parseLoop pattern index literal items with
  | case1 index literal items hlt hne ih =>
      obtain ⟨ts, hts⟩ := ih h
      rw [List.drop_eq_getElem_cons hlt]
      exact ⟨_, .char hne hts⟩
  | case2 index literal items hlt heq hlt' directive hd ih =>
      obtain ⟨ts, hts⟩ := ih h
      rw [List.drop_eq_getElem_cons hlt, List.drop_eq_getElem_cons hlt', not_not.mp heq,
        show pattern[index + 1] = byte '%' from hd]
      exact ⟨_, .percent hts⟩
  | case3 => cases h
  | case4 index literal items hlt heq hlt' directive hd flushed hopen closing hc hne hle format ih =>
      obtain ⟨ts, hts⟩ := ih h
      obtain ⟨hsplit, hbrace⟩ := find_some hc
      obtain ⟨hlt2, hget2⟩ := List.getElem?_eq_some_iff.mp hopen
      rw [List.drop_eq_getElem_cons hlt, List.drop_eq_getElem_cons hlt', List.drop_eq_getElem_cons hlt2,
        not_not.mp heq, hget2, hsplit]
      have hlen := find_lt hc
      refine ⟨_, .braced hd ?_ hbrace hts⟩
      apply List.ne_nil_of_length_pos
      simp only [substr, List.length_take, List.length_drop]
      omega
  | case5 => cases h
  | case6 index literal items hlt heq hlt' directive hd flushed hopen ih =>
      obtain ⟨ts, hts⟩ := ih h
      rw [List.drop_eq_getElem_cons hlt, List.drop_eq_getElem_cons hlt', not_not.mp heq]
      exact ⟨_, .bare hd (by rwa [List.head?_drop]) hts⟩
  | case7 => cases h
  | case8 index literal items hlt =>
      rw [List.drop_eq_nil_of_le (by omega)]
      exact ⟨[], .nil⟩

/-! ## From the fold to the denotation -/

theorem prependLiteral_nil (items : List (Option FormatItem)) : prependLiteral [] items = items := by
  unfold prependLiteral
  split <;> simp

theorem prependLiteral_append (a b : Bytes) (items : List (Option FormatItem)) :
    prependLiteral a (prependLiteral b items) = prependLiteral (a ++ b) items := by
  by_cases hb : b = []
  · simp [hb, prependLiteral_nil]
  · rcases items with _ | ⟨_ | i, items⟩
    · simp [prependLiteral, hb]
    · simp [prependLiteral, hb]
    · cases i <;> simp [prependLiteral, hb]

theorem prependLiteral_directive (a : Bytes) (c : Byte) (f : Bytes) (items : List (Option FormatItem)) :
    prependLiteral a (createFormatItem c f :: items) =
      if a.isEmpty then createFormatItem c f :: items
      else some (.literal a) :: createFormatItem c f :: items := by
  unfold prependLiteral
  split
  · rename_i heq
    simp only [List.cons.injEq] at heq
    exact absurd heq.1 (createFormatItem_ne_literal c f _)
  · rfl

theorem addLiteral_eq (literal : Bytes) (items : List (Option FormatItem)) :
    addLiteral literal items = ([], items ++ prependLiteral literal []) := by
  unfold addLiteral prependLiteral
  split <;> simp_all

/-- The fold over the tokens, flushed at the end, is the denotation behind the pending literal. -/
theorem addLiteral_foldl_absorb (ts : List Token) (literal : Bytes) (items : List (Option FormatItem)) :
    (addLiteral (ts.foldl absorb (literal, items)).1 (ts.foldl absorb (literal, items)).2).2 =
      items ++ prependLiteral literal (denote ts) := by
  induction ts generalizing literal items with
  | nil => simp [addLiteral_eq, denote]
  | cons t ts ih =>
      cases t with
      | char c => simp only [List.foldl_cons, absorb, ih, denote, prependLiteral_append]
      | percent => simp only [List.foldl_cons, absorb, ih, denote, prependLiteral_append]
      | directive c f =>
          simp only [List.foldl_cons, absorb]
          rw [ih, addLiteral_eq, prependLiteral_nil, denote_cons_directive, prependLiteral_directive]
          by_cases hl : literal = [] <;> simp [hl, prependLiteral]

end Formatter

/-! ## Shape of the denotation -/

theorem Formatter.nonNull_eq_some {items : List (Option FormatItem)} {out : List FormatItem} :
    nonNull items = some out ↔ items = out.map some := by
  induction items generalizing out with
  | nil => cases out <;> simp [nonNull]
  | cons item items ih =>
      cases item with
      | none => cases out <;> simp [nonNull]
      | some i => cases out <;> simp [nonNull, ih, and_comm]

theorem prependLiteral_isSome {text : Bytes} {items : List (Option FormatItem)} :
    (∀ item ∈ prependLiteral text items, item.isSome) ↔ ∀ item ∈ items, item.isSome := by
  unfold prependLiteral
  split
  · simp
  · split <;> simp

theorem denote_isSome_iff {ts : List Token} :
    (∀ item ∈ denote ts, item.isSome) ↔ ∀ c f, .directive c f ∈ ts → c ∈ directives := by
  induction ts with
  | nil => simp [denote]
  | cons t ts ih =>
      cases t with
      | char c => simp [denote, prependLiteral_isSome, ih]
      | percent => simp [denote, prependLiteral_isSome, ih]
      | directive c f =>
          rw [denote_cons_directive, List.forall_mem_cons, createFormatItem_isSome, ih]
          simp only [List.mem_cons, Token.directive.injEq]
          constructor
          · rintro ⟨hc, hrest⟩ c' f' (⟨rfl, _⟩ | hm)
            · exact hc
            · exact hrest c' f' hm
          · intro hall
            exact ⟨hall c f (Or.inl ⟨rfl, rfl⟩), fun c' f' hm => hall c' f' (Or.inr hm)⟩

theorem exists_map_some {items : List (Option FormatItem)} (h : ∀ item ∈ items, item.isSome) :
    ∃ out : List FormatItem, items = out.map some := by
  induction items with
  | nil => exact ⟨[], rfl⟩
  | cons item items ih =>
      obtain ⟨out, rfl⟩ := ih fun i hi => h i (List.mem_cons_of_mem _ hi)
      obtain ⟨i, rfl⟩ := Option.isSome_iff_exists.mp (h item List.mem_cons_self)
      exact ⟨i :: out, rfl⟩

theorem MergedLiterals.cons_directive {item : FormatItem} {items : List FormatItem}
    (hi : item.isLiteral = false) (h : MergedLiterals items) : MergedLiterals (item :: items) := by
  refine ⟨?_, ?_⟩
  · intro hm
    rcases List.mem_cons.mp hm with rfl | hm
    · cases hi
    · exact h.1 hm
  · exact List.isChain_cons.mpr ⟨fun _ _ => by simp [hi], h.2⟩

theorem MergedLiterals.cons_literal {text : Bytes} {items : List FormatItem} (ht : text ≠ [])
    (hhead : ∀ i ∈ items.head?, i.isLiteral = false) (h : MergedLiterals items) :
    MergedLiterals (.literal text :: items) := by
  refine ⟨?_, ?_⟩
  · intro hm
    rcases List.mem_cons.mp hm with he | hm
    · exact ht (FormatItem.literal.inj he).symm
    · exact h.1 hm
  · exact List.isChain_cons.mpr ⟨fun i hi => by simp [hhead i hi], h.2⟩

theorem prependLiteral_map_some {text : Bytes} (ht : text ≠ []) (items : List FormatItem) :
    prependLiteral text (items.map some) =
      (match items with
        | .literal s :: rest => .literal (text ++ s) :: rest
        | items => .literal text :: items : List FormatItem).map some := by
  rcases items with _ | ⟨i, items⟩
  · simp [prependLiteral, ht]
  · cases i <;> simp [prependLiteral, ht]

theorem MergedLiterals.prepend {text : Bytes} {items out : List FormatItem} (ht : text ≠ [])
    (h : MergedLiterals items) (he : prependLiteral text (items.map some) = out.map some) :
    MergedLiterals out := by
  rw [prependLiteral_map_some ht, List.map_inj_right (fun _ _ => Option.some.inj)] at he
  subst he
  split
  · rename_i s rest
    refine .cons_literal (by simp [ht]) ?_ ⟨fun hm => h.1 (List.mem_cons_of_mem _ hm), h.2.tail⟩
    intro i hi
    simpa [FormatItem.isLiteral] using (List.isChain_cons.mp h.2).1 i hi
  · rename_i hne
    refine .cons_literal ht ?_ h
    intro i hi
    cases i with
    | literal s =>
        obtain ⟨rest, rfl⟩ := List.head?_eq_some_iff.mp hi
        exact absurd rfl (hne s rest)
    | _ => rfl

theorem denote_merged {ts : List Token} {items : List FormatItem} (h : denote ts = items.map some) :
    MergedLiterals items := by
  induction ts generalizing items with
  | nil =>
      obtain rfl : items = [] := by simpa [denote] using h.symm
      exact ⟨by simp, .nil⟩
  | cons t ts ih =>
      have hsome : ∀ item ∈ denote (t :: ts), item.isSome := by simp [h]
      cases t with
      | char c =>
          obtain ⟨rest, hrest⟩ := exists_map_some (prependLiteral_isSome.mp hsome)
          exact (ih hrest).prepend (List.cons_ne_nil c []) (by rw [← h, denote, hrest])
      | percent =>
          obtain ⟨rest, hrest⟩ := exists_map_some (prependLiteral_isSome.mp hsome)
          exact (ih hrest).prepend (List.cons_ne_nil (byte '%') []) (by rw [← h, denote, hrest])
      | directive c f =>
          obtain ⟨rest, hrest⟩ := exists_map_some fun i hi => hsome i (List.mem_cons_of_mem _ hi)
          cases items with
          | nil => simp [denote] at h
          | cons item items =>
              simp only [denote_cons_directive, List.map_cons, List.cons.injEq] at h
              refine (ih h.2).cons_directive ?_
              cases item with
              | literal s => exact absurd h.1 (createFormatItem_ne_literal c f s)
              | _ => rfl

/-! ## `parse` and the constructor -/

namespace Formatter

theorem parse_of_lexes {p : Bytes} {ts : List Token} {items : List FormatItem} (h : Lexes p ts)
    (hd : denote ts = items.map some) : parse p = .ok items := by
  have hloop := parseLoop_of_lexes h [] [] []
  simp only [List.nil_append, List.length_nil] at hloop
  have hflush := addLiteral_foldl_absorb ts [] []
  rw [List.nil_append, prependLiteral_nil, hd] at hflush
  have hnull : nonNull (items.map some) = some items := nonNull_eq_some.mpr rfl
  simp [parse, hloop, hflush, hnull]

theorem parse_ok_iff {p : Bytes} {items : List FormatItem} :
    parse p = .ok items ↔ ∃ ts, Lexes p ts ∧ denote ts = items.map some := by
  constructor
  · intro h
    obtain ⟨result, hloop⟩ : ∃ result, parseLoop p 0 [] [] = .ok result := by
      cases hl : parseLoop p 0 [] [] with
      | ok result => exact ⟨result, rfl⟩
      | error code => simp [parse, hl] at h
    obtain ⟨ts, hts⟩ := lexes_of_parseLoop p 0 [] [] hloop
    refine ⟨ts, hts, ?_⟩
    have hflush := addLiteral_foldl_absorb ts [] []
    rw [List.nil_append, prependLiteral_nil] at hflush
    have hfold := parseLoop_of_lexes hts [] [] []
    simp only [List.nil_append, List.length_nil, List.drop_zero] at hfold
    simp only [parse, hfold, hflush] at h
    split at h
    · cases h
    · rename_i out hout
      cases h
      exact nonNull_eq_some.mp hout
  · rintro ⟨ts, hts, hd⟩
    exact parse_of_lexes hts hd

theorem parse_of_isPattern {p : Bytes} {ts : List Token} (h : IsPattern p ts) :
    ∃ items, parse p = .ok items ∧ denote ts = items.map some := by
  obtain ⟨items, hitems⟩ := exists_map_some (denote_isSome_iff.mpr h.2)
  exact ⟨items, parse_of_lexes h.1 hitems, hitems⟩

theorem isPattern_of_parse {p : Bytes} {items : List FormatItem} (h : parse p = .ok items) :
    ∃ ts, IsPattern p ts := by
  obtain ⟨ts, hts, hd⟩ := parse_ok_iff.mp h
  exact ⟨ts, hts, denote_isSome_iff.mp (by simp [hd])⟩

theorem new_of_parse {p : Bytes} {items : List FormatItem} (h : parse p = .ok items) :
    new p = some ⟨p, items, h⟩ := by
  unfold new
  split
  · rename_i items' h'
    cases h.symm.trans h'
    rfl
  · rename_i code h'
    cases h.symm.trans h'

theorem pattern_of_new {p : Bytes} {F : Formatter} (h : new p = some F) : F.pattern = p := by
  unfold new at h
  split at h
  · cases h
    rfl
  · cases h

theorem parse_of_new {p : Bytes} {F : Formatter} (h : new p = some F) : parse p = .ok F.items := by
  unfold new at h
  split at h
  · rename_i items hitems
    cases h
    exact hitems
  · cases h

end Formatter

end Pans
