import Pans.Formatter.Lemmas.Format
import Pans.Formatter.Lemmas.Parse

/-!
# Patterns in sequence

The tokens of one pattern followed by those of another are the tokens of the two patterns in sequence, unless
the second pattern begins with a brace that the last directive of the first takes for its own.
-/

namespace Pans

/-! ## Tokens -/

/-- No directive at the end of `ts` takes a brace at the beginning of `q`. -/
def KeepsBrace (ts : List Token) (q : Bytes) : Prop :=
  ∀ c, ts.getLast? = some (.directive c []) → q.head? ≠ some (byte '{')

theorem KeepsBrace.tail {t : Token} {ts : List Token} {q : Bytes} (h : KeepsBrace (t :: ts) q) :
    KeepsBrace ts q := by
  intro c hlast
  exact h c (by simp [List.getLast?_cons, hlast])

theorem Lexes.keepsBrace {p q : Bytes} {ts : List Token} (hp : Lexes p ts)
    (h : ¬(EndsBare p ∧ q.head? = some (byte '{'))) : KeepsBrace ts q := by
  intro c hlast hbrace
  obtain ⟨before, rfl⟩ := List.getLast?_eq_some_iff.mp hlast
  exact h ⟨⟨before, c, hp⟩, hbrace⟩

theorem Lexes.eq_nil {ts : List Token} (h : Lexes [] ts) : ts = [] := by
  cases h
  rfl

/-- Whatever follows, the parser reads a token as it does at the end of the pattern. -/
theorem Lexes.append {p q : Bytes} {ts us : List Token} (hp : Lexes p ts) (hq : Lexes q us)
    (hseam : KeepsBrace ts q) : Lexes (p ++ q) (ts ++ us) := by
  induction hp with
  | nil => exact hq
  | char hc _ ih => exact .char hc (ih hseam.tail)
  | percent _ ih => exact .percent (ih hseam.tail)
  | @bare c p ts hc hhead hp ih =>
      refine .bare hc ?_ (ih hseam.tail)
      cases p with
      | nil =>
          cases hp.eq_nil
          exact hseam c rfl
      | cons b p => exact hhead
  | @braced c f p ts hc hf hbrace _ ih =>
      have hsplit : byte '%' :: c :: byte '{' :: (f ++ byte '}' :: p) ++ q =
          byte '%' :: c :: byte '{' :: (f ++ byte '}' :: (p ++ q)) := by simp
      rw [hsplit]
      exact .braced hc hf hbrace (ih hseam.tail)

/-! ## Items -/

theorem joinItems_cons {item : FormatItem} (h : item.isLiteral = false) (rest items : List FormatItem) :
    joinItems (item :: rest) items = item :: joinItems rest items := by
  cases item with
  | literal s => cases h
  | _ => rfl

/-- A literal in front of the first list stands in front of the joined one, merged in the same way. -/
theorem prependLiteral_joinItems {text : Bytes} (ht : text ≠ []) {rest out : List FormatItem}
    (items : List FormatItem) (h : prependLiteral text (rest.map some) = out.map some) :
    prependLiteral text ((joinItems rest items).map some) = (joinItems out items).map some := by
  rw [prependLiteral_map_some ht, List.map_inj_right (fun _ _ => Option.some.inj)] at h
  subst h
  rw [prependLiteral_map_some ht]
  congr 1
  rcases rest with _ | ⟨i, rest⟩
  · cases items with
    | nil => rfl
    | cons j items => cases j <;> rfl
  · cases i with
    | literal s =>
        cases rest with
        | nil =>
            cases items with
            | nil => rfl
            | cons j items => cases j <;> simp [joinItems]
        | cons k rest => simp [joinItems]
    | _ => simp [joinItems]

theorem denote_append {ts us : List Token} {pre post : List FormatItem} (hpre : denote ts = pre.map some)
    (hpost : denote us = post.map some) : denote (ts ++ us) = (joinItems pre post).map some := by
  induction ts generalizing pre with
  | nil =>
      obtain rfl : pre = [] := by simpa [denote] using hpre.symm
      exact hpost
  | cons t ts ih =>
      have hsome : ∀ item ∈ denote (t :: ts), item.isSome := by simp [hpre]
      cases t with
      | char c =>
          obtain ⟨rest, hrest⟩ := exists_map_some (prependLiteral_isSome.mp hsome)
          rw [denote, hrest] at hpre
          rw [List.cons_append, denote, ih hrest]
          exact prependLiteral_joinItems (List.cons_ne_nil c []) post hpre
      | percent =>
          obtain ⟨rest, hrest⟩ := exists_map_some (prependLiteral_isSome.mp hsome)
          rw [denote, hrest] at hpre
          rw [List.cons_append, denote, ih hrest]
          exact prependLiteral_joinItems (List.cons_ne_nil (byte '%') []) post hpre
      | directive c f =>
          cases pre with
          | nil => simp [denote] at hpre
          | cons item pre =>
              simp only [denote_cons_directive, List.map_cons, List.cons.injEq] at hpre
              have hitem : item.isLiteral = false := by
                cases item with
                | literal s => exact absurd hpre.1 (createFormatItem_ne_literal c f s)
                | _ => rfl
              rw [List.cons_append, denote_cons_directive, hpre.1, ih hpre.2, joinItems_cons hitem, List.map_cons]

/-- A rendering under which a literal is its own text does not see the seam. -/
theorem flatMap_joinItems {render : FormatItem → Bytes} (hliteral : ∀ s, render (.literal s) = s)
    (pre post : List FormatItem) : (joinItems pre post).flatMap render = pre.flatMap render ++ post.flatMap render := by
  fun_induction joinItems pre post with
  | case1 => rfl
  | case2 a b items => simp [hliteral]
  | case3 item rest items _ ih => simp [ih]

section

variable {Tm σ : Type} {libc : Libc Tm} {onAssert : AssertHandler σ}

theorem formatItems_joinItems (record : LogRecordView) (pre post : List FormatItem) (st : ThreadState σ)
    (output : Bytes) :
    formatItems libc onAssert record (joinItems pre post) st output =
      (formatItems libc onAssert record pre st output).bind fun p =>
        formatItems libc onAssert record post p.1 p.2 := by
  rw [← formatItems_append]
  fun_induction joinItems pre post generalizing st output with
  | case1 => rfl
  | case2 a b items => simp [formatItems, FormatItem.format]
  | case3 item rest items _ ih => simp only [List.cons_append, formatItems, ih]

end

/-! ## The escape -/

theorem escape_cons (c : Byte) (text : Bytes) :
    escape (c :: text) = (if c = byte '%' then [byte '%', byte '%'] else [c]) ++ escape text := rfl

/-- The escaped text is one literal, or nothing. -/
theorem escape_lexes (text : Bytes) :
    ∃ ts, Lexes (escape text) ts ∧ denote ts = prependLiteral text [] := by
  induction text with
  | nil => exact ⟨[], .nil, rfl⟩
  | cons c text ih =>
      obtain ⟨ts, hlex, hdenote⟩ := ih
      rw [escape_cons]
      by_cases hc : c = byte '%'
      · subst hc
        refine ⟨.percent :: ts, .percent hlex, ?_⟩
        rw [denote, hdenote, Formatter.prependLiteral_append]
        rfl
      · rw [if_neg hc]
        refine ⟨.char c :: ts, .char hc hlex, ?_⟩
        rw [denote, hdenote, Formatter.prependLiteral_append]
        rfl

end Pans
