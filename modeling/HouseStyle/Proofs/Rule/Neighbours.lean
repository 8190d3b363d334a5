import HouseStyle.Proofs.Edit.Repair
import HouseStyle.Proofs.Outline.Scan
import HouseStyle.Rule.Registry

/-! What stands next to segments. Behind the last token of a segment comes nothing that it could run
into, and a header is parted from its keyword by white space and comments alone. -/

namespace HouseStyle

open Outline

/-- The context of a text with the default terminator. -/
structure Context.Reads (c : Context) (text : Text) : Prop where
  content : c.content = text
  outline : c.outline = Outline.ofTokens (tokenize text) ";"
  terminator : c.terminator = .text ";"

/-- The context of a text with a terminator. -/
structure Context.ReadsWith (c : Context) (text end_ : Text) : Prop where
  content : c.content = text
  outline : c.outline = Outline.ofTokens (tokenize text) end_
  terminator : c.terminator = .text end_

theorem Context.Reads.with_default {c : Context} {text : Text} (h : c.Reads text) :
    c.ReadsWith text ";" :=
  ⟨h.content, h.outline, h.terminator⟩

theorem Context.ReadsWith.ending {c : Context} {text end_ : Text} (h : c.ReadsWith text end_) :
    c.ending = end_ := by
  rw [Context.ending, h.terminator]
  rfl

variable {text : Text}

/-! ### Tokens and lexemes -/

theorem lexeme_of_token {i : Nat} {t : Token} (h : (tokenize text).toArray[i]? = some t) :
    (lexemes text)[i]? = some t.toLexeme ∧ t.start = offset (lexemes text) i ∧
      t.stop = offset (lexemes text) (i + 1) := by
  rw [List.getElem?_toArray] at h
  exact tokenize_getElem? h

theorem token_of_lexeme {i : Nat} {l : Lexeme} (h : (lexemes text)[i]? = some l) :
    ∃ t, (tokenize text).toArray[i]? = some t ∧ t.toLexeme = l := by
  rw [← tokenize_map_toLexeme, List.getElem?_map, Option.map_eq_some_iff] at h
  obtain ⟨t, ht, rfl⟩ := h
  exact ⟨t, by rw [List.getElem?_toArray, ht], rfl⟩

/-- What a test finds at an index is the lexeme there. -/
theorem tokenIs_lexeme {p : Lexeme → Bool} {i : Nat} {l : Lexeme}
    (h : tokenIs (tokenize text).toArray (fun t => p t.toLexeme) i)
    (hl : (lexemes text)[i]? = some l) : p l := by
  obtain ⟨t, ht, hp⟩ := tokenIs_iff.mp h
  rw [(lexeme_of_token ht).1] at hl
  rwa [← Option.some.inj hl]

theorem exists_of_tokenIs {p : Lexeme → Bool} {i : Nat}
    (h : tokenIs (tokenize text).toArray (fun t => p t.toLexeme) i) :
    ∃ l, (lexemes text)[i]? = some l ∧ p l := by
  obtain ⟨t, ht, hp⟩ := tokenIs_iff.mp h
  exact ⟨t.toLexeme, (lexeme_of_token ht).1, hp⟩

theorem exists_of_loud {i : Nat} (h : Loud (tokenize text).toArray i) :
    ∃ l, (lexemes text)[i]? = some l ∧ l.isTrivia = false := by
  obtain ⟨t, ht, htrivia⟩ := h
  exact ⟨t.toLexeme, (lexeme_of_token ht).1, htrivia⟩

namespace Context.ReadsWith

variable {c : Context} {end_ : Text} (h : c.ReadsWith text end_)
include h

theorem sound : c.outline.Sound end_ := by
  rw [h.outline]
  exact ofTokens_sound _ _

theorem tokens : c.outline.tokens = (tokenize text).toArray := by
  rw [h.outline]
  rfl

theorem mem_tokenize {t : Token} (ht : t ∈ c.tokens.toList) : t ∈ tokenize text := by
  rwa [Context.tokens, h.tokens] at ht

theorem segment_sound {s : Segment} (hs : s ∈ c.outline.segments) :
    s.Sound (tokenize text).toArray end_ := by
  rw [← h.tokens]
  exact h.sound.segments s hs

theorem token {i : Nat} {t : Token} (ht : c.outline.token? i = some t) :
    (lexemes text)[i]? = some t.toLexeme ∧ t.start = offset (lexemes text) i ∧
      t.stop = offset (lexemes text) (i + 1) := by
  rw [Outline.token?, h.tokens] at ht
  exact lexeme_of_token ht

end Context.ReadsWith

/-! ### The end of a segment -/

namespace Segment.Sound

variable {s : Segment} {tokens : Array Token} {end_ : Text}

/-- Nothing that the last token of a segment could run into stands behind it, if the segment ends at
white space, a brace or a semicolon. -/
theorem closes_of_ending (h : s.Sound (tokenize text).toArray end_)
    (hlabel : ¬(s.label ∧ s.boundary = some s.last))
    (hclosed : ∀ l, (lexemes text)[s.last]? = some l → l.unterminated = false)
    (hending : ∀ b l, s.boundary = some b → (lexemes text)[b]? = some l →
      l.isTrivia ∨ ∃ c ∈ [';', '{', '}'], l.isMark c) : Closes (lexemes text) s.last := by
  obtain ⟨l, hl, hcode⟩ := exists_of_loud (h.inOrder.loud _ h.last_mem)
  refine ⟨⟨l, hl, hcode, hclosed l hl⟩, fun l' hl' => ?_⟩
  cases h.ends with
  | text hboundary hquiet =>
    obtain ⟨t, ht, rfl⟩ := token_of_lexeme hl'
    have hsize := (Array.getElem?_eq_some_iff.mp ht).1
    exact .inl (tokenIs_lexeme (p := Lexeme.isTrivia) (hquiet _ (Nat.lt_succ_self _) hsize) hl')
  | label hl hboundary => exact absurd ⟨hl, hboundary⟩ hlabel
  | token b hboundary hlt hquiet =>
    rcases Nat.lt_or_eq_of_le hlt with hlt' | rfl
    · exact .inl (tokenIs_lexeme (p := Lexeme.isTrivia) (hquiet _ (Nat.lt_succ_self _) hlt') hl')
    · exact hending _ l' hboundary hl'

theorem closes (h : s.Sound (tokenize text).toArray ";")
    (hlabel : ¬(s.label ∧ s.boundary = some s.last))
    (hclosed : ∀ l, (lexemes text)[s.last]? = some l → l.unterminated = false) :
    Closes (lexemes text) s.last := by
  refine h.closes_of_ending hlabel hclosed fun b l hboundary hl => ?_
  cases h.ends with
  | text hnone => simp [hboundary] at hnone
  | label hl hsome => exact absurd ⟨hl, hsome⟩ hlabel
  | token b' hsome hlt hquiet hending =>
    obtain rfl := Option.some.inj (hboundary.symm.trans hsome)
    obtain ⟨t, ht, hending⟩ := tokenIs_iff.mp hending
    rw [(lexeme_of_token ht).1] at hl
    obtain rfl := Option.some.inj hl
    simp only [isEnding, Bool.or_eq_true, decide_eq_true_eq] at hending
    rcases hending with ((hkind | hmark) | hmark) | hmark
    · exact .inl (by simp [Lexeme.isTrivia, TokenKind.isTrivia, hkind])
    · exact .inr ⟨'{', by simp, hmark⟩
    · exact .inr ⟨'}', by simp, hmark⟩
    · exact .inr ⟨';', by simp, hmark⟩

end Segment.Sound

/-! ### The start of a header -/

/-- A token of a run behind a keyword has nothing but white space and comments between them. -/
theorem Outline.InOrder.opens_of_keyword {us vs : List Nat} {k i : Nat} {words : List Text}
    (h : InOrder (tokenize text).toArray (us ++ k :: i :: vs))
    (hk : tokenIs (tokenize text).toArray (·.isKeyword words) k) :
    k < i ∧ (∀ m l, k < m → m < i → (lexemes text)[m]? = some l → l.isTrivia) ∧
      Opens (lexemes text) i := by
  obtain ⟨l, hl, hkeyword⟩ := exists_of_tokenIs (p := fun l => l.isKeyword words) hk
  simp only [Lexeme.isKeyword, Bool.and_eq_true, decide_eq_true_eq] at hkeyword
  have hadjacent : Adjacent (tokenize text).toArray k i :=
    (List.isChain_cons_cons.mp (h.chain.right_of_append)).1
  have hquiet : ∀ m l, k < m → m < i → (lexemes text)[m]? = some l → l.isTrivia := by
    intro m l' hkm hmi hl'
    rcases hadjacent.2 with hbrace | hquiet
    · have := tokenIs_lexeme (p := fun l => l.isMark '{') hbrace hl
      simp [Lexeme.isMark, Lexeme.isPunct, hkeyword.1] at this
    · exact tokenIs_lexeme (p := Lexeme.isTrivia) (hquiet m hkm hmi) hl'
  refine ⟨hadjacent.1, hquiet, exists_of_loud (h.loud i (by simp)), fun m l' hm hl' => ?_⟩
  rcases Nat.lt_or_ge k m with hlt | hge
  · exact .inl (hquiet m l' hlt (by omega) hl')
  · have hlt := hadjacent.1
    obtain rfl : k = m := by omega
    obtain rfl : l = l' := Option.some.inj (hl.symm.trans hl')
    exact .inr hkeyword.1

end HouseStyle
