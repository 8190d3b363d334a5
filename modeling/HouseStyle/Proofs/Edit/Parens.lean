import HouseStyle.Proofs.Edit.Inserted
import HouseStyle.Proofs.Outline.Enclosed

/-! Parentheses put around a header or taken away. Those put in are tokens of their own, and all other
tokens are read as before, on the lines on which they stood. Those taken away go with the white space
right inside them, and a blank may come in their place; all other lexemes are read as before. -/

namespace HouseStyle

open Outline

def openParen : Lexeme := ⟨.punctuation, [.char '('], false⟩

def closeParen : Lexeme := ⟨.punctuation, [.char ')'], false⟩

/-- The lexemes with parentheses around those from one index to another one. -/
def withParens (ls : List Lexeme) (i j : Nat) : List Lexeme :=
  ls.take i ++ openParen :: (between ls i (j + 1) ++ closeParen :: ls.drop (j + 1))

variable {ls : List Lexeme} {i j : Nat}

/-- Before a header other lexemes may come that start with a mark. -/
theorem Opens.isLexed_append {vs : List Lexeme} (hi : Opens ls i) (hls : IsLexed ls)
    (hvs : IsLexed vs) (hstops : (joined vs).Stops) (hslash : (joined vs).head? ≠ some (.char '/'))
    (hspace : ∀ s ∈ (joined vs).head?, s.isSpace = false)
    (hgrave : .char '\x60' ∈ (joined vs).firstLine →
      .char '\x60' ∈ (joined (ls.drop i)).firstLine) : IsLexed (ls.take i ++ vs) := by
  have hlexed : IsLexed (ls.take i ++ ls.drop i) := by rwa [List.take_append_drop]
  refine hlexed.glue hvs (fun l hl => ?_) (fun _ _ _ _ => hspace) fun _ => hgrave
  cases i with
  | zero => simp at hl
  | succ m =>
    refine hi.seam hls hstops hslash rfl (between_getLast? (k := 0) (Nat.zero_le m) ?_ ?_)
    · simpa [between] using hl
    · have := hi.lt
      omega

theorem isLexed_withParens (hi : Opens ls i) (hj : Closes ls j) (hij : i ≤ j) (hls : IsLexed ls) :
    IsLexed (withParens ls i j) := by
  have hclosing := (hls.drop (j + 1)).insert (c := ')') (by decide)
  have hinner := hj.isLexed_append (k := i) hls hclosing (.cons (by decide) _) (by simp)
    (grave_of_insert (by decide)) hij
  have hopening := hinner.insert (c := '(') (by decide)
  have hhead : (joined (openParen :: (between ls i (j + 1) ++ closeParen :: ls.drop (j + 1)))).head? =
      some (.char '(') := rfl
  refine hi.isLexed_append hls hopening (.cons (by decide) _) ?_ ?_ fun hmem => ?_
  · exact hhead.symm ▸ by decide
  · intro s hs
    rw [← Option.some.inj (hhead.symm.trans hs)]
    decide
  · have hmem : .char '\x60' ∈
        (joined (between ls i (j + 1) ++ closeParen :: ls.drop (j + 1))).firstLine :=
      grave_of_insert (c := '(') (by decide) hmem
    rw [joined_append] at hmem
    rw [← between_append_drop (show i ≤ j + 1 by omega), joined_append]
    exact Text.mem_firstLine_append_mono (grave_of_insert (c := ')') (by decide)) _ hmem

theorem joined_withParens (ls : List Lexeme) (i j : Nat) : joined (withParens ls i j) =
    (joined ls).take (offset ls i) ++ (.char '(' :: joined (between ls i (j + 1)) ++ [.char ')']) ++
      (joined ls).drop (offset ls (j + 1)) := by
  simp [withParens, take_offset, drop_offset, openParen, closeParen]

section

variable (hij : i ≤ j) (hj : j < ls.length)
include hij hj

theorem length_withParens : (withParens ls i j).length = ls.length + 2 := by
  simp only [withParens, between, List.length_append, List.length_cons, List.length_take,
    List.length_drop]
  omega

theorem withParens_opener : (withParens ls i j)[i]? = some openParen := by
  rw [withParens, List.getElem?_append_right (by simp), List.length_take_of_le (by omega),
    Nat.sub_self]
  rfl

theorem length_between : (between ls i (j + 1)).length = j + 1 - i := by
  rw [between, List.length_take, List.length_drop]
  omega

theorem withParens_closer : (withParens ls i j)[j + 2]? = some closeParen := by
  have hlength := length_between hij hj
  rw [withParens, List.getElem?_append_right (by rw [List.length_take]; omega),
    List.length_take_of_le (by omega), show j + 2 - i = j + 1 - i + 1 by omega,
    List.getElem?_cons_succ, List.getElem?_append_right (by omega), hlength, Nat.sub_self]
  rfl

theorem withParens_getElem? (k : Nat) : (withParens ls i j)[spread i j k]? = ls[k]? := by
  have hlength := length_between hij hj
  have htake : (ls.take i).length = i := List.length_take_of_le (by omega)
  rcases Nat.lt_or_ge k i with hki | hik
  · rw [spread_of_lt hki, withParens, List.getElem?_append_left (by omega),
      List.getElem?_take_of_lt hki]
  rcases Nat.lt_or_ge j k with hjk | hkj
  · rw [spread_of_gt hjk hik, withParens, List.getElem?_append_right (by omega), htake,
      show k + 2 - i = k + 1 - i + 1 by omega, List.getElem?_cons_succ,
      List.getElem?_append_right (by omega), hlength,
      show k + 1 - i - (j + 1 - i) = k - (j + 1) + 1 by omega, List.getElem?_cons_succ,
      List.getElem?_drop, Nat.add_sub_cancel' hjk]
  · rw [spread_of_mem hik hkj, withParens, List.getElem?_append_right (by omega), htake,
      show k + 1 - i = k - i + 1 by omega, List.getElem?_cons_succ,
      List.getElem?_append_left (by omega), between, List.getElem?_take_of_lt (by omega),
      List.getElem?_drop, Nat.add_sub_cancel' hik]

end

section

variable {text : Text} (hi : Opens (lexemes text) i) (hj : Closes (lexemes text) j) (hij : i ≤ j)
include hi hj hij

theorem lexemes_withParens :
    lexemes (joined (withParens (lexemes text) i j)) = withParens (lexemes text) i j :=
  isLexed_withParens hi hj hij (isLexed_lexemes text)

/-- The tokens of a text with parentheses around a header. -/
theorem tokenize_encloses :
    Encloses (tokenize text) (tokenize (joined (withParens (lexemes text) i j))) i j := by
  have hlt := hj.lt
  have hnew := lexemes_withParens hi hj hij
  have hopener := withParens_opener hij hlt
  have hcloser := withParens_closer hij hlt
  rw [← hnew] at hopener hcloser
  constructor
  case le => exact hij
  case length => rw [tokenize_length, tokenize_length, hnew, length_withParens hij hlt]
  case renames =>
    refine renaming_of_lexemes (spread_strictMono i j) (fun k => ?_) fun m l hm hplace => ?_
    · rw [hnew, withParens_getElem? hij hlt]
    · have hparen : m = i ∨ m = j + 2 := by
        by_contra hne
        obtain ⟨k, hk⟩ := exists_spread hij (fun h => hne (.inl h)) fun h => hne (.inr h)
        exact hplace k hk
      rcases hparen with rfl | rfl
      · rw [← Option.some.inj (hopener.symm.trans hm)]
        decide
      · rw [← Option.some.inj (hcloser.symm.trans hm)]
        decide
  case opener =>
    obtain ⟨t, ht, hlexeme⟩ := exists_token_of_lexeme hopener
    exact ⟨t, ht, by rw [hlexeme]; decide⟩
  case closer =>
    obtain ⟨t, ht, hlexeme⟩ := exists_token_of_lexeme hcloser
    exact ⟨t, ht, by rw [hlexeme]; decide⟩
  case loud =>
    obtain ⟨l, hl, hcode, -⟩ := hj.code
    obtain ⟨t, ht, rfl⟩ := exists_token_of_lexeme hl
    exact ⟨t, List.getElem?_toArray.trans ht, hcode⟩

end

/-! ### Parentheses taken away -/

def blank : Lexeme := ⟨.whitespace, [.char ' '], false⟩

/-- Parentheses that can go from around a stretch of code, with white space at its ends. What stands
before them is a keyword that gets a blank, white space or a comment; what stands behind them is a
brace that gets a blank, or anything that ends a word. -/
structure Bares (front lead inner trail back before after : List Lexeme) (opener closer : Lexeme) :
    Prop where
  lexed : IsLexed (front ++ [opener] ++ lead ++ inner ++ trail ++ closer :: back)
  opens : opener.isMark '('
  closes : closer.isMark ')'
  leads : ∀ l ∈ lead, l.isSpace
  trails : ∀ l ∈ trail, l.isSpace
  first : ∃ l ∈ inner.head?, l.isTrivia = false
  last : ∃ l ∈ inner.getLast?, l.isTrivia = false
  enters : before = [blank] ∧ (∃ l ∈ front.getLast?, l.kind = .keyword) ∨
    before = [] ∧ ∃ l ∈ front.getLast?, l.isTrivia
  leaves : after = [blank] ∧ (joined back).head? = some (.char '{') ∨
    after = [] ∧ (joined back).Stops
  slash : ∀ l ∈ inner.getLast?, l.text = [.char '/'] → (joined back).head? ≠ some (.char '/')
  breaks : (∃ l ∈ front ++ inner, l.isGrave) → ∀ l ∈ lead ++ trail, ∀ s ∈ l.text, s.isBreak = false

/-- A blank before what is no white space is a lexeme. -/
theorem IsLexed.blank {ls : List Lexeme} (h : IsLexed ls)
    (hhead : ∀ s ∈ (joined ls).head?, s.isSpace = false) : IsLexed (blank :: ls) := by
  have hrun : Literal.run Sym.isBlank ([.char ' '] ++ joined ls) = 1 :=
    run_append_of_head? (by simp; decide) fun s hs => by simp [Sym.isBlank, hhead s hs]
  have hnext : Cut.next (HouseStyle.blank.text ++ joined ls) = HouseStyle.blank.cut := by
    change Cut.next (.char ' ' :: joined ls) = ⟨.whitespace, 1, false⟩
    rw [Cut.next_of_isBlank (by decide)]
    exact congrArg (fun length => (⟨.whitespace, length, false⟩ : Cut)) hrun
  rw [IsLexed, joined_cons, lexemes_append_of_next (by decide) hnext, h]

/-- White space or a comment may come before any text that does not lengthen it. -/
theorem IsLexed.cons_of_trivia {l : Lexeme} {ls vs : List Lexeme} (h : IsLexed (l :: ls))
    (hl : l.isTrivia) (hcode : ∃ l' ∈ ls.head?, l'.isTrivia = false) (hvs : IsLexed vs)
    (hhead : ∀ s ∈ (joined vs).head?, s.isSpace = false) : IsLexed (l :: vs) := by
  obtain ⟨l', hl', hcode⟩ := hcode
  obtain ⟨rest, rfl⟩ := List.head?_eq_some_iff.mp hl'
  have hopen : Cut.isOpenEnded l.kind := by
    cases hk : l.kind <;> simp_all [Lexeme.isTrivia, TokenKind.isTrivia, Cut.isOpenEnded]
  have hnext : Cut.next (l.text ++ joined vs) = l.cut := by
    refine h.next_trailing hopen (fun hline => ?_) (fun hended => ?_) fun _ _ => hhead
    · rw [h.isTrivia_of_line hline] at hcode
      cases hcode
    · rw [h.closed_of_ne_nil (by simp [h.cons.2.2.cons.1])] at hended
      cases hended
  rw [IsLexed, joined_cons, lexemes_append_of_next h.cons.1 hnext, hvs]

namespace Bares

variable {front lead inner trail back before after : List Lexeme} {opener closer : Lexeme}
  (h : Bares front lead inner trail back before after opener closer)
include h

theorem lexed_inner : IsLexed (inner ++ (trail ++ closer :: back)) := by
  have := h.lexed
  simp only [List.append_assoc] at this
  exact this.append_right.append_right.append_right

theorem text_closer : closer.text = [.char ')'] := by
  have := h.closes
  simp only [Lexeme.isMark, Lexeme.isPunct, Bool.and_eq_true, decide_eq_true_eq] at this
  exact this.2

theorem text_opener : opener.text = [.char '('] := by
  have := h.opens
  simp only [Lexeme.isMark, Lexeme.isPunct, Bool.and_eq_true, decide_eq_true_eq] at this
  exact this.2

theorem stops_behind : (joined (after ++ back)).Stops := by
  rcases h.leaves with ⟨rfl, -⟩ | ⟨rfl, hstops⟩
  · exact .cons (by decide) _
  · exact hstops

theorem isLexed_behind : IsLexed (after ++ back) := by
  have hback : IsLexed back := h.lexed_inner.append_right.append_right.cons.2.2
  rcases h.leaves with ⟨rfl, hhead⟩ | ⟨rfl, -⟩
  · refine hback.blank fun s hs => ?_
    rw [← Option.some.inj (hhead.symm.trans hs)]
    decide
  · exact hback

/-- No grave accent comes to the last line of what is in the parentheses, -/
theorem grave_behind (hgrave : ∃ l ∈ front ++ inner, l.isGrave)
    (hmem : .char '\x60' ∈ (joined (after ++ back)).firstLine) :
    .char '\x60' ∈ (joined (trail ++ closer :: back)).firstLine := by
  have hback : .char '\x60' ∈ (joined back).firstLine := by
    rcases h.leaves with ⟨rfl, -⟩ | ⟨rfl, -⟩
    · simpa [blank, Text.firstLine, Sym.isBreak, Sym.is] using hmem
    · exact hmem
  have htrail : ∀ s ∈ joined trail, s.isBreak = false := fun s hs => by
    obtain ⟨l, hl, hs⟩ := List.mem_flatMap.mp hs
    exact h.breaks hgrave l (List.mem_append_right _ hl) s hs
  rw [joined_append, Text.mem_firstLine_append htrail, joined_cons, h.text_closer]
  exact .inr (Text.mem_firstLine_append_mono (b := joined back) (fun hmem => hmem) _
    ((Text.mem_firstLine_append (by decide) _).mpr (.inr hback)))

theorem isLexed_inner : IsLexed (inner ++ (after ++ back)) := by
  obtain ⟨l, hl, hcode⟩ := h.last
  have hlexed := h.lexed_inner
  refine hlexed.glue h.isLexed_behind (fun l' hl' => ?_) (fun l' hl' => ?_)
    fun hgrave => h.grave_behind (hgrave.imp fun _ => And.imp_left (List.mem_append_right _))
  all_goals obtain rfl := Option.some.inj (hl.symm.trans hl')
  · obtain ⟨us, rfl⟩ := List.getLast?_eq_some_iff.mp hl
    rw [List.append_assoc] at hlexed
    have hlast : IsLexed (l :: (trail ++ closer :: back)) := hlexed.append_right
    have hold : (joined (trail ++ closer :: back)).Stops := by
      cases htrail : trail with
      | nil =>
        rw [List.nil_append, joined_cons, h.text_closer]
        exact .cons (by decide) _
      | cons l' trail =>
        rw [htrail] at hlast
        exact hlast.cons.2.2.stops_of_isTrivia
          (isTrivia_of_isSpace (h.trails l' (by simp [htrail])))
    refine seam_of_stops hold (isLineComment_of_not_isTrivia hcode) ?_ h.stops_behind
      fun htext hslash => ?_
    · refine hlast.closed_of_ne_nil ?_
      simp [h.text_closer]
    · rcases h.leaves with ⟨rfl, -⟩ | ⟨rfl, -⟩
      · exact absurd hslash (by simp [blank])
      · exact absurd hslash (h.slash l hl htext)
  · simp [isSpace_of_code hcode]

/-- What was in the parentheses begins with no white space. -/
theorem head?_inner : ∀ s ∈ (joined (inner ++ (after ++ back))).head?, s.isSpace = false := by
  obtain ⟨l, hl, hcode⟩ := h.first
  obtain ⟨rest, rfl⟩ := List.head?_eq_some_iff.mp hl
  have hlexed : IsLexed (l :: (rest ++ (after ++ back))) := h.isLexed_inner
  intro s hs
  rw [List.cons_append, joined_cons, List.head?_append_of_ne_nil _ hlexed.cons.1] at hs
  exact hlexed.head?_not_isSpace (isSpace_of_code hcode) s hs

/-- nor to the line before them. -/
theorem grave_before (hgrave : ∃ l ∈ front, l.isGrave)
    (hmem : .char '\x60' ∈ (joined (before ++ (inner ++ (after ++ back)))).firstLine) :
    .char '\x60' ∈ (joined (opener :: (lead ++ (inner ++ (trail ++ closer :: back))))).firstLine := by
  have hgrave : ∃ l ∈ front ++ inner, l.isGrave :=
    hgrave.imp fun l hl => ⟨List.mem_append_left _ hl.1, hl.2⟩
  have hinner : .char '\x60' ∈ (joined (inner ++ (after ++ back))).firstLine := by
    rcases h.enters with ⟨rfl, -⟩ | ⟨rfl, -⟩
    · simpa [blank, Text.firstLine, Sym.isBreak, Sym.is] using hmem
    · exact hmem
  rw [joined_append] at hinner
  have hlead : ∀ s ∈ joined lead, s.isBreak = false := fun s hs => by
    obtain ⟨l, hl, hs⟩ := List.mem_flatMap.mp hs
    exact h.breaks hgrave l (List.mem_append_left _ hl) s hs
  rw [joined_cons, h.text_opener, Text.mem_firstLine_append (by decide), joined_append,
    Text.mem_firstLine_append hlead, joined_append]
  exact .inr (.inr (Text.mem_firstLine_append_mono (h.grave_behind hgrave) _ hinner))

/-- The lexemes that are left are those of their text. -/
theorem isLexed : IsLexed (front ++ before ++ inner ++ after ++ back) := by
  have hlexed := h.lexed
  simp only [List.append_assoc, List.singleton_append] at hlexed ⊢
  have hopener : opener.isTrivia = false := by
    have := h.opens
    simp only [Lexeme.isMark, Lexeme.isPunct, Bool.and_eq_true, decide_eq_true_eq] at this
    simp [Lexeme.isTrivia, TokenKind.isTrivia, this.1]
  have hcode : ∃ l ∈ (opener :: (lead ++ (inner ++ (trail ++ closer :: back)))).head?,
      l.isTrivia = false := ⟨opener, rfl, hopener⟩
  rcases h.enters with ⟨rfl, l, hl, hkeyword⟩ | ⟨rfl, l, hl, htrivia⟩
  · refine hlexed.glue (h.isLexed_inner.blank h.head?_inner) (fun l' hl' => ?_) (fun l' hl' => ?_)
      h.grave_before
    all_goals obtain rfl := Option.some.inj (hl.symm.trans hl')
    · obtain ⟨us, rfl⟩ := List.getLast?_eq_some_iff.mp hl
      rw [List.append_assoc] at hlexed
      exact seam_of_not_punctuation hlexed.append_right (.inr hkeyword) hcode (.cons (by decide) _)
        (by simp [blank])
    · simp [Lexeme.isSpace, hkeyword]
  · -- The lexeme before the parentheses has its end in itself; what stands before that one sees it.
    obtain ⟨us, rfl⟩ := List.getLast?_eq_some_iff.mp hl
    have hgrave := h.grave_before
    simp only [List.append_assoc, List.singleton_append, List.nil_append] at hlexed hgrave ⊢
    have hlast := hlexed.append_right
    have hnew := hlast.cons_of_trivia htrivia hcode h.isLexed_inner h.head?_inner
    have hhead : (joined (l :: (inner ++ (after ++ back)))).head? = l.text.head? := by
      rw [joined_cons, List.head?_append_of_ne_nil _ hlast.cons.1]
    have hhead' : (joined (l :: opener :: (lead ++ (inner ++ (trail ++ closer :: back))))).head? =
        l.text.head? := by
      rw [joined_cons, List.head?_append_of_ne_nil _ hlast.cons.1]
    have hsame := hhead.trans hhead'.symm
    refine hlexed.glue hnew (fun l' hl' => ?_) (fun _ _ _ hne => absurd hsame hne)
      fun hmarked => ?_
    · obtain ⟨vs, rfl⟩ := List.getLast?_eq_some_iff.mp hl'
      rw [List.append_assoc] at hlexed
      exact seam_of_head? hlexed.append_right ⟨l, rfl, htrivia⟩ hsame
    · obtain ⟨l', hl', hmark⟩ := hmarked
      rw [joined_cons, joined_cons]
      exact Text.mem_firstLine_append_mono (hgrave ⟨l', by simp [hl'], hmark⟩) l.text

end Bares

end HouseStyle
