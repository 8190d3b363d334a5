import HouseStyle.Proofs.Token.Reworded
import HouseStyle.Proofs.Token.Seam

/-! The code of a text is what its lexemes carry, apart from white space, comments, parentheses and
semicolons. White space in front of a text adds no code, and a stretch of a text has the same code
before any other text that its last lexeme can stand before. -/

namespace HouseStyle

/-- The marks that fixes add and remove. -/
def Lexeme.isLoose (l : Lexeme) : Bool := l.isMark ';' || l.isMark '(' || l.isMark ')'

/-- Whether a lexeme counts as code. -/
def Lexeme.isKept (l : Lexeme) : Bool := !l.isTrivia && !l.isLoose

/-- Kinds and texts of the lexemes that count as code. -/
def kept (ls : List Lexeme) : List (TokenKind × Text) :=
  (ls.filter Lexeme.isKept).map fun l => (l.kind, l.text)

@[simp] theorem kept_nil : kept [] = [] := by
  simp [kept]

theorem kept_append (us ls : List Lexeme) : kept (us ++ ls) = kept us ++ kept ls := by
  simp [kept]

theorem kept_cons_of_not {l : Lexeme} (h : l.isKept = false) (ls : List Lexeme) :
    kept (l :: ls) = kept ls := by
  simp [kept, h]

theorem isKept_of_isTrivia {l : Lexeme} (h : l.isTrivia) : l.isKept = false := by
  simp [Lexeme.isKept, h]

/-- The text that lexemes join to. -/
def joined (ls : List Lexeme) : Text := ls.flatMap (·.text)

@[simp] theorem joined_nil : joined [] = [] := rfl

@[simp] theorem joined_cons (l : Lexeme) (ls : List Lexeme) :
    joined (l :: ls) = l.text ++ joined ls := rfl

@[simp] theorem joined_append (us ls : List Lexeme) : joined (us ++ ls) = joined us ++ joined ls := by
  simp [joined]

/-! ### Lexed lists -/

/-- Lexemes that the lexer cuts from the text that they join to. -/
def IsLexed (ls : List Lexeme) : Prop := lexemes (joined ls) = ls

theorem isLexed_lexemes (text : Text) : IsLexed (lexemes text) := by
  rw [IsLexed, joined, lexemes_join]

/-- The cut that makes a lexeme. -/
def Lexeme.cut (l : Lexeme) : Cut := ⟨l.kind, l.text.length, l.unterminated⟩

theorem lexemes_append_of_next {l : Lexeme} (hne : l.text ≠ []) {t : Text}
    (h : Cut.next (l.text ++ t) = l.cut) : lexemes (l.text ++ t) = l :: lexemes t := by
  rw [lexemes_of_ne_nil (by simp [hne]), h]
  simp [Lexeme.cut]

theorem kept_lexemes_of_next {l : Lexeme} (hne : l.text ≠ []) {t : Text}
    (h : Cut.next (l.text ++ t) = l.cut) :
    kept (lexemes (l.text ++ t)) = kept [l] ++ kept (lexemes t) := by
  rw [lexemes_append_of_next hne h, ← kept_append, List.singleton_append]

theorem IsLexed.cons {l : Lexeme} {ls : List Lexeme} (h : IsLexed (l :: ls)) :
    l.text ≠ [] ∧ Cut.next (l.text ++ joined ls) = l.cut ∧ IsLexed ls := by
  rw [IsLexed, joined_cons] at h
  have hne : l.text ++ joined ls ≠ [] := by
    intro hnil
    rw [hnil, lexemes_nil] at h
    cases h
  have hfits := Cut.next_fits hne
  rw [lexemes_of_ne_nil hne, List.cons.injEq] at h
  obtain ⟨hl, hls⟩ := h
  have htext : l.text = (l.text ++ joined ls).take (Cut.next (l.text ++ joined ls)).length := by
    conv_lhs => rw [← hl]
  have hlength : (Cut.next (l.text ++ joined ls)).length = l.text.length := by
    have := congrArg List.length htext
    rw [List.length_take] at this
    have := hfits.length_le
    omega
  rw [hlength, List.drop_left] at hls
  refine ⟨?_, ?_, hls⟩
  · have := hfits.length_pos
    rw [hlength] at this
    exact List.ne_nil_of_length_pos this
  · have hkind : (Cut.next (l.text ++ joined ls)).kind = l.kind := congrArg Lexeme.kind hl
    have hopen : (Cut.next (l.text ++ joined ls)).unterminated = l.unterminated :=
      congrArg Lexeme.unterminated hl
    rw [Lexeme.cut, ← hkind, ← hopen, ← hlength]

theorem IsLexed.append_right {us ls : List Lexeme} (h : IsLexed (us ++ ls)) : IsLexed ls := by
  induction us with
  | nil => exact h
  | cons l us ih => exact ih h.cons.2.2

/-- A lexeme without its end has nothing behind it. -/
theorem IsLexed.nil_of_unterminated {l : Lexeme} {ls : List Lexeme} (h : IsLexed (l :: ls))
    (hl : l.unterminated) : joined ls = [] := by
  obtain ⟨hne, hnext, -⟩ := h.cons
  have hfits := @Cut.next_fits (l.text ++ joined ls) (by simp [hne])
  rw [hnext] at hfits
  have := (hfits.takes_all hl).2
  rw [Lexeme.cut, List.length_append] at this
  exact List.eq_nil_of_length_eq_zero (by simp only at this; omega)

/-! ### White space -/

namespace Cut

open Literal

theorem next_of_isBlank {s : Sym} (h : s.isBlank) (t : Text) :
    next (s :: t) = ⟨.whitespace, run Sym.isBlank (s :: t), false⟩ := by
  have hne (c : Char) (hc : (Sym.char c).isBlank = false) : s ≠ .char c := by
    rintro rfl
    rw [hc] at h
    cases h
  have hbreak : s.isBreak = false := by
    simp only [Sym.isBlank, Bool.and_eq_true, Bool.not_eq_true'] at h
    exact h.2
  rw [next_cons, if_neg fun h => hne _ (by decide) h.1, if_neg fun h => hne _ (by decide) h.1,
    if_neg fun h => hne _ (by decide) h.1, if_neg (hne _ (by decide)), plain]
  simp [hbreak, h]

theorem next_of_isBreak {s : Sym} (h : s.isBreak) (t : Text) :
    next (s :: t) =
      ⟨.newline, if s = .char '\r' ∧ t.head? = some (.char '\n') then 2 else 1, false⟩ := by
  have hne (c : Char) (hc : (Sym.char c).isBreak = false) : s ≠ .char c := by
    rintro rfl
    rw [hc] at h
    cases h
  rw [next_cons]
  by_cases hpair : s = .char '\r' ∧ t.head? = some (.char '\n')
  · rw [if_pos hpair, if_pos hpair]
  · rw [if_neg hpair, if_neg hpair, if_neg fun h => hne _ (by decide) h.1,
      if_neg fun h => hne _ (by decide) h.1, if_neg (hne _ (by decide)), plain, if_pos h]

/-- What a lexeme of an open-ended kind begins with and how far it goes. -/
inductive Trails (s : Sym) (t : Text) : Cut → Prop
  | blanks (h : s.isBlank) : Trails s t ⟨.whitespace, run Sym.isBlank (s :: t), false⟩
  | lineBreak (h : s.isBreak) :
    Trails s t ⟨.newline, if s = .char '\r' ∧ t.head? = some (.char '\n') then 2 else 1, false⟩
  | line (h : s = .char '/' ∧ t.head? = some (.char '/')) :
    Trails s t ⟨.comment, run (fun s => !s.isBreak) (s :: t), false⟩
  | block (h : s = .char '/' ∧ t.head? = some (.char '*')) :
    Trails s t (upTo .comment (t.length + 1) (blockComment? (s :: t)))

theorem isOpenEnded_plain {s : Sym} (hblank : s.isBlank = false) (hbreak : s.isBreak = false)
    (t : Text) : isOpenEnded (plain s t).kind = false := by
  have hword (t : Text) : isOpenEnded (word t).kind = false := by
    simp only [word]
    split_ifs <;> rfl
  simp only [plain, hblank, hbreak, Bool.false_eq_true, if_false]
  split_ifs
  · rfl
  · exact hword _
  · split
    · rfl
    · split <;> rfl

theorem next_trails {s : Sym} {t : Text} (h : isOpenEnded (next (s :: t)).kind) :
    Trails s t (next (s :: t)) := by
  by_cases hblank : s.isBlank
  · rw [next_of_isBlank hblank]
    exact .blanks hblank
  · by_cases hbreak : s.isBreak
    · rw [next_of_isBreak hbreak]
      exact .lineBreak hbreak
    · rw [next_cons] at h ⊢
      split_ifs at h ⊢ with hpair hline hblock hstring
      · exact absurd (by rw [hpair.1]; decide) hbreak
      · exact .line hline
      · exact .block hblock
      · cases hend : string? (s :: t) <;> rw [hend] at h <;> cases h
      · rw [isOpenEnded_plain (by simpa using hblank) (by simpa using hbreak)] at h
        cases h

end Cut

theorem isBlank_or_isBreak {s : Sym} (h : s.isSpace) : s.isBlank ∨ s.isBreak := by
  cases hs : s.isBreak <;> simp [Sym.isBlank, h, hs]

theorem kept_lexemes_blank {s : Sym} (h : s.isBlank) (t : Text) :
    kept (lexemes (s :: t)) = kept (lexemes (t.drop (Literal.run Sym.isBlank t))) := by
  have hrun : Literal.run Sym.isBlank (s :: t) = Literal.run Sym.isBlank t + 1 := by
    simp [Literal.run, h]
  rw [lexemes_of_ne_nil (List.cons_ne_nil s t), Cut.next_of_isBlank h, kept_cons_of_not rfl, hrun,
    List.drop_succ_cons]

theorem kept_lexemes_break {s : Sym} (h : s.isBreak) {t : Text}
    (ht : ¬(s = .char '\r' ∧ t.head? = some (.char '\n'))) :
    kept (lexemes (s :: t)) = kept (lexemes t) := by
  rw [lexemes_of_ne_nil (List.cons_ne_nil s t), Cut.next_of_isBreak h, kept_cons_of_not rfl,
    if_neg ht, List.drop_succ_cons, List.drop_zero]

/-- White space in front of a text adds no code to it. -/
theorem kept_lexemes_space {s : Sym} (h : s.isSpace) (t : Text) :
    kept (lexemes (s :: t)) = kept (lexemes t) := by
  rcases isBlank_or_isBreak h with hblank | hbreak
  · rw [kept_lexemes_blank hblank]
    cases t with
    | nil => rfl
    | cons s' t =>
      by_cases hs' : s'.isBlank
      · rw [kept_lexemes_blank hs']
        simp [Literal.run, hs']
      · simp [Literal.run, hs']
  · by_cases hpair : s = .char '\r' ∧ t.head? = some (.char '\n')
    · obtain ⟨t, rfl⟩ : ∃ t', t = .char '\n' :: t' := ⟨t.tail, (List.cons_head?_tail hpair.2).symm⟩
      rw [kept_lexemes_break (s := .char '\n') (by decide) (by simp),
        lexemes_of_ne_nil (List.cons_ne_nil s _), Cut.next_of_isBreak hbreak, kept_cons_of_not rfl,
        if_pos hpair]
      rfl
    · exact kept_lexemes_break hbreak hpair

theorem kept_lexemes_spaces {bs : Text} (h : ∀ s ∈ bs, s.isSpace) (t : Text) :
    kept (lexemes (bs ++ t)) = kept (lexemes t) := by
  induction bs with
  | nil => rfl
  | cons s bs ih =>
    rw [List.cons_append, kept_lexemes_space (h s (by simp)), ih fun s hs => h s (by simp [hs])]

/-! ### A stretch of a text before another text -/

def Lexeme.isLineComment (l : Lexeme) : Bool :=
  l.kind = .comment && l.text.head? = some (.char '/') && l.text.tail.head? = some (.char '/')

/-- A grave accent that begins no name. -/
def Lexeme.isGrave (l : Lexeme) : Bool := l.isMark '\x60'

/-- Whether a text may come to stand behind a lexeme in place of another one. A slash must not get a
slash behind it, a line comment must still end where it did, and an unterminated lexeme stays the
last one. -/
structure Seam (l : Lexeme) (old new : Text) : Prop where
  stops : new.Stops
  slash : l.text = [.char '/'] → new.head? = some (.char '/') → old.head? = some (.char '/')
  grave : l.isGrave → old.head? ≠ some (.char '\x60')
  line : l.isLineComment → ∀ s ∈ new.head?, s.isBreak
  ended : l.unterminated → new = []

namespace Cut

open Literal

/-- A grave accent that begins no name begins none either when the text behind brings no further
grave accent to its line. -/
theorem graveName?_append_eq_none {s : Sym} {w b b' : Text}
    (h : graveName? (s :: w ++ b) = none)
    (hnil : s = .char '\x60' → w = [] → b.head? ≠ some (.char '\x60'))
    (hline : s = .char '\x60' → .char '\x60' ∈ b'.firstLine → .char '\x60' ∈ b.firstLine) :
    graveName? (s :: w ++ b') = none := by
  by_cases hs : s = .char '\x60'
  · subst hs
    rw [List.cons_append, graveName?_eq_none_iff] at h ⊢
    rcases h with h | h
    · left
      cases w with
      | nil => exact absurd h (hnil rfl rfl)
      | cons c w => simpa using h
    · right
      exact fun hmem => h (Text.mem_firstLine_append_mono (hline rfl) w hmem)
  · rw [List.cons_append, graveName?_eq_none hs]

/-- A character that begins no operator is an operator by itself. -/
theorem operator_of_head {c : Char} (h : ∀ op ∈ operators, op.head? ≠ some (.char c)) (t : Text) :
    operator (.char c :: t) = ⟨.punctuation, 1, false⟩ := by
  unfold operator
  rw [List.find?_eq_none.mpr]
  · rfl
  · intro op hop hpre
    rw [List.isPrefixOf_iff_prefix] at hpre
    cases op with
    | nil => exact absurd hop (by decide)
    | cons d op =>
      have := h _ hop
      rw [List.cons_prefix_cons] at hpre
      simp [hpre.1] at this

theorem next_of_grave {t : Text} (h : graveName? (.char '\x60' :: t) = none) :
    next (.char '\x60' :: t) = ⟨.punctuation, 1, false⟩ := by
  rw [next_cons, if_neg (by simp), if_neg (by simp), if_neg (by simp), if_neg (by simp), plain,
    if_neg (by decide), if_neg (by decide), if_neg (by decide), if_neg (by decide),
    dollar?_eq_none (by decide), h]
  exact operator_of_head (by decide) t

end Cut

section Stretch

variable {l : Lexeme} {ls : List Lexeme} {t : Text}

theorem isKept_of_isOpenEnded (h : Cut.isOpenEnded l.kind) : l.isKept = false := by
  refine isKept_of_isTrivia ?_
  cases hkind : l.kind <;> simp_all [Cut.isOpenEnded, Lexeme.isTrivia, TokenKind.isTrivia]

theorem all_of_length_le_run {p : Sym → Bool} {w b : Text}
    (h : w.length ≤ Literal.run p (w ++ b)) : ∀ s ∈ w, p s := by
  have hplain : ∀ s ∈ (w ++ b).takeWhile p, p s := List.all_eq_true.mp List.all_takeWhile
  intro s hs
  refine hplain s ?_
  have hpre : w <+: (w ++ b).takeWhile p :=
    List.prefix_of_prefix_length_le (List.prefix_append w b) (List.takeWhile_prefix p) h
  exact hpre.subset hs

theorem IsLexed.trails {s : Sym} {w : Text} (h : IsLexed (l :: ls)) (hl : l.text = s :: w)
    (hopen : Cut.isOpenEnded l.kind) :
    Cut.Trails s (w ++ joined ls) ⟨l.kind, w.length + 1, l.unterminated⟩ := by
  have hcut : Cut.next (s :: (w ++ joined ls)) = ⟨l.kind, w.length + 1, l.unterminated⟩ := by
    have := h.cons.2.1
    rwa [hl, Lexeme.cut, hl] at this
  rw [← hcut]
  refine Cut.next_trails ?_
  rwa [hcut]

/-- Blanks and line breaks are made of white space. -/
theorem isSpace_of_trails {s : Sym} {w b : Text} {cut : Cut} (h : Cut.Trails s (w ++ b) cut)
    (hlength : cut.length = w.length + 1) (hkind : cut.kind ≠ .comment) :
    ∀ c ∈ s :: w, c.isSpace := by
  cases h with
  | blanks hblank =>
    have hall := all_of_length_le_run (w := s :: w) (b := b) hlength.ge
    exact fun c hc => Sym.isSpace_of_isBlank (hall c hc)
  | lineBreak hbreak =>
    refine fun c hc => Sym.isSpace_of_isBreak ?_
    match w with
    | [] => simpa [List.mem_singleton.mp hc] using hbreak
    | [d] =>
      simp only at hlength
      split_ifs at hlength with hpair
      · obtain ⟨rfl, hd⟩ := hpair
        obtain rfl : d = .char '\n' := by simpa using hd
        rcases List.mem_pair.mp hc with rfl | rfl <;> rfl
      · simp at hlength
    | _ :: _ :: _ =>
      simp only [List.length_cons] at hlength
      split_ifs at hlength <;> omega
  | line => exact absurd rfl hkind
  | block =>
    refine absurd ?_ hkind
    cases Literal.blockComment? (s :: (w ++ b)) <;> rfl

/-- A comment, perhaps in other words, is cut off in front of another text. -/
theorem IsLexed.next_reworded {a b : Sym} {x x' : Text} (h : IsLexed (l :: ls))
    (hkind : l.kind = .comment) (hl : l.text = a :: b :: x) (hx : Reworded x x')
    (hline : l.isLineComment → ∀ s ∈ t.head?, s.isBreak) (hended : l.unterminated → t = []) :
    Cut.next (a :: b :: x' ++ t) = ⟨.comment, (a :: b :: x').length, l.unterminated⟩ := by
  have htrails := h.trails hl (by rw [hkind]; rfl)
  rw [hkind] at htrails
  generalize hcut : (⟨.comment, (b :: x).length + 1, l.unterminated⟩ : Cut) = cut at htrails
  cases htrails with
  | blanks => cases congrArg Cut.kind hcut
  | lineBreak => cases congrArg Cut.kind hcut
  | line hslashes =>
    obtain ⟨rfl, hb⟩ := hslashes
    obtain rfl : b = .char '/' := by simpa using hb
    have hclosed : l.unterminated = false := congrArg Cut.unterminated hcut
    have hall := all_of_length_le_run (w := .char '/' :: .char '/' :: x) (b := joined ls)
      (congrArg Cut.length hcut).le
    have hall' := hx.all_not_isBreak fun s hs => by simpa using hall s (by simp [hs])
    have hrun : Literal.run (fun s => !s.isBreak) (.char '/' :: .char '/' :: x' ++ t) =
        (.char '/' :: .char '/' :: x' : Text).length := by
      rw [Literal.run, List.takeWhile_append_of_pos]
      · cases t with
        | nil => simp
        | cons c t =>
          have hcomment : l.isLineComment := by
            simp [Lexeme.isLineComment, hkind, hl]
          simp [hline hcomment c rfl]
      · intro s hs
        simp only [List.mem_cons] at hs
        rcases hs with rfl | rfl | hs
        · rfl
        · rfl
        · simp [hall' s hs]
    rw [List.cons_append, Cut.next_cons, if_neg (by simp), if_pos (by simp), ← List.cons_append, hrun,
      hclosed]
  | block hstar =>
    obtain ⟨rfl, hb⟩ := hstar
    obtain rfl : b = .char '*' := by simpa using hb
    have hopen (y : Text) :
        Literal.blockComment? (.char '/' :: .char '*' :: y) = Literal.commentEnd? 1 2 y := rfl
    have hnext (y : Text) : Cut.next (.char '/' :: .char '*' :: y) =
        Cut.upTo .comment (y.length + 2) (Literal.commentEnd? 1 2 y) := by
      rw [Cut.next_cons, if_neg (by simp), if_neg (by simp), if_pos (by simp), hopen]
      rfl
    rw [List.cons_append, hopen] at hcut
    cases hend : Literal.commentEnd? 1 2 (x ++ joined ls) with
    | none =>
      rw [hend] at hcut
      simp only [Cut.upTo, Cut.mk.injEq, List.length_cons, List.length_append] at hcut
      have hnil : joined ls = [] := List.eq_nil_of_length_eq_zero (by omega)
      rw [hnil, List.append_nil] at hend
      have hend' := @Literal.commentEnd?_reworded 1 2 x
        (fun n hn => by simp [hend] at hn) x' hx 2
      rw [hended hcut.2.2, hcut.2.2, List.append_nil, hnext, hend', hend]
      rfl
    | some n =>
      rw [hend] at hcut
      simp only [Cut.upTo, Cut.mk.injEq, List.length_cons] at hcut
      have hx₁ := Literal.commentEnd?_of_append hend (by omega)
      have hend' := @Literal.commentEnd?_reworded 1 2 x
        (fun m hm => by rw [hx₁] at hm; cases hm; omega) x' hx 2
      rw [hx₁, Option.map_some] at hend'
      rw [hcut.2.2, List.cons_append, List.cons_append, hnext, Literal.commentEnd?_append hend' t]
      simp only [Cut.upTo, List.length_cons, Cut.mk.injEq, and_true, true_and]
      omega

/-- A comment, perhaps in other words, adds no code in front of another text. -/
theorem kept_lexemes_reworded {a b : Sym} {x x' : Text} (h : IsLexed (l :: ls))
    (hkind : l.kind = .comment) (hl : l.text = a :: b :: x) (hx : Reworded x x')
    (hline : l.isLineComment → ∀ s ∈ t.head?, s.isBreak) (hended : l.unterminated → t = []) :
    kept (lexemes (a :: b :: x' ++ t)) = kept (lexemes t) :=
  kept_lexemes_of_next (l := ⟨.comment, a :: b :: x', l.unterminated⟩) (List.cons_ne_nil _ _)
    (h.next_reworded hkind hl hx hline hended)

/-- A comment begins with a slash and another symbol. -/
theorem IsLexed.exists_of_comment (h : IsLexed (l :: ls)) (hkind : l.kind = .comment) :
    ∃ b x, l.text = .char '/' :: b :: x ∧ (b = .char '/' ∨ b = .char '*') := by
  obtain ⟨s, w, hl⟩ := List.exists_cons_of_ne_nil h.cons.1
  have htrails := h.trails hl (by rw [hkind]; rfl)
  rw [hkind] at htrails
  generalize hcut : (⟨.comment, w.length + 1, l.unterminated⟩ : Cut) = cut at htrails
  cases htrails with
  | blanks => cases congrArg Cut.kind hcut
  | lineBreak => cases congrArg Cut.kind hcut
  | line hslashes =>
    obtain ⟨rfl, hhead⟩ := hslashes
    cases w with
    | nil =>
      obtain ⟨r, hr⟩ : ∃ r, joined ls = .char '/' :: r :=
        ⟨(joined ls).tail, (List.cons_head?_tail hhead).symm⟩
      have hlength := congrArg Cut.length hcut
      simp [hr, Literal.run, Sym.isBreak, Sym.is] at hlength
    | cons b x => exact ⟨b, x, hl, .inl (by simpa using hhead)⟩
  | block hstar =>
    obtain ⟨rfl, hhead⟩ := hstar
    cases w with
    | nil =>
      obtain ⟨r, hr⟩ : ∃ r, joined ls = .char '*' :: r :=
        ⟨(joined ls).tail, (List.cons_head?_tail hhead).symm⟩
      have hlength := congrArg Cut.length hcut
      have hopen : Literal.blockComment? (.char '/' :: .char '*' :: r) =
        Literal.commentEnd? 1 2 r := rfl
      rw [hr, List.nil_append, hopen] at hlength
      cases hend : Literal.commentEnd? 1 2 r with
      | none => simp [hend, Cut.upTo] at hlength
      | some n =>
        have := Literal.commentEnd?_bounds hend
        simp only [hend, Cut.upTo, List.length_nil] at hlength
        omega
    | cons b x => exact ⟨b, x, hl, .inr (by simpa using hhead)⟩

/-- A lexeme of an open-ended kind in front of another text adds no code. -/
theorem kept_lexemes_trailing (h : IsLexed (l :: ls)) (hopen : Cut.isOpenEnded l.kind)
    (hline : l.isLineComment → ∀ s ∈ t.head?, s.isBreak) (hended : l.unterminated → t = []) :
    kept (lexemes (l.text ++ t)) = kept (lexemes t) := by
  by_cases hkind : l.kind = .comment
  · obtain ⟨b, x, hx, -⟩ := h.exists_of_comment hkind
    rw [hx]
    exact kept_lexemes_reworded h hkind hx (.refl x) hline hended
  · obtain ⟨s, w, hl⟩ := List.exists_cons_of_ne_nil h.cons.1
    rw [hl]
    exact kept_lexemes_spaces (isSpace_of_trails (h.trails hl hopen) rfl hkind) t

/-- The lexeme in front of a text is the same when that text gives way to another one from some
place on, and nothing at that place bears on the lexeme. -/
theorem IsLexed.next_append {a b : Text} (h : IsLexed (l :: ls)) (hjoined : joined ls = a ++ b)
    (ht : t.Stops) (hclosed : l.unterminated = false)
    (hlast : a = [] → Cut.isOpenEnded l.kind = false ∧
      (l.text = [.char '/'] → t.head? ≠ some (.char '/')) ∧
      (l.isGrave → b.head? ≠ some (.char '\x60')))
    (hgrave : l.isGrave → .char '\x60' ∈ t.firstLine → .char '\x60' ∈ b.firstLine) :
    Cut.next (l.text ++ (a ++ t)) = l.cut := by
  obtain ⟨hne, hnext, -⟩ := h.cons
  obtain ⟨s, w, hl⟩ := List.exists_cons_of_ne_nil hne
  have hold : Cut.next (s :: (w ++ a) ++ b) = l.cut := by
    rw [← hnext, hl, hjoined, List.cons_append, List.cons_append, List.append_assoc]
  have hname : Cut.graveName? (s :: (w ++ a) ++ b) = none →
      Cut.graveName? (s :: (w ++ a) ++ t) = none := by
    intro hnone
    have hlone : s = .char '\x60' → l.isGrave := by
      rintro rfl
      have hmark : Cut.next (.char '\x60' :: (w ++ a) ++ b) = ⟨.punctuation, 1, false⟩ :=
        Cut.next_of_grave hnone
      rw [hold, Lexeme.cut, Cut.mk.injEq] at hmark
      obtain ⟨hkind, hlength, -⟩ := hmark
      obtain rfl : w = [] := by simpa [hl] using hlength
      simp [Lexeme.isGrave, Lexeme.isMark, Lexeme.isPunct, hkind, hl]
    refine Cut.graveName?_append_eq_none hnone (fun hs hnil => ?_) fun hs => hgrave (hlone hs)
    exact (hlast (List.append_eq_nil_iff.mp hnil).2).2.2 (hlone hs)
  have hnew : Cut.next (s :: (w ++ a) ++ t) = Cut.next (s :: (w ++ a) ++ b) := by
    by_cases hnil : w ++ a = []
    · obtain ⟨rfl, rfl⟩ := List.append_eq_nil_iff.mp hnil
      obtain ⟨hkind, hslash, -⟩ := hlast rfl
      simp only [List.append_nil, List.cons_append, List.nil_append] at hold hname ⊢
      refine Cut.next_append_of_single ht ?_ ?_ ?_ ?_ hname
      · rw [hold, Lexeme.cut, hl]
        exact Nat.le_refl 1
      · rw [hold]
        exact hclosed
      · rw [hold]
        exact hkind
      · rintro rfl
        exact hslash hl
    · refine Cut.next_append_of_ne_nil hnil ht ?_ ?_ hname fun hlength => ?_
      · rw [hold, Lexeme.cut, hl, List.length_append]
        simp only [List.length_cons]
        omega
      · rw [hold]
        exact hclosed
      · rw [hold] at hlength ⊢
        simp only [Lexeme.cut, hl, List.length_append, List.length_cons] at hlength
        exact (hlast (List.eq_nil_of_length_eq_zero (by omega))).1
  rw [hl, List.cons_append, ← List.append_assoc, ← List.cons_append, hnew, hold]

/-- What follows a slash is no slash, for both would be the start of a comment. -/
theorem IsLexed.head?_ne_slash (h : IsLexed (l :: ls)) (hl : l.text = [.char '/']) :
    (joined ls).head? ≠ some (.char '/') := by
  intro hslash
  obtain ⟨b, hb⟩ : ∃ b, joined ls = .char '/' :: b :=
    ⟨(joined ls).tail, (List.cons_head?_tail hslash).symm⟩
  have hnext := h.cons.2.1
  rw [hl, hb, List.singleton_append, Cut.next_cons, if_neg (by simp), if_pos ⟨rfl, rfl⟩] at hnext
  have := congrArg Cut.length hnext
  simp [Lexeme.cut, hl, Literal.run, Sym.isBreak, Sym.is] at this

/-- A stretch of a text has the same code in front of another text. -/
theorem kept_lexemes_stretch {us : List Lexeme} (h : IsLexed (us ++ ls))
    (hseam : ∀ l ∈ us.getLast?, Seam l (joined ls) t)
    (hgrave : (∃ l ∈ us, l.isGrave) → .char '\x60' ∈ t.firstLine →
      .char '\x60' ∈ (joined ls).firstLine) :
    kept (lexemes (joined us ++ t)) = kept us ++ kept (lexemes t) := by
  induction us with
  | nil => rfl
  | cons l us ih =>
    have hrest : IsLexed (us ++ ls) := h.cons.2.2
    have hl : l.isGrave → .char '\x60' ∈ t.firstLine → .char '\x60' ∈ (joined ls).firstLine :=
      fun hl => hgrave ⟨l, by simp, hl⟩
    rw [← List.singleton_append, kept_append, List.append_assoc]
    cases us with
    | nil =>
      have hseam := hseam l rfl
      by_cases hopen : Cut.isOpenEnded l.kind
      · rw [kept_cons_of_not (isKept_of_isOpenEnded hopen)]
        simpa using kept_lexemes_trailing h hopen hseam.line hseam.ended
      · by_cases hended : l.unterminated
        · -- Nothing stands behind the lexeme, neither before nor now.
          have hnil : joined ls = [] := h.nil_of_unterminated hended
          have hnext : Cut.next (l.text ++ joined ls) = l.cut := h.cons.2.1
          rw [hnil, ← hseam.ended hended] at hnext
          simpa using kept_lexemes_of_next h.cons.1 hnext
        · have hnext : Cut.next (l.text ++ ([] ++ t)) = l.cut := by
            refine h.next_append rfl hseam.stops (by simpa using hended) (fun _ => ⟨?_, ?_, ?_⟩) hl
            · simpa using hopen
            · exact fun hslash ht => h.head?_ne_slash hslash (hseam.slash hslash ht)
            · exact hseam.grave
          simpa using kept_lexemes_of_next h.cons.1 hnext
    | cons l' us =>
      have ha : joined (l' :: us) ≠ [] := by
        simp [hrest.cons.1]
      have hstops : t.Stops :=
        (hseam ((l' :: us).getLast (by simp)) (by simp [List.getLast?_eq_some_getLast])).stops
      have hclosed : l.unterminated = false := by
        by_contra hended
        have := h.nil_of_unterminated (by simpa using hended)
        simp [hrest.cons.1] at this
      have hnext : Cut.next (l.text ++ (joined (l' :: us) ++ t)) = l.cut := by
        refine h.next_append (by simp) hstops hclosed (fun hnil => absurd hnil ha) hl
      have ih := ih hrest (fun l hl => hseam l (by simpa using hl))
        fun ⟨l, hl, hmark⟩ => hgrave ⟨l, by simp [hl], hmark⟩
      rw [joined_append, List.append_assoc, ← ih, ← kept_lexemes_of_next h.cons.1 hnext]
      simp

end Stretch

end HouseStyle
