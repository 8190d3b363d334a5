import HouseStyle.Proofs.Edit.Splice
import HouseStyle.Proofs.Token.Ending
import HouseStyle.Proofs.Token.KeptCode
import HouseStyle.Proofs.Token.Offset

/-! What the fixes of rules do to lexemes. A terminator comes behind the last lexeme of a statement,
a brace moves up to its header, parentheses come around a header or go from it, and a word of a
comment gives way to another one. The code of a text stays the same as long as white space gives way to
other white space, comments to comments in other words, and parentheses and semicolons come and go.
Where a grave accent stands alone, no line break may go, or the rest of its line may hold another one. -/

namespace HouseStyle

/-! ### Lexemes with the same code -/

/-- Rewording brings no grave accent to a line. -/
theorem Reworded.grave_mem {x x' t t' : Text} (h : Reworded x x')
    (ht : Sym.char '\x60' ∈ t'.firstLine → Sym.char '\x60' ∈ t.firstLine)
    (hmem : Sym.char '\x60' ∈ (x' ++ t').firstLine) : Sym.char '\x60' ∈ (x ++ t).firstLine := by
  induction h with
  | nil => exact ht hmem
  | keep s h ih => exact Text.mem_firstLine_append_mono ih [s] hmem
  | word hw hw' hinert hinert' h ih =>
    have hline {w : Text} (h : ∀ s ∈ w, s.isInert) : ∀ s ∈ w, s.isBreak = false := by
      intro s hs
      have := h s hs
      simp only [Sym.isInert, Bool.not_eq_true', Bool.or_eq_false_iff] at this
      exact this.1.1.1
    rw [List.append_assoc, Text.mem_firstLine_append (hline hinert)]
    rw [List.append_assoc, Text.mem_firstLine_append (hline hinert')] at hmem
    rcases hmem with hmem | hmem
    · exact absurd (hinert' _ hmem) (by decide)
    · exact .inr (ih hmem)

/-- The text differs from the lexemes in steps that keep the code. `lone` tells whether a grave
accent stands alone somewhere. -/
inductive Mended (lone : Prop) : List Lexeme → Text → Prop
  | same (ls : List Lexeme) : Mended lone ls (joined ls)
  | stretch (us : List Lexeme) {ls : List Lexeme} {t : Text}
    (hseam : ∀ l ∈ us.getLast?, Seam l (joined ls) t) (h : Mended lone ls t) :
    Mended lone (us ++ ls) (joined us ++ t)
  | trail (l : Lexeme) {ls : List Lexeme} {t : Text} (hopen : Cut.isOpenEnded l.kind)
    (hline : l.isLineComment → ∀ s ∈ t.head?, s.isBreak) (hended : l.unterminated → t = [])
    (h : Mended lone ls t) : Mended lone (l :: ls) (l.text ++ t)
  | reword {l : Lexeme} {a b : Sym} {x x' : Text} {ls : List Lexeme} {t : Text}
    (hkind : l.kind = .comment) (hl : l.text = a :: b :: x) (hx : Reworded x x')
    (hline : l.isLineComment → ∀ s ∈ t.head?, s.isBreak) (hended : l.unterminated → t = [])
    (h : Mended lone ls t) : Mended lone (l :: ls) (a :: b :: x' ++ t)
  | respace (bs : List Lexeme) (w : Text) {ls : List Lexeme} {t : Text}
    (hbs : ∀ l ∈ bs, l.isTrivia) (hw : ∀ s ∈ w, s.isSpace)
    (hlone : lone → ∀ s ∈ joined bs, s.isBreak = false) (h : Mended lone ls t) :
    Mended lone (bs ++ ls) (w ++ t)
  | insert {c : Char} (hc : c ∈ [';', '(', ')']) {ls : List Lexeme} {t : Text}
    (h : Mended lone ls t) : Mended lone ls (.char c :: t)
  | remove {l : Lexeme} (hl : l.isLoose) {ls : List Lexeme} {t : Text} (h : Mended lone ls t) :
    Mended lone (l :: ls) t

namespace Mended

variable {lone : Prop} {ls : List Lexeme} {t : Text}

theorem exists_of_isLoose {l : Lexeme} (h : l.isLoose) :
    ∃ c ∈ [';', '(', ')'], l.kind = .punctuation ∧ l.text = [.char c] := by
  simp only [Lexeme.isLoose, Lexeme.isMark, Lexeme.isPunct, Bool.or_eq_true, Bool.and_eq_true,
    decide_eq_true_eq] at h
  rcases h with (h | h) | h
  · exact ⟨';', by simp, h⟩
  · exact ⟨'(', by simp, h⟩
  · exact ⟨')', by simp, h⟩

/-- Where no line break goes, no grave accent comes to the line. -/
theorem grave_mem (h : Mended lone ls t) (hlone : lone)
    (ht : Sym.char '\x60' ∈ t.firstLine) : Sym.char '\x60' ∈ (joined ls).firstLine := by
  induction h with
  | same ls => exact ht
  | stretch us hseam h ih =>
    rw [joined_append]
    exact Text.mem_firstLine_append_mono ih (joined us) ht
  | trail l hopen hline hended h ih => exact Text.mem_firstLine_append_mono ih l.text ht
  | @reword l a b x x' ls t hkind hl hx hline hended h ih =>
    rw [joined_cons, hl]
    exact ((hx.keep b).keep a).grave_mem ih ht
  | respace bs w hbs hw hbreaks h ih =>
    rw [joined_append, Text.mem_firstLine_append (hbreaks hlone)]
    refine .inr (ih ?_)
    rcases Text.break_or_line w with hbreak | hline
    · rw [Text.firstLine_append_of_isBreak hbreak] at ht
      exact absurd (hw _ ((List.takeWhile_prefix _).subset ht)) (by decide)
    · rw [Text.mem_firstLine_append hline] at ht
      exact ht.resolve_left fun hmem => absurd (hw _ hmem) (by decide)
  | insert hc h ih =>
    refine ih ?_
    fin_cases hc <;> simpa [Text.firstLine, Sym.isBreak, Sym.is] using ht
  | remove hl h ih =>
    obtain ⟨c, hc, -, htext⟩ := exists_of_isLoose hl
    rw [joined_cons, htext]
    have := ih ht
    fin_cases hc <;> simpa [Text.firstLine, Sym.isBreak, Sym.is] using this

theorem lexemes_loose {c : Char} (hc : c ∈ [';', '(', ')']) (t : Text) :
    lexemes (.char c :: t) = ⟨.punctuation, [.char c], false⟩ :: lexemes t := by
  have hnext : Cut.next (.char c :: t) = ⟨.punctuation, 1, false⟩ := by
    fin_cases hc
    all_goals
      rw [Cut.next_cons, if_neg (by simp), if_neg (by simp), if_neg (by simp), if_neg (by simp),
        Cut.plain, if_neg (by decide), if_neg (by decide), if_neg (by decide), if_neg (by decide),
        Cut.dollar?_eq_none (by decide), Cut.graveName?_eq_none (by decide)]
      exact Cut.operator_of_head (by decide) t
  exact lexemes_append_of_next (l := ⟨.punctuation, [.char c], false⟩) (List.cons_ne_nil _ _) hnext

/-- Such steps keep the code. -/
theorem kept_eq (h : Mended lone ls t) (hls : IsLexed ls) (hlone : (∃ l ∈ ls, l.isGrave) → lone) :
    kept (lexemes t) = kept ls := by
  have hsuffix {us ls : List Lexeme} (h : (∃ l ∈ us ++ ls, l.isGrave) → lone) :
      (∃ l ∈ ls, l.isGrave) → lone :=
    fun ⟨l, hl, hg⟩ => h ⟨l, List.mem_append_right us hl, hg⟩
  induction h with
  | same ls => rw [hls]
  | stretch us hseam h ih =>
    rw [kept_append, ← ih hls.append_right (hsuffix hlone)]
    exact kept_lexemes_stretch hls hseam fun ⟨l, hl, hg⟩ =>
      h.grave_mem (hlone ⟨l, by simp [hl], hg⟩)
  | trail l hopen hline hended h ih =>
    rw [kept_lexemes_trailing hls hopen hline hended, kept_cons_of_not (isKept_of_isOpenEnded hopen)]
    exact ih hls.cons.2.2 (@hsuffix [l] _ hlone)
  | @reword l _ _ _ _ _ _ hkind hl hx hline hended h ih =>
    rw [kept_lexemes_reworded hls hkind hl hx hline hended,
      kept_cons_of_not (isKept_of_isOpenEnded (by rw [hkind]; rfl))]
    exact ih hls.cons.2.2 (@hsuffix [l] _ hlone)
  | respace bs w hbs hw hbreaks h ih =>
    have hnone : kept bs = [] := by
      simpa [kept] using fun l hl => isKept_of_isTrivia (hbs l hl)
    rw [kept_lexemes_spaces hw, kept_append, hnone, List.nil_append]
    exact ih hls.append_right (hsuffix hlone)
  | insert hc h ih =>
    rw [lexemes_loose hc, kept_cons_of_not, ih hls hlone]
    fin_cases hc <;> rfl
  | @remove l hl ls t h ih =>
    rw [kept_cons_of_not (by simp [Lexeme.isKept, hl])]
    exact ih hls.cons.2.2 (@hsuffix [l] _ hlone)

end Mended

/-! ### Repairs -/

variable (ls : List Lexeme)

/-- A lexeme that carries code and has its end, with white space, a comment, a brace, a semicolon or
nothing behind it. -/
structure Closes (i : Nat) : Prop where
  code : ∃ l, ls[i]? = some l ∧ l.isTrivia = false ∧ l.unterminated = false
  behind : ∀ l, ls[i + 1]? = some l → l.isTrivia ∨ ∃ c ∈ [';', '{', '}'], l.isMark c

/-- A lexeme that carries code, with white space, a comment or a keyword before it. -/
structure Opens (i : Nat) : Prop where
  code : ∃ l, ls[i]? = some l ∧ l.isTrivia = false
  before : ∀ k l, i = k + 1 → ls[k]? = some l → l.isTrivia ∨ l.kind = .keyword

/-- What stands between two indices. -/
def between (i j : Nat) : List Lexeme := (ls.drop i).take (j - i)

/-- What a fix does to the lexemes of a text. -/
inductive Repair (fix : Fix) : Prop
  | finish (i : Nat) (hi : Closes ls i) (hstart : fix.span.start = offset ls (i + 1))
    (hstop : fix.span.stop = offset ls (i + 1)) (hnew : fix.insertion = [.char ';'])
  | raise (i j : Nat) (hi : Closes ls i) (hij : i < j) (hj : j < ls.length)
    (hquiet : ∀ l ∈ between ls (i + 1) j, l.isTrivia)
    (hstart : fix.span.start = offset ls (i + 1)) (hstop : fix.span.stop = offset ls j)
    (hnew : fix.insertion = [.char ' '])
  | wrap (i j : Nat) (hi : Opens ls i) (hj : Closes ls j) (hij : i ≤ j)
    (hstart : fix.span.start = offset ls i) (hstop : fix.span.stop = offset ls (j + 1))
    (hnew : fix.insertion = .char '(' :: joined (between ls i (j + 1)) ++ [.char ')'])
  | unwrap (i j : Nat) (before after : Text) (hi : Opens ls i) (hj : Closes ls j) (hij : i < j)
    (hpos : 0 < i)
    (hopen : ∃ l, ls[i]? = some l ∧ l.isMark '(') (hclose : ∃ l, ls[j]? = some l ∧ l.isMark ')')
    (hbefore : before = [.char ' '] ∨
      before = [] ∧ ∀ k l, i = k + 1 → ls[k]? = some l → l.isTrivia)
    (hafter : after = [.char ' '] ∨ after = [])
    (hline : ∀ l ∈ ((between ls (i + 1) j).filter fun l => !l.isSpace).getLast?,
      l.isLineComment = false)
    (hslash : ∀ l ∈ ((between ls (i + 1) j).filter fun l => !l.isSpace).getLast?,
      l.text = [.char '/'] → (joined (ls.drop (j + 1))).head? ≠ some (.char '/'))
    (hstart : fix.span.start = offset ls i) (hstop : fix.span.stop = offset ls (j + 1))
    (hnew : fix.insertion = before ++ Text.strip (joined (between ls (i + 1) j)) ++ after)
  | reword (i : Nat) {l : Lexeme} {a b : Sym} {u w v w' : Text} (hi : ls[i]? = some l)
    (hkind : l.kind = .comment) (hl : l.text = a :: b :: (u ++ w ++ v)) (hw : w ≠ [])
    (hw' : w' ≠ []) (hinert : ∀ s ∈ w, s.isInert) (hinert' : ∀ s ∈ w', s.isInert)
    (hstart : fix.span.start = offset ls i + 2 + u.length)
    (hstop : fix.span.stop = offset ls i + 2 + u.length + w.length) (hnew : fix.insertion = w')

/-- A fix that lies in a text and does not empty it. -/
structure Fix.Fits (fix : Fix) (text : Text) : Prop where
  inside : fix.span.stop ≤ text.length
  leaves : fix.insertion ≠ [] ∨ 0 < fix.span.start

variable {ls}

/-! ### Neighbours -/

/-- White space and comments begin with a stop that is no grave accent. -/
theorem IsLexed.stops_of_isTrivia {l : Lexeme} (h : IsLexed (l :: ls)) (hl : l.isTrivia) :
    (joined (l :: ls)).Stops := by
  obtain ⟨s, w, htext⟩ := List.exists_cons_of_ne_nil h.cons.1
  rw [joined_cons, htext]
  refine .cons ?_ _
  by_cases hkind : l.kind = .comment
  · obtain ⟨b, x, hx, -⟩ := h.exists_of_comment hkind
    rw [htext] at hx
    rw [(List.cons.inj hx).1]
    decide
  · refine Sym.isStop_of_isSpace (h.all_isSpace ?_ s (by simp [htext]))
    cases hk : l.kind <;> simp_all [Lexeme.isTrivia, TokenKind.isTrivia, Lexeme.isSpace]

theorem Closes.lt {i : Nat} (h : Closes ls i) : i < ls.length := by
  obtain ⟨l, hl, -⟩ := h.code
  exact (List.getElem?_eq_some_iff.mp hl).1

theorem Opens.lt {i : Nat} (h : Opens ls i) : i < ls.length := by
  obtain ⟨l, hl, -⟩ := h.code
  exact (List.getElem?_eq_some_iff.mp hl).1

theorem Closes.stops (h : Closes ls i) (hls : IsLexed ls) :
    (joined (ls.drop (i + 1))).Stops := by
  cases hl : ls[i + 1]? with
  | none =>
    rw [List.drop_eq_nil_of_le (List.getElem?_eq_none_iff.mp hl)]
    exact .nil
  | some l =>
    have hdrop := drop_cons hl
    have hlexed := hls.drop (i + 1)
    rw [hdrop] at hlexed ⊢
    rcases h.behind l hl with htrivia | ⟨c, hc, hmark⟩
    · exact hlexed.stops_of_isTrivia htrivia
    · simp only [Lexeme.isMark, Lexeme.isPunct, Bool.and_eq_true, decide_eq_true_eq] at hmark
      rw [joined_cons, hmark.2]
      refine .cons ?_ _
      fin_cases hc <;> rfl

/-- What follows a line comment is a line break, if anything does. -/
theorem IsLexed.head?_of_line {l : Lexeme} (h : IsLexed (l :: ls)) (hl : l.isLineComment) :
    ∀ s ∈ (joined ls).head?, s.isBreak := by
  simp only [Lexeme.isLineComment, Bool.and_eq_true, decide_eq_true_eq] at hl
  obtain ⟨⟨-, hfirst⟩, hsecond⟩ := hl
  obtain ⟨s, w, htext⟩ := List.exists_cons_of_ne_nil h.cons.1
  rw [htext] at hfirst hsecond
  obtain rfl : s = .char '/' := by simpa using hfirst
  have hlength : Literal.run (fun s => !s.isBreak) (l.text ++ joined ls) = l.text.length := by
    have hcut := h.cons.2.1
    rw [htext, List.cons_append, Cut.next_cons, if_neg (by simp), if_pos] at hcut
    · have := congrArg Cut.length hcut
      rw [Lexeme.cut, htext] at this
      rwa [htext]
    · refine ⟨rfl, ?_⟩
      cases w with
      | nil => simp at hsecond
      | cons c w => simpa using hsecond
  intro x hx
  obtain ⟨r, hr⟩ : ∃ r, joined ls = x :: r := ⟨_, (List.cons_head?_tail hx).symm⟩
  have hall := all_of_length_le_run hlength.ge
  rw [Literal.run, List.takeWhile_append_of_pos hall, List.length_append, hr] at hlength
  by_contra hbreak
  simp [hbreak] at hlength

theorem isTrivia_of_isSpace {l : Lexeme} (h : l.isSpace) : l.isTrivia := by
  simp only [Lexeme.isSpace, Bool.or_eq_true, decide_eq_true_eq] at h
  rcases h with h | h <;> simp [Lexeme.isTrivia, TokenKind.isTrivia, h]

theorem IsLexed.isTrivia_of_line {l l' : Lexeme} (h : IsLexed (l :: l' :: ls))
    (hl : l.isLineComment) : l'.isTrivia := by
  have hrest := h.cons.2.2
  obtain ⟨s, w, htext⟩ := List.exists_cons_of_ne_nil hrest.cons.1
  have hbreak := h.head?_of_line hl s (by simp [htext])
  refine isTrivia_of_isSpace ?_
  by_contra hspace
  have := hrest.head?_not_isSpace (by simpa using hspace) s (by simp [htext])
  rw [Sym.isSpace_of_isBreak hbreak] at this
  cases this

theorem IsLexed.closed_of_ne_nil {l : Lexeme} (h : IsLexed (l :: ls)) (hne : joined ls ≠ []) :
    l.unterminated = false := by
  by_contra hl
  exact hne (h.nil_of_unterminated (by simpa using hl))

/-- A lexeme with another one behind it has its end. -/
theorem IsLexed.closed_of_lt {l : Lexeme} {i j : Nat} (h : IsLexed ls) (hl : ls[i]? = some l)
    (hij : i < j) (hj : j < ls.length) : l.unterminated = false := by
  have hlexed := h.drop i
  have hnext := List.getElem?_eq_getElem (show i + 1 < ls.length by omega)
  rw [drop_cons hl] at hlexed
  refine hlexed.closed_of_ne_nil ?_
  rw [drop_cons hnext, joined_cons]
  exact List.append_ne_nil_of_left_ne_nil (h.text_ne_nil hnext) _

theorem mem_between {l : Lexeme} {i j : Nat} (h : l ∈ between ls i j) :
    ∃ m, i ≤ m ∧ m < j ∧ ls[m]? = some l := by
  obtain ⟨n, hn⟩ := List.mem_iff_getElem?.mp h
  rw [between, List.getElem?_take] at hn
  split_ifs at hn with hlt
  rw [List.getElem?_drop] at hn
  exact ⟨i + n, by omega, by omega, hn⟩

/-- A repair lies in the text and does not empty it. -/
theorem Repair.fits {fix : Fix} (h : Repair ls fix) (hls : IsLexed ls) : fix.Fits (joined ls) := by
  cases h with
  | finish i hi hstart hstop hnew =>
    exact ⟨hstop ▸ offset_le_length ls _, .inl (by simp [hnew])⟩
  | raise i j hi hij hj hquiet hstart hstop hnew =>
    exact ⟨hstop ▸ offset_le_length ls _, .inl (by simp [hnew])⟩
  | wrap i j hi hj hij hstart hstop hnew =>
    exact ⟨hstop ▸ offset_le_length ls _, .inl (by simp [hnew])⟩
  | unwrap i j before after hi hj hij hpos hopen hclose hbefore hafter hline hslash hstart hstop =>
    refine ⟨hstop ▸ offset_le_length ls _, .inr ?_⟩
    have := hi.lt
    rw [hstart, ← offset_zero ls]
    exact hls.offset_lt hpos (by omega)
  | @reword i l a b u w v w' hi hkind hl hw hw' hinert hinert' hstart hstop hnew =>
    refine ⟨?_, .inl (by rwa [hnew])⟩
    have hend := offset_le_length ls (i + 1)
    rw [offset_succ hi, hl] at hend
    rw [hstop]
    simp only [List.length_cons, List.length_append] at hend
    omega

/-! ### Seams -/

section

variable {l : Lexeme} {t : Text}

theorem isGrave_of_not_punctuation (h : l.kind ≠ .punctuation) : l.isGrave = false := by
  simp [Lexeme.isGrave, Lexeme.isMark, Lexeme.isPunct, h]

theorem isLineComment_of_not_isTrivia (h : l.isTrivia = false) : l.isLineComment = false := by
  cases hk : l.kind <;> simp_all [Lexeme.isTrivia, TokenKind.isTrivia, Lexeme.isLineComment]

/-- A lexeme that a stop follows can stand before any other text that stops. -/
theorem seam_of_stops (hold : (joined ls).Stops) (hline : l.isLineComment = false)
    (hclosed : l.unterminated = false) (ht : t.Stops)
    (hslash : l.text = [.char '/'] → t.head? = some (.char '/') →
      (joined ls).head? = some (.char '/')) : Seam l (joined ls) t where
  stops := ht
  slash := hslash
  grave _ := hold.head?_ne (by decide)
  line h := by simp [hline] at h
  ended h := by simp [hclosed] at h

/-- White space, a comment or a keyword before code can stand before a stop that is no slash. -/
theorem seam_of_not_punctuation (h : IsLexed (l :: ls)) (hl : l.isTrivia ∨ l.kind = .keyword)
    (hcode : ∃ l', ls.head? = some l' ∧ l'.isTrivia = false) (ht : t.Stops)
    (hslash : t.head? ≠ some (.char '/')) : Seam l (joined ls) t := by
  obtain ⟨l', hhead, hcode⟩ := hcode
  obtain ⟨rest, rfl⟩ : ∃ rest, ls = l' :: rest := ⟨ls.tail, (List.cons_head?_tail hhead).symm⟩
  have hrest := h.cons.2.2
  have hne : joined (l' :: rest) ≠ [] := by simp [hrest.cons.1]
  refine ⟨ht, fun _ hs => absurd hs hslash, fun hg => ?_, fun hline => ?_, fun hended => ?_⟩
  · rw [isGrave_of_not_punctuation] at hg
    · cases hg
    · rcases hl with hl | hl
      · intro hk
        simp [Lexeme.isTrivia, TokenKind.isTrivia, hk] at hl
      · rw [hl]
        exact TokenKind.noConfusion
  · rw [h.isTrivia_of_line hline] at hcode
    cases hcode
  · rw [h.closed_of_ne_nil hne] at hended
    cases hended

/-- A lexeme before white space or a comment can stand before any text that begins the same. -/
theorem seam_of_head? (h : IsLexed (l :: ls)) (htrivia : ∃ l', ls.head? = some l' ∧ l'.isTrivia)
    (ht : t.head? = (joined ls).head?) : Seam l (joined ls) t := by
  obtain ⟨l', hhead, htrivia⟩ := htrivia
  obtain ⟨rest, rfl⟩ : ∃ rest, ls = l' :: rest := ⟨ls.tail, (List.cons_head?_tail hhead).symm⟩
  have hrest := h.cons.2.2
  have hne : joined (l' :: rest) ≠ [] := by simp [hrest.cons.1]
  have hstops := hrest.stops_of_isTrivia htrivia
  refine ⟨?_, fun _ hs => ht ▸ hs, fun _ => hstops.head?_ne (by decide), fun hline => ?_,
    fun hended => ?_⟩
  · rw [Text.Stops, ht]
    exact hstops
  · rw [ht]
    exact h.head?_of_line hline
  · rw [h.closed_of_ne_nil hne] at hended
    cases hended

end

end HouseStyle
