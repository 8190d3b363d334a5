import HouseStyle.Proofs.Edit.Repaired
import HouseStyle.Proofs.Outline.Ended
import HouseStyle.Proofs.Token.Ending
import HouseStyle.Proofs.Token.Local
import HouseStyle.Proofs.Token.Place

/-! A semicolon put in behind the last token of a statement is a token of its own. All other tokens
are read as before, and on the lines on which they stood. -/

namespace HouseStyle

open Text

def semicolon : Lexeme := ⟨.punctuation, [.char ';'], false⟩

/-- The lexemes with a semicolon behind the one at an index. -/
def withSemicolon (ls : List Lexeme) (i : Nat) : List Lexeme :=
  ls.take (i + 1) ++ semicolon :: ls.drop (i + 1)

/-! ### Lexemes -/

theorem IsLexed.insert {c : Char} (hc : c ∈ [';', '(', ')']) {ls : List Lexeme} (h : IsLexed ls) :
    IsLexed (⟨.punctuation, [.char c], false⟩ :: ls) :=
  (Mended.lexemes_loose hc (joined ls)).trans (congrArg _ h)

/-- Such a mark brings no grave accent to the line before it. -/
theorem grave_of_insert {c : Char} (hc : c ∈ [';', '(', ')']) {t : Text}
    (h : .char '\x60' ∈ Text.firstLine (.char c :: t)) : .char '\x60' ∈ t.firstLine := by
  fin_cases hc <;> simpa [Text.firstLine, Sym.isBreak, Sym.is] using h

theorem isSpace_of_code {l : Lexeme} (h : l.isTrivia = false) : l.isSpace = false := by
  by_contra hspace
  rw [isTrivia_of_isSpace (by simpa using hspace)] at h
  cases h

/-- Behind the last lexeme of a statement other lexemes may come that start with a mark. -/
theorem Closes.isLexed_append {ls vs : List Lexeme} {i : Nat} (hi : Closes ls i) (hls : IsLexed ls)
    (hvs : IsLexed vs) {k : Nat} (hstops : (joined vs).Stops)
    (hslash : (joined vs).head? ≠ some (.char '/'))
    (hgrave : .char '\x60' ∈ (joined vs).firstLine →
      .char '\x60' ∈ (joined (ls.drop (i + 1))).firstLine) (hk : k ≤ i) :
    IsLexed (between ls k (i + 1) ++ vs) := by
  have hlexed : IsLexed (between ls k (i + 1) ++ ls.drop (i + 1)) := by
    rw [between_append_drop (by omega)]
    exact hls.drop k
  have hlast {l : Lexeme} (hl : l ∈ (between ls k (i + 1)).getLast?) : ls[i]? = some l :=
    between_getLast? hk hl hi.lt
  refine hlexed.glue hvs (fun l hl => ?_) (fun l hl => ?_) fun _ => hgrave
  · exact hi.seam hls hstops hslash rfl (hlast hl)
  · obtain ⟨l', hl', hcode, -⟩ := hi.code
    obtain rfl := Option.some.inj ((hlast hl).symm.trans hl')
    simp [isSpace_of_code hcode]

theorem Closes.isLexed_withSemicolon {ls : List Lexeme} {i : Nat} (hi : Closes ls i)
    (hls : IsLexed ls) : IsLexed (withSemicolon ls i) := by
  have hsemicolon := (hls.drop (i + 1)).insert (c := ';') (by decide)
  exact hi.isLexed_append (k := 0) hls hsemicolon (.cons (by decide) _) (by simp)
    (grave_of_insert (by decide)) (Nat.zero_le i)

theorem joined_withSemicolon (ls : List Lexeme) (i : Nat) :
    joined (withSemicolon ls i) = (joined ls).take (offset ls (i + 1)) ++ [.char ';'] ++
      (joined ls).drop (offset ls (i + 1)) := by
  rw [withSemicolon, joined_append, joined_cons, take_offset, drop_offset, List.append_assoc]
  rfl

/-- What stands before the semicolon stays where it is. -/
theorem offset_withSemicolon {ls : List Lexeme} {i j : Nat} (hi : i < ls.length) (hj : j ≤ i + 1) :
    offset (withSemicolon ls i) j = offset ls j := by
  have hlength : (ls.take (i + 1)).length = i + 1 := List.length_take_of_le hi
  rw [offset, offset, withSemicolon, List.take_append_of_le_length (by omega), List.take_take,
    Nat.min_eq_left hj]

theorem withSemicolon_getElem? {ls : List Lexeme} {i : Nat} (hi : i < ls.length) (j : Nat) :
    (withSemicolon ls i)[Outline.shift i j]? = ls[j]? := by
  have hlength : (ls.take (i + 1)).length = i + 1 := List.length_take_of_le hi
  rcases Nat.lt_or_ge i j with hij | hij
  · rw [Outline.shift_of_lt hij, withSemicolon, List.getElem?_append_right (by omega), hlength,
      show j + 1 - (i + 1) = j - (i + 1) + 1 by omega, List.getElem?_cons_succ, List.getElem?_drop]
    congr 1
    omega
  · rw [Outline.shift_of_le hij, withSemicolon, List.getElem?_append_left (by omega),
      List.getElem?_take_of_lt (by omega)]

/-! ### Tokens -/

theorem tokenize_lexeme (text : Text) (j : Nat) :
    ((tokenize text)[j]?).map (·.toLexeme) = (lexemes text)[j]? := by
  rw [← List.getElem?_map, tokenize_map_toLexeme]

theorem tokenize_length (text : Text) : (tokenize text).length = (lexemes text).length := by
  rw [← tokenize_map_toLexeme, List.length_map]

theorem exists_token_of_lexeme {text : Text} {j : Nat} {l : Lexeme} (h : (lexemes text)[j]? = some l) :
    ∃ t, (tokenize text)[j]? = some t ∧ t.toLexeme = l :=
  Option.map_eq_some_iff.mp ((tokenize_lexeme text j).trans h)

/-- Where lexemes without line breaks are put in, the tokens keep their lines. -/
theorem renaming_of_lexemes {text text' : Text} {f : Nat → Nat} (hmono : StrictMono f)
    (hsame : ∀ j, (lexemes text')[f j]? = (lexemes text)[j]?)
    (hnew : ∀ m l, (lexemes text')[m]? = some l → (∀ j, f j ≠ m) → l.text.breakCount = 0) :
    Outline.Renaming (tokenize text).toArray (tokenize text').toArray f := by
  have hlexed := isLexed_lexemes text
  have hlexed' := isLexed_lexemes text'
  refine ⟨hmono, fun j => ?_, fun j t t' ht ht' => ?_⟩
  · rw [List.getElem?_toArray, List.getElem?_toArray, tokenize_lexeme, tokenize_lexeme, hsame]
  · rw [List.getElem?_toArray] at ht ht'
    have hline := congrArg Cursor.line (placed_cursor hlexed ht)
    have hline' := congrArg Cursor.line (placed_cursor hlexed' ht')
    simp only [Cursor.after] at hline hline'
    rw [hline, hline', hlexed.breakCount_take hlexed' hmono hsame hnew]

section

variable {text : Text} {i : Nat} (hi : Closes (lexemes text) i)
include hi

theorem lexemes_withSemicolon :
    lexemes (joined (withSemicolon (lexemes text) i)) = withSemicolon (lexemes text) i :=
  hi.isLexed_withSemicolon (isLexed_lexemes text)

/-- The tokens of a text with a semicolon behind a statement. -/
theorem tokenize_inserts :
    Outline.Inserts (tokenize text) (tokenize (joined (withSemicolon (lexemes text) i))) i := by
  have hlt := hi.lt
  have hlength : ((lexemes text).take (i + 1)).length = i + 1 := List.length_take_of_le hlt
  have hl : (withSemicolon (lexemes text) i)[i + 1]? = some semicolon := by
    rw [withSemicolon, List.getElem?_append_right (by omega), hlength, Nat.sub_self]
    rfl
  have hnew := lexemes_withSemicolon hi
  constructor
  case length =>
    rw [tokenize_length, tokenize_length, hnew]
    simp only [withSemicolon, List.length_append, List.length_cons, List.length_take,
      List.length_drop]
    omega
  case renames =>
    refine renaming_of_lexemes (Outline.shift_strictMono i) (fun j => ?_) fun m l hm hplace => ?_
    · rw [hnew, withSemicolon_getElem? hlt]
    · obtain rfl : m = i + 1 := by
        by_contra hne
        obtain ⟨j, hj⟩ := Outline.exists_shift hne
        exact hplace j hj
      rw [hnew, hl] at hm
      rw [← Option.some.inj hm]
      decide
  case semicolon =>
    rw [← hnew] at hl
    obtain ⟨t, ht, hlexeme⟩ := exists_token_of_lexeme hl
    exact ⟨t, ht, by rw [hlexeme]; decide, by rw [hlexeme]; rfl⟩

end

end HouseStyle
