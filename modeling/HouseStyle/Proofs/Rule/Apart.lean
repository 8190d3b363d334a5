import HouseStyle.Proofs.Edit.Splice
import HouseStyle.Proofs.Rule.Builtin

/-! No fix of a rule brings stray bytes together, as long as the terminator holds none. What a fix
puts in begins and ends with characters, but for two kinds: a loop header without its parentheses
has white space or a comment before it and the end of the header behind it, and a marker has word
symbols at its ends wherever it has none of its own to show. -/

namespace HouseStyle

open Outline Rule

namespace Sym

theorem isCharacter_of_isSpace {s : Sym} (h : s.isSpace) : s.isCharacter := by
  cases s <;> first | rfl | cases h

theorem isCharacter_of_isWord {s : Sym} (h : s.isWord) : s.isCharacter := by
  cases s <;> first | rfl | cases h

theorem isCharacter_of_isStop {s : Sym} (h : s.isStop) : s.isCharacter := by
  obtain ⟨n, -, rfl⟩ := exists_stopCode h
  rfl

/-- The upper form of a character is made of characters. -/
theorem upper_characters (c : Char) : (char c).upper ≠ [] ∧ ∀ s ∈ (char c).upper, s.isCharacter := by
  simp only [upper]
  split_ifs with hc
  · simp [isCharacter]
  · split
    · next codes hcodes =>
      obtain ⟨before, after, htable, -⟩ := List.lookup_eq_some_iff.mp hcodes
      have hne := (upperWide_isInert (c.toNat, codes) (by simp [htable])).1
      exact ⟨by simpa using hne, by simp [isCharacter]⟩
    · simp [isCharacter]

end Sym

namespace Text

variable {t : Text}

/-- A text begins in upper case with what continues a character just as far as before. -/
theorem IsDecoded.takeWhile_encode_upper (h : t.IsDecoded) :
    (encode (upper t)).takeWhile isTail = (encode t).takeWhile isTail := by
  induction t with
  | nil => rfl
  | cons s t ih =>
    have hupper : upper (s :: t) = s.upper ++ upper t := List.flatMap_cons
    rw [hupper]
    cases s with
    | char c =>
      obtain ⟨hne, hall⟩ := Sym.upper_characters c
      rw [takeWhile_encode fun s hs => ?_, takeWhile_encode fun s hs => ?_]
      · cases hs
        rfl
      · rw [List.head?_append_of_ne_nil _ hne] at hs
        exact hall s (List.mem_of_head? hs)
    | stray low =>
      have hsame := ih h.2
      simp only [Sym.upper, List.singleton_append, encode_cons, encodeSym, List.takeWhile_cons, hsame]
    | half n => exact h.elim

theorem IsDecoded.upper (h : t.IsDecoded) : (Text.upper t).IsDecoded := by
  induction t with
  | nil => trivial
  | cons s t ih =>
    have hupper : Text.upper (s :: t) = s.upper ++ Text.upper t := List.flatMap_cons
    rw [hupper]
    cases s with
    | char c =>
      obtain ⟨hne, hall⟩ := Sym.upper_characters c
      refine (IsDecoded.of_characters hall).append (ih h) (.inl fun s hs => ?_)
      exact hall s (List.mem_of_getLast? hs)
    | stray low =>
      refine ⟨?_, ih h.2⟩
      rw [← h.1]
      exact leadingChar?_congr (IsDecoded.takeWhile_encode_upper h.2)
    | half n => exact h.elim

/-- A text that begins with a character does so in upper case. -/
theorem exists_upper_head? {s : Sym} (hs : s.isCharacter) (t : Text) :
    ∃ x, (upper (s :: t)).head? = some x ∧ x.isCharacter := by
  have hupper : upper (s :: t) = s.upper ++ upper t := List.flatMap_cons
  cases s with
  | char c =>
    obtain ⟨hne, hall⟩ := Sym.upper_characters c
    refine ⟨_, ?_, hall _ (List.head_mem hne)⟩
    rw [hupper, List.head?_append_of_ne_nil _ hne, List.head?_eq_some_head hne]
  | stray low => cases hs
  | half n => cases hs

/-- A text that ends with a character does so in upper case. -/
theorem exists_upper_getLast? (t : Text) {s : Sym} (hs : s.isCharacter) :
    ∃ x, (upper (t ++ [s])).getLast? = some x ∧ x.isCharacter := by
  have hupper : upper (t ++ [s]) = upper t ++ s.upper := by simp [upper]
  cases s with
  | char c =>
    obtain ⟨hne, hall⟩ := Sym.upper_characters c
    refine ⟨_, ?_, hall _ (List.getLast_mem hne)⟩
    rw [hupper, List.getLast?_append_of_ne_nil _ hne, List.getLast?_eq_some_getLast hne]
  | stray low => cases hs
  | half n => cases hs

theorem IsDecoded.of_front {s : Text} (h : t.IsDecoded) (hs : s <+: t) : s.IsDecoded := by
  obtain ⟨u, rfl⟩ := hs
  exact h.of_append_left

theorem IsDecoded.of_back {s : Text} (h : t.IsDecoded) (hs : s <:+ t) : s.IsDecoded := by
  obtain ⟨u, rfl⟩ := hs
  exact h.of_append_right

/-- Characters on both sides of a decoded text. -/
theorem IsDecoded.between {a b : Text} (h : t.IsDecoded) (ha : ∀ s ∈ a, s.isCharacter)
    (hb : ∀ s ∈ b, s.isCharacter) : (a ++ t ++ b).IsDecoded := by
  have hleft : (a ++ t).IsDecoded :=
    (of_characters ha).append h (.inl fun s hs => ha s (List.mem_of_getLast? hs))
  exact hleft.append (of_characters hb) (.inr fun s hs => hb s (List.mem_of_head? hs))

theorem IsDecoded.strip (h : t.IsDecoded) : (Text.strip t).IsDecoded :=
  (h.of_back (List.dropWhile_suffix _)).of_front (List.rdropWhile_prefix _ _)

end Text

/-! ### Beside tokens -/

section

variable {l : Lexeme} {ls : List Lexeme}

/-- A block comment that has its end ends with a slash. -/
theorem IsLexed.getLast?_of_block (h : IsLexed (l :: ls)) (hkind : l.kind = .comment)
    (hline : l.isLineComment = false) (hclosed : l.unterminated = false) :
    l.text.getLast? = some (.char '/') := by
  obtain ⟨b, x, htext, hb⟩ := h.exists_of_comment hkind
  obtain rfl : b = .char '*' := by
    refine hb.resolve_left ?_
    rintro rfl
    simp [Lexeme.isLineComment, hkind, htext] at hline
  have hcut := h.cons.2.1
  rw [htext, List.cons_append, Cut.next_cons, if_neg (by simp), if_neg (by simp),
    if_pos ⟨rfl, by simp⟩] at hcut
  cases hend : Literal.blockComment? (.char '/' :: (.char '*' :: x ++ joined ls)) with
  | none =>
    rw [hend] at hcut
    rw [← show (Cut.upTo _ _ none).unterminated = l.unterminated from congrArg _ hcut] at hclosed
    cases hclosed
  | some n =>
    rw [hend] at hcut
    have hn : n = l.text.length := congrArg Cut.length hcut
    obtain ⟨w, r, heq, hlength⟩ := Literal.commentEnd?_last hend
    have htake : l.text = w ++ [.char '/'] := by
      have hall : l.text ++ joined ls = (w ++ [.char '/']) ++ r := by
        rw [htext, List.append_assoc, List.singleton_append, ← heq]
        rfl
      refine (List.append_inj hall ?_).1
      rw [List.length_append, List.length_singleton, ← hn, hlength, Nat.zero_add]
    rw [htake, List.getLast?_concat]

/-- White space or a comment before code ends with a character that is no parenthesis. -/
theorem IsLexed.getLast?_of_trivia {l' : Lexeme} (h : IsLexed (l :: l' :: ls)) (hl : l.isTrivia)
    (hcode : l'.isTrivia = false) : ∀ s ∈ l.text.getLast?, s.isCharacter ∧ s ≠ .char ')' := by
  intro s hs
  by_cases hspace : l.isSpace
  · have := h.all_isSpace hspace s (List.mem_of_getLast? hs)
    refine ⟨Sym.isCharacter_of_isSpace this, ?_⟩
    rintro rfl
    exact absurd this (by decide)
  · have hkind : l.kind = .comment := by
      cases hk : l.kind <;>
        simp_all [Lexeme.isTrivia, TokenKind.isTrivia, Lexeme.isSpace]
    have hline : l.isLineComment = false := by
      by_contra hline
      rw [h.isTrivia_of_line (by simpa using hline)] at hcode
      cases hcode
    have hclosed : l.unterminated = false := by
      refine h.closed_of_ne_nil ?_
      rw [joined_cons]
      exact List.append_ne_nil_of_left_ne_nil h.cons.2.2.cons.1 _
    rw [h.getLast?_of_block hkind hline hclosed] at hs
    cases hs
    exact ⟨rfl, by decide⟩

theorem IsLexed.getLast?_take_offset {k : Nat} (h : IsLexed ls) (hl : ls[k]? = some l) :
    ((joined ls).take (offset ls (k + 1))).getLast? = l.text.getLast? := by
  rw [take_offset, List.take_add_one, hl, joined_append, Option.toList_some, joined_cons, joined_nil,
    List.append_nil, List.getLast?_append_of_ne_nil _ (h.text_ne_nil hl)]

/-- Code that is not next to the keyword before it has white space or a comment in front. -/
theorem IsLexed.getLast?_of_quiet {k i : Nat} (h : IsLexed ls) (hki : k + 1 < i)
    (hquiet : ∀ m l, k < m → m < i → ls[m]? = some l → l.isTrivia) (hl : ls[i]? = some l)
    (hcode : l.isTrivia = false) :
    ∀ s ∈ ((joined ls).take (offset ls i)).getLast?, s.isCharacter ∧ s ≠ .char ')' := by
  obtain ⟨m, rfl⟩ : ∃ m, i = m + 1 := ⟨i - 1, by omega⟩
  have hm := List.getElem?_eq_getElem (show m < ls.length by
    have := (List.getElem?_eq_some_iff.mp hl).1
    omega)
  have hdrop := h.drop m
  rw [drop_cons hm, drop_cons hl] at hdrop
  rw [h.getLast?_take_offset hm]
  exact hdrop.getLast?_of_trivia (hquiet m _ (by omega) (Nat.lt_succ_self m) hm) hcode

end

variable {text end_ : Text} {c : Context} {r : Remark} {fix : Fix}

/-- What stands behind a header begins with a character. -/
theorem Segment.Sound.head?_behind {s : Segment} (h : s.Sound (tokenize text).toArray end_)
    (hend : ∀ x ∈ end_, x.isCharacter) (hheader : s.kind = .controlHeader) :
    ∀ x ∈ (joined ((lexemes text).drop (s.last + 1))).head?, x.isCharacter := by
  intro x hx
  cases hl : (lexemes text)[s.last + 1]? with
  | none =>
    rw [List.drop_eq_nil_of_le (List.getElem?_eq_none_iff.mp hl)] at hx
    cases hx
  | some l =>
    have hlexed := (isLexed_lexemes text).drop (s.last + 1)
    rw [drop_cons hl] at hlexed hx
    have htrivia (h : l.isTrivia) : x.isCharacter :=
      Sym.isCharacter_of_isStop (hlexed.stops_of_isTrivia h x hx)
    have hpunct {t : Text} (ht : ∀ y ∈ t, y.isCharacter) (h : l.isPunct t) : x.isCharacter := by
      simp only [Lexeme.isPunct, Bool.and_eq_true, decide_eq_true_eq] at h
      rw [joined_cons, List.head?_append_of_ne_nil _ hlexed.cons.1, h.2] at hx
      exact ht x (List.mem_of_head? hx)
    cases h.ends with
    | text hboundary hquiet =>
      obtain ⟨t, ht, rfl⟩ := token_of_lexeme hl
      have hsize := (Array.getElem?_eq_some_iff.mp ht).1
      exact htrivia (tokenIs_lexeme (p := Lexeme.isTrivia) (hquiet _ (Nat.lt_succ_self _) hsize) hl)
    | label hlabel => exact absurd hheader (h.label hlabel).1
    | token b hboundary hlt hquiet hending =>
      rcases Nat.lt_or_eq_of_le hlt with hlt' | rfl
      · exact htrivia (tokenIs_lexeme (p := Lexeme.isTrivia) (hquiet _ (Nat.lt_succ_self _) hlt') hl)
      · obtain ⟨t, ht, hending⟩ := tokenIs_iff.mp hending
        rw [(lexeme_of_token ht).1] at hl
        obtain rfl := Option.some.inj hl
        simp only [isEnding, Bool.or_eq_true, decide_eq_true_eq] at hending
        rcases hending with ((hkind | hmark) | hmark) | hmark
        · exact htrivia (by simp [Lexeme.isTrivia, TokenKind.isTrivia, hkind])
        · exact hpunct (by simp [Sym.isCharacter]) hmark
        · exact hpunct (by simp [Sym.isCharacter]) hmark
        · exact hpunct hend hmark

/-! ### Fixes that show characters -/

/-- A fix that puts in a decoded text between two characters. -/
theorem Fix.Apart.of_ends {a b : Sym} {t : Text} (hnew : fix.insertion = a :: t ++ [b])
    (ht : t.IsDecoded) (ha : a.isCharacter) (hb : b.isCharacter) : fix.Apart text where
  decoded := by
    rw [hnew, ← List.singleton_append]
    exact ht.between (by simpa using ha) (by simpa using hb)
  left := .inl ⟨a, by rw [hnew]; rfl, ha⟩
  right := .inl ⟨b, by rw [hnew, List.getLast?_concat], hb⟩

/-- A fix that puts in nothing but characters, if anything. -/
theorem Fix.apart_of_characters (h : ∀ s ∈ fix.insertion, s.isCharacter) (hne : fix.insertion ≠ []) :
    fix.Apart text where
  decoded := .of_characters h
  left := .inl ⟨_, List.head?_eq_some_head hne, h _ (List.head_mem hne)⟩
  right := .inl ⟨_, List.getLast?_eq_some_getLast hne, h _ (List.getLast_mem hne)⟩

namespace Rule

theorem Termination.apart_of_missing {s : Segment} (hend : ∀ x ∈ c.ending, x.isCharacter)
    (hr : Termination.missing c s = some r) (hfix : r.fix = some fix)
    (hnew : ∃ t, fix.replacement = .text t) : fix.Idle ∨ fix.Apart text := by
  obtain ⟨-, last, -, hspan, hreplacement, -⟩ := Termination.missing_spec hr hfix
  obtain ⟨t, ht⟩ := hnew
  have hending : c.ending = fix.insertion := by
    rw [Context.ending, ← hreplacement, ht, Fix.insertion_eq ht]
    rfl
  by_cases hne : fix.insertion = []
  · exact .inl ⟨by rw [hspan]; rfl, hne⟩
  · exact .inr (Fix.apart_of_characters (hending ▸ hend) hne)

theorem Parentheses.apart_of_wrapping {run : List Nat} {message description : Text}
    {rs : List Remark} (hcontent : c.content = text) (htext : text.IsDecoded)
    (hrs : Parentheses.wrapping c run message description = .ok rs) (hr : r ∈ rs)
    (hfix : r.fix = some fix) : fix.Apart text := by
  obtain ⟨i, j, first, last, -, -, -, -, hnew, -⟩ := Parentheses.wrapping_spec hrs hr hfix
  refine .of_ends (Fix.insertion_eq hnew) ?_ rfl rfl
  rw [Parentheses.sourceOf, hcontent]
  exact (htext.drop _).take _

end Rule

namespace Context.ReadsWith

variable (h : c.ReadsWith text end_)
include h

/-- The fix that takes the parentheses of a loop header away. -/
theorem apart_of_unwrapping {s : Segment} (hs : s ∈ c.outline.segments)
    (hend : ∀ x ∈ end_, x.isCharacter) (htext : text.IsDecoded) {rs : List Remark}
    (hrs : Parentheses.unwrapping c (Parentheses.headerTail c.outline s "for") = .ok rs)
    (hr : r ∈ rs) (hfix : r.fix = some fix)
    (hwrapped : c.outline.isWrapped (Parentheses.headerTail c.outline s "for")) :
    fix.Apart text := by
  obtain ⟨i, j, opener, closer, hends, hopener, hcloser, hspan, -, hnew⟩ :=
    Parentheses.unwrapping_spec hrs hr hfix
  obtain ⟨hkind, hij, hj, us, k, vs, hindices, hkeyword⟩ := h.header hs hends
  have hsound := h.segment_sound hs
  have horder := hsound.inOrder
  rw [hindices] at horder
  obtain ⟨hki, hquiet, hopens⟩ := horder.opens_of_keyword hkeyword
  obtain ⟨hstart, hstop, -⟩ := Span.between_spec hspan
  obtain ⟨-, hbegin, -⟩ := h.token hopener
  obtain ⟨hclose, -, hend'⟩ := h.token hcloser
  obtain ⟨hopen, hmatch⟩ := h.match_of_isWrapped hwrapped hends hij
  have hlexed := isLexed_lexemes text
  have hjoined : joined (lexemes text) = text := lexemes_join text
  have hnew := Fix.insertion_eq hnew
  refine ⟨?_, ?_, .inr ⟨?_, ?_⟩⟩
  · have hblank (p : Prop) [Decidable p] : ∀ s ∈ if p then (" " : Text) else [], s.isCharacter := by
      split_ifs
      · decide
      · decide
    rw [hnew, Parentheses.sourceOf, h.content]
    exact ((htext.drop _).take _).strip.between (hblank _) (hblank _)
  · by_cases hfor : 0 < i && c.outline.at_ (i - 1) (·.isKeyword ["for"])
    · rw [if_pos hfor] at hnew
      exact .inl ⟨.char ' ', by rw [hnew]; rfl, rfl⟩
    · -- The keyword is further off, so there is white space or a comment in between.
      refine .inr ?_
      have hfar : k + 1 < i := by
        refine Nat.lt_of_le_of_ne hki ?_
        rintro rfl
        refine hfor ?_
        rw [Nat.add_sub_cancel, Outline.at_, h.tokens, hkeyword]
        simp
      obtain ⟨l, hl, hcode⟩ := hopens.code
      have hlast := hlexed.getLast?_of_quiet hfar hquiet hl hcode
      rwa [hjoined, ← hbegin, ← hstart] at hlast
  · obtain ⟨l, hl, hmark⟩ := exists_of_tokenIs (p := fun l => l.isMark ')') (hmatch.closer hopen)
    simp only [Lexeme.isMark, Lexeme.isPunct, Bool.and_eq_true, decide_eq_true_eq] at hmark
    have hlast := hlexed.getLast?_take_offset hl
    rwa [hjoined, ← hend', ← hstop, hmark.2] at hlast
  · have hbehind := hsound.head?_behind hend hkind
    rwa [← hj, ← drop_offset, hjoined, ← hend', ← hstop] at hbehind

end Context.ReadsWith

/-! ### Markers -/

namespace Rule.Markers

/-- Where a match stands in a text that starts at an offset behind a symbol, a word starting and
ending there. -/
def Match.Bounded (offset : Nat) (before : Option Sym) (t : Text) (m : Match) : Prop :=
  ∃ pre post, t = pre ++ m.word ++ post ∧ m.offset = offset + pre.length ∧
    isBoundary (pre.getLast?.or before) (m.word ++ post).head? ∧
    isBoundary (m.word.getLast?.or (pre.getLast?.or before)) post.head? ∧
    m.colon = decide (post.head? = some (.char ':'))

theorem matchesAt_bounded {markers : List Text} {offset : Nat} {before : Option Sym} {rest : Text}
    {m : Match} (hm : m ∈ matchesAt markers offset before rest) : m.Bounded offset before rest := by
  obtain ⟨marker, -, hone⟩ := List.mem_filterMap.mp (mem_of_mem_matchesAt hm)
  unfold matchOne? at hone
  simp only [Option.ite_none_right_eq_some, Bool.and_eq_true, decide_eq_true_eq] at hone
  obtain ⟨⟨⟨-, hstart⟩, hstop⟩, hm⟩ := hone
  cases hm
  refine ⟨[], rest.drop marker.length, ?_, rfl, ?_, ?_, rfl⟩
  · rw [List.nil_append, List.take_append_drop]
  · rwa [List.take_append_drop]
  · cases hword : rest.take marker.length with
    | nil => simpa [hword] using hstop
    | cons s w => simpa [hword, List.getLast?_cons] using hstop

theorem matchesFrom_bounded {markers : List Text} {offset : Nat} {before : Option Sym} {skip : Nat}
    {t : Text} {m : Match} (hm : m ∈ matchesFrom markers offset before skip t) :
    m.Bounded offset before t := by
  have hlater {offset : Nat} {before : Option Sym} {s : Sym} {rest : Text}
      (h : m.Bounded (offset + 1) (some s) rest) : m.Bounded offset before (s :: rest) := by
    obtain ⟨pre, post, rfl, hoffset, hstart, hstop, hcolon⟩ := h
    have hlast : (s :: pre).getLast?.or before = pre.getLast?.or (some s) := by
      rw [List.getLast?_cons]
      cases pre.getLast? <;> rfl
    refine ⟨s :: pre, post, rfl, ?_, ?_, ?_, hcolon⟩
    · rw [hoffset, List.length_cons]
      omega
    · rwa [hlast]
    · rwa [hlast]
  fun_induction matchesFrom markers offset before skip t with
  | case1 => exact matchesAt_bounded hm
  | case2 => cases hm
  | case3 offset before s rest here ih =>
    rcases List.mem_append.mp hm with hm | hm
    · exact matchesAt_bounded hm
    · exact hlater (ih hm)
  | case4 offset before skip s rest ih => exact hlater (ih hm)

/-- The upper form goes with a colon, its own or the one that stands there. -/
theorem remark?_colon {base : Nat} {m : Match} (h : remark? base m = some r)
    (hfix : r.fix = some fix) :
    fix.span.start = base + m.offset ∧
      (fix.insertion = Text.upper m.word ++ [.char ':'] ∨
        fix.insertion = Text.upper m.word ∧ m.colon ∧ m.word ≠ []) := by
  simp only [remark?] at h
  split_ifs at h with hdone hword hcolon
  · cases h
    cases hfix
  · cases h
    cases hfix
    exact ⟨rfl, .inl rfl⟩
  · cases h
    cases hfix
    refine ⟨rfl, .inr ⟨rfl, hcolon, ?_⟩⟩
    rintro hnil
    exact hword (by rw [hnil]; rfl)

/-- Where a word starts or ends, there is a word symbol. -/
theorem isBoundary_cases {a b : Option Sym} (h : isBoundary a b) :
    (∃ s, a = some s ∧ s.isWord) ∨ ∃ s, b = some s ∧ s.isWord := by
  unfold isBoundary at h
  cases a with
  | none =>
    cases b with
    | none => cases h
    | some s => exact .inr ⟨s, rfl, by simpa using h⟩
  | some s =>
    by_cases hs : s.isWord
    · exact .inl ⟨s, rfl, hs⟩
    · cases b with
      | none => simp [hs] at h
      | some s' => exact .inr ⟨s', rfl, by simpa [hs] using h⟩

/-- The upper form of a word that starts here begins with a character, unless there is a word symbol
before it. -/
theorem head?_of_boundary {before : Option Sym} {word post new : Text}
    (hstart : isBoundary before (word ++ post).head?)
    (hnew : new = Text.upper word ++ [.char ':'] ∨ new = Text.upper word ∧ word ≠ []) :
    (∃ s, new.head? = some s ∧ s.isCharacter) ∨ ∃ s, before = some s ∧ s.isWord := by
  rcases isBoundary_cases hstart with hbefore | ⟨s, hs, hword⟩
  · exact .inr hbefore
  · refine .inl ?_
    cases word with
    | nil =>
      rcases hnew with rfl | ⟨-, hne⟩
      · exact ⟨.char ':', rfl, rfl⟩
      · exact absurd rfl hne
    | cons s' w =>
      cases hs
      obtain ⟨y, hy, hchar⟩ := Text.exists_upper_head? (Sym.isCharacter_of_isWord hword) w
      rcases hnew with rfl | ⟨rfl, -⟩
      · exact ⟨y, by rw [List.head?_append, hy]; rfl, hchar⟩
      · exact ⟨y, hy, hchar⟩

/-- The upper form of a word that ends before a colon ends with a character. -/
theorem getLast?_of_boundary {before : Option Sym} {word : Text} (hne : word ≠ [])
    (hstop : isBoundary (word.getLast?.or before) (some (.char ':'))) :
    ∃ s, (Text.upper word).getLast? = some s ∧ s.isCharacter := by
  obtain ⟨w, b, rfl⟩ : ∃ w b, word = w ++ [b] := ⟨_, _, (List.dropLast_append_getLast hne).symm⟩
  rw [List.getLast?_concat, Option.some_or] at hstop
  rcases isBoundary_cases hstop with ⟨s, hs, hword⟩ | ⟨s, hs, hword⟩
  · cases hs
    exact Text.exists_upper_getLast? w (Sym.isCharacter_of_isWord hword)
  · cases hs
    exact absurd hword (by decide)

end Rule.Markers

/-- What stands before a place inside a token. -/
theorem take_start_add {t : Token} (ht : t ∈ tokenize text) {pre post : Text}
    (hsplit : t.text = pre ++ post) :
    text.take (t.start + pre.length) = text.take t.start ++ pre := by
  have hle := (cutFrom_of_mem_tokenize ht).stop_le
  have hslice := (cutFrom_of_mem_tokenize ht).text_eq
  have hlength : pre.length ≤ t.stop - t.start := by
    rw [Token.stop, hsplit]
    simp only [List.length_append]
    omega
  have hpre : t.text.take pre.length = pre := by
    rw [hsplit, List.take_left]
  rw [List.take_add]
  congr 1
  rw [← hpre, hslice, List.take_take, Nat.min_eq_left hlength, List.length_take, List.length_drop,
    Nat.min_eq_left (by omega)]

theorem Markers.apart_of_inComment {markers : List Text} {t : Token} (ht : t ∈ tokenize text)
    (htext : text.IsDecoded) (hr : r ∈ Markers.inComment markers t) (hfix : r.fix = some fix) :
    fix.Apart text := by
  unfold Markers.inComment at hr
  split_ifs at hr with hkind
  · obtain ⟨m, hm, hr⟩ := List.mem_filterMap.mp hr
    obtain ⟨pre, post, hsplit, hoffset, hstart, hstop, hcolon⟩ := Markers.matchesFrom_bounded hm
    obtain ⟨hspan, hnew⟩ := Markers.remark?_colon hr hfix
    have hslice := (cutFrom_of_mem_tokenize ht).text_eq
    have hword : m.word.IsDecoded := by
      have htoken : t.text.IsDecoded := hslice ▸ (htext.drop _).take _
      rw [hsplit] at htoken
      exact htoken.of_append_left.of_append_right
    have hbefore : text.take fix.span.start = text.take t.start ++ pre := by
      rw [hspan, hoffset, Nat.zero_add]
      exact take_start_add ht (hsplit.trans (List.append_assoc _ _ _))
    refine ⟨?_, ?_, ?_⟩
    · rcases hnew with hnew | ⟨hnew, -⟩
      · rw [hnew]
        exact hword.upper.append (.of_characters (by decide)) (.inr (by decide))
      · rw [hnew]
        exact hword.upper
    · rw [Option.or_none] at hstart
      rcases Markers.head?_of_boundary hstart (hnew.imp_right (And.imp_right And.right)) with
        hhead | ⟨s, hs, hword⟩
      · exact .inl hhead
      · refine .inr fun x hx => ?_
        rw [hbefore, List.getLast?_append, hs] at hx
        cases hx
        refine ⟨Sym.isCharacter_of_isWord hword, ?_⟩
        rintro rfl
        exact absurd hword (by decide)
    · rcases hnew with hnew | ⟨hnew, hm, hne⟩
      · exact .inl ⟨.char ':', by rw [hnew, List.getLast?_concat], rfl⟩
      · rw [hm] at hcolon
        have hpost : post.head? = some (.char ':') := of_decide_eq_true hcolon.symm
        rw [hpost] at hstop
        exact .inl (hnew ▸ Markers.getLast?_of_boundary hne hstop)
  · cases hr

/-! ### All rules -/

/-- A fix of a rule that comes with the checker, whatever the options of the rule are, changes
nothing or brings no stray bytes together, if it puts in a text and the terminator has none. -/
theorem apart_of_mem_remarks (hcontent : c.content = text)
    (houtline : c.outline = Outline.ofTokens (tokenize text) c.ending)
    (hend : ∀ x ∈ c.ending, x.isCharacter) (htext : text.IsDecoded) {kind : RuleKind}
    (hkind : kind ∈ builtinKinds) {options : Options} {rs : List Remark}
    (hrs : kind.remarks options c = .ok rs) (hr : r ∈ rs) (hfix : r.fix = some fix)
    (hnew : ∃ t, fix.replacement = .text t) : fix.Idle ∨ fix.Apart text := by
  have hreads : Context.ReadsWith { c with terminator := .text c.ending } text c.ending :=
    ⟨hcontent, houtline, rfl⟩
  have hnone {P : Prop} (hr : r.fix = none) : P := by
    rw [hfix] at hr
    cases hr
  simp only [builtinKinds, List.mem_cons, List.not_mem_nil, or_false] at hkind
  rcases hkind with rfl | rfl | rfl | rfl | rfl | rfl | rfl | rfl | rfl | rfl
  · have hall : Termination.allMissing c = .ok rs := hrs
    simp only [Termination.allMissing] at hall
    split_ifs at hall
    · cases hall
      obtain ⟨s, -, hmissing⟩ := List.mem_filterMap.mp hr
      exact Termination.apart_of_missing hend hmissing hfix hnew
  · obtain ⟨n, -, here, hhere, hr⟩ := Remark.mem_collect hrs hr
    exact hnone (Termination.crowding_fix hhere hr)
  · obtain ⟨block, -, here, hhere, hr⟩ := Remark.mem_collect hrs hr
    obtain ⟨brace, last, -, -, -, hblank, -⟩ := Braces.misplaced_spec hhere hr hfix
    have hinsertion := Fix.insertion_eq hblank
    refine .inr (Fix.apart_of_characters ?_ ?_)
    · rw [hinsertion]
      simp [Sym.isCharacter]
    · rw [hinsertion]
      exact List.cons_ne_nil _ _
  · obtain ⟨s, -, here, hhere, hr⟩ := Remark.mem_collect hrs hr
    obtain ⟨message, hwrap, -⟩ := Parentheses.unwrapped_spec hhere hr
    exact .inr (Parentheses.apart_of_wrapping hcontent htext hwrap hr hfix)
  · obtain ⟨s, hs, here, hhere, hr⟩ := Remark.mem_collect hrs hr
    obtain ⟨⟨hunwrap, hwrapped⟩ | ⟨message, hwrap⟩, -⟩ := Parentheses.misgrouped_spec hhere hr
    · exact .inr (hreads.apart_of_unwrapping hs hend htext hunwrap hr hfix hwrapped)
    · exact .inr (Parentheses.apart_of_wrapping hcontent htext hwrap hr hfix)
  · cases hrs
    obtain ⟨s, -, hr⟩ := List.mem_flatMap.mp hr
    exact hnone (Declarations.untyped_fix hr)
  · cases hrs
    obtain ⟨i, -, hr⟩ := List.mem_filterMap.mp hr
    exact hnone (Declarations.forced_fix hr)
  · obtain ⟨markers, -, hrs⟩ := bind_eq_ok.mp hrs
    cases hrs
    split_ifs at hr
    · cases hr
    · obtain ⟨t, ht, hr⟩ := List.mem_flatMap.mp hr
      exact .inr (Markers.apart_of_inComment (hreads.mem_tokenize ht) htext hr hfix)
  · cases hrs
    obtain ⟨brace, -, hr⟩ := List.mem_flatMap.mp hr
    exact hnone (Members.inType_fix hr)
  · cases hrs
    obtain ⟨container, -, hr⟩ := List.mem_flatMap.mp hr
    exact hnone (Members.separated_fix hr)

end HouseStyle
