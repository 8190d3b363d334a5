import HouseStyle.Proofs.Outline.Bared
import HouseStyle.Proofs.Rule.Wrapping

/-! Taking the parentheses of a loop header away keeps the loop, as long as nothing in them would open
a block without them or end a line of code. The brace behind the header opens its block as before, the
header has its other tokens, and no brace comes to open a closure or ceases to. -/

namespace HouseStyle

open Outline Rule

/-! ### The lexemes of the new text -/

theorem mem_between_of {ls : List Lexeme} {l : Lexeme} {i j m : Nat} (him : i ≤ m) (hmj : m < j)
    (hl : ls[m]? = some l) : l ∈ between ls i j := by
  refine List.mem_of_getElem? (i := m - i) ?_
  rw [between, List.getElem?_take_of_lt (by omega), List.getElem?_drop, Nat.add_sub_cancel' him, hl]

/-- Code without comments, and the white space at its ends. -/
theorem IsLexed.exists_code {xs ls : List Lexeme} (h : IsLexed (xs ++ ls))
    (hcode : ∃ l ∈ xs, l.isSpace = false) (hcomment : ∀ l ∈ xs, l.kind ≠ .comment)
    (hclosed : ∀ l ∈ xs, l.unterminated = false) :
    ∃ lead inner trail, xs = lead ++ inner ++ trail ∧ (∀ l ∈ lead, l.isSpace) ∧
      (∀ l ∈ trail, l.isSpace) ∧ (∃ l ∈ inner.head?, l.isTrivia = false) ∧
      (∃ l ∈ inner.getLast?, l.isTrivia = false) ∧
      inner.getLast? = (xs.filter fun l => !l.isSpace).getLast? ∧
      Text.strip (joined xs) = joined inner := by
  have htrivia {l : Lexeme} (hl : l ∈ xs) (hspace : l.isSpace = false) : l.isTrivia = false := by
    have := hcomment l hl
    cases hkind : l.kind <;> simp_all [Lexeme.isTrivia, TokenKind.isTrivia, Lexeme.isSpace]
  have hshown {l : Lexeme} (hl : l ∈ (xs.filter fun l => !l.isSpace).getLast?) :
      l ∈ xs ∧ l.isTrivia = false := by
    obtain ⟨hl, hspace⟩ := List.mem_filter.mp (List.mem_of_getLast? hl)
    exact ⟨hl, htrivia hl (by simpa using hspace)⟩
  obtain ⟨lead, inner, trail, rfl, hlead, htrail, hfirst, hlast, hstrip⟩ := h.exists_core
    fun l hl => ⟨isLineComment_of_not_isTrivia (hshown hl).2, hclosed l (hshown hl).1⟩
  obtain ⟨l, hl⟩ : ∃ l, inner.getLast? = some l := by
    obtain ⟨l, hl, hspace⟩ := hcode
    have hmem : l ∈ (lead ++ inner ++ trail).filter fun l => !l.isSpace :=
      List.mem_filter.mpr ⟨hl, by simp [hspace]⟩
    exact ⟨_, hlast.trans (List.getLast?_eq_some_getLast (List.ne_nil_of_mem hmem))⟩
  obtain ⟨l', rest, rfl⟩ := List.exists_cons_of_ne_nil
    (List.ne_nil_of_mem (List.mem_of_getLast? hl))
  exact ⟨lead, _, trail, rfl, hlead, htrail, ⟨l', rfl, htrivia (by simp) (hfirst l' rfl)⟩,
    ⟨l, hl, (hshown (hlast ▸ hl)).2⟩, hlast, hstrip⟩

namespace Fix.Unwraps

variable {fix : Fix} {text before after : Text} {i j : Nat} (h : fix.Unwraps text i j before after)
include h

/-- What comes in place of the parentheses is a blank or nothing. -/
theorem exists_blanks (hcloses : Closes (lexemes text) j) :
    ∃ us vs, joined us = before ∧ joined vs = after ∧
      (us = [blank] ∧ (∃ l ∈ ((lexemes text).take i).getLast?, l.kind = .keyword) ∨
        us = [] ∧ ∃ l ∈ ((lexemes text).take i).getLast?, l.isTrivia) ∧
      (vs = [blank] ∧ (joined ((lexemes text).drop (j + 1))).head? = some (.char '{') ∨
        vs = [] ∧ (joined ((lexemes text).drop (j + 1))).Stops) := by
  obtain ⟨us, hus, henters⟩ : ∃ us, joined us = before ∧
      (us = [blank] ∧ (∃ l ∈ ((lexemes text).take i).getLast?, l.kind = .keyword) ∨
        us = [] ∧ ∃ l ∈ ((lexemes text).take i).getLast?, l.isTrivia) := by
    obtain ⟨k, l, rfl, hl, henters⟩ := h.enters
    have hlast : ((lexemes text).take (k + 1)).getLast? = some l := by
      rw [List.getLast?_take, if_neg (Nat.succ_ne_zero k), Nat.add_sub_cancel, hl]
      rfl
    rcases henters with ⟨rfl, hkeyword⟩ | ⟨rfl, htrivia⟩
    · exact ⟨_, rfl, .inl ⟨rfl, l, hlast, hkeyword⟩⟩
    · exact ⟨_, rfl, .inr ⟨rfl, l, hlast, htrivia⟩⟩
  rcases h.leaves with ⟨rfl, l, hl, hmark⟩ | ⟨rfl, -⟩
  · simp only [Lexeme.isMark, Lexeme.isPunct, Bool.and_eq_true, decide_eq_true_eq] at hmark
    refine ⟨us, _, hus, rfl, henters, .inl ⟨rfl, ?_⟩⟩
    rw [drop_cons hl, joined_cons, hmark.2]
    rfl
  · exact ⟨us, _, hus, rfl, henters, .inr ⟨rfl, hcloses.stops (isLexed_lexemes text)⟩⟩

/-- Where a lone grave accent stands in the text, no line break goes with the white space. -/
theorem not_isBreak (hspares : fix.Spares text) (hgrave : ∃ l ∈ lexemes text, l.isGrave)
    {lead inner trail : List Lexeme}
    (hsplit : between (lexemes text) (i + 1) j = lead ++ inner ++ trail)
    (hstrip : Text.strip (joined (between (lexemes text) (i + 1) j)) = joined inner)
    {opener closer : Lexeme} (hopener : (lexemes text)[i]? = some opener)
    (hcloser : (lexemes text)[j]? = some closer) {l : Lexeme} (hl : l ∈ lead ++ trail) :
    ∀ s ∈ l.text, s.isBreak = false := by
  have hij := h.lt
  have hjoined : joined (lexemes text) = text := lexemes_join text
  obtain ⟨m, hm, hgrave⟩ := hgrave
  rw [← tokenize_map_toLexeme] at hm
  obtain ⟨t, ht, rfl⟩ := List.mem_map.mp hm
  -- The line breaks of the parentheses are those of the code in them.
  have hbreaks := hspares.breaks ⟨t, ht, hgrave⟩
  have hslice : fix.span.slice text = joined (between (lexemes text) i (j + 1)) := by
    have := slice_offset (lexemes text) (show i ≤ j + 1 by omega)
    rwa [hjoined, ← h.start, ← h.stop] at this
  rw [hslice, h.insertion, hstrip, between_succ (by omega) hcloser, between_cons hij hopener,
    hsplit] at hbreaks
  have hnone : before.countP Sym.isBreak = 0 ∧ after.countP Sym.isBreak = 0 := by
    obtain ⟨-, -, -, -, ⟨rfl, -⟩ | ⟨rfl, -⟩⟩ := h.enters <;>
      obtain ⟨rfl, -⟩ | ⟨rfl, -⟩ := h.leaves <;> exact ⟨rfl, rfl⟩
  simp only [joined_append, joined_cons, List.countP_append, hnone] at hbreaks
  intro s hs
  refine not_isBreak_of_countP (w := joined (lead ++ trail)) ?_ s (List.mem_flatMap.mpr ⟨l, hl, hs⟩)
  rw [joined_append, List.countP_append]
  omega

/-- The parentheses go from around the code in them. -/
theorem exists_bares (hcloses : Closes (lexemes text) j) (hspares : fix.Spares text)
    (hcode : ∃ l ∈ between (lexemes text) (i + 1) j, l.isSpace = false)
    (hcomment : ∀ l ∈ between (lexemes text) (i + 1) j, l.kind ≠ .comment) :
    ∃ lead inner trail us vs opener closer,
      Bares ((lexemes text).take i) lead inner trail ((lexemes text).drop (j + 1)) us vs opener
        closer ∧
      lexemes text = (lexemes text).take i ++ [opener] ++ lead ++ inner ++ trail ++
        closer :: (lexemes text).drop (j + 1) ∧
      j = i + 1 + lead.length + inner.length + trail.length ∧
      text.take fix.span.start ++ fix.insertion ++ text.drop fix.span.stop =
        joined ((lexemes text).take i ++ us ++ inner ++ vs ++ (lexemes text).drop (j + 1)) := by
  have hij := h.lt
  have hlexed := isLexed_lexemes text
  have hjoined : joined (lexemes text) = text := lexemes_join text
  obtain ⟨opener, hopener, hopen⟩ := exists_of_tokenIs (p := fun l => l.isMark '(') h.opener
  obtain ⟨closer, hcloser, hclose⟩ := exists_of_tokenIs (p := fun l => l.isMark ')') h.closer
  have hinside : IsLexed (between (lexemes text) (i + 1) j ++ (lexemes text).drop j) := by
    rw [between_append_drop hij]
    exact hlexed.drop (i + 1)
  obtain ⟨lead, inner, trail, hsplit, hlead, htrail, hfirst, hfinal, hlast, hstrip⟩ :=
    hinside.exists_code hcode hcomment fun l hl => by
      obtain ⟨m, -, hmj, hm⟩ := mem_between hl
      exact hlexed.closed_of_lt hm hmj hcloses.lt
  have hwhole : lexemes text = (lexemes text).take i ++ [opener] ++ lead ++ inner ++ trail ++
      closer :: (lexemes text).drop (j + 1) := by
    have hlist := List.take_append_drop i (lexemes text)
    rw [drop_cons hopener, ← between_append_drop hij, drop_cons hcloser, hsplit] at hlist
    refine hlist.symm.trans ?_
    simp only [List.append_assoc, List.cons_append, List.nil_append]
  have hplace : j = i + 1 + lead.length + inner.length + trail.length := by
    have hlength := congrArg List.length hsplit
    have := hcloses.lt
    simp only [between, List.length_take, List.length_drop, List.length_append] at hlength
    omega
  obtain ⟨us, vs, hus, hvs, henters, hleaves⟩ := h.exists_blanks hcloses
  refine ⟨lead, inner, trail, us, vs, opener, closer, ⟨hwhole ▸ hlexed, hopen, hclose, hlead, htrail,
    hfirst, hfinal, henters, hleaves, fun l hl => h.slash hspares hcloses.lt l (hlast ▸ hl),
    fun hgrave l hl => ?_⟩, hwhole, hplace, ?_⟩
  · obtain ⟨m, hm, hgrave⟩ := hgrave
    refine h.not_isBreak hspares ⟨m, ?_, hgrave⟩ hsplit hstrip hopener hcloser hl
    rw [hwhole]
    rcases List.mem_append.mp hm with hm | hm <;> simp [hm]
  · have htake := take_offset (lexemes text) i
    have hdrop := drop_offset (lexemes text) (j + 1)
    rw [hjoined] at htake hdrop
    rw [h.insertion, hstrip, h.start, h.stop, htake, hdrop, ← hus, ← hvs]
    simp only [joined_append, List.append_assoc]

end Fix.Unwraps

namespace Rule.Parentheses

variable {c : Context} {text end_ : Text} {s : Segment} {r : Remark} {fix : Fix} {rs : List Remark}
  {a z : Nat}

/-! ### What the rule says of the header -/

/-- A loop header that is to be unwrapped is in parentheses, with an `in` right inside them and nothing
that divides it. -/
theorem misgrouped_unwraps (h : misgrouped c s = .ok rs) (hr : r ∈ rs) (hfix : r.fix = some fix)
    (hunwraps : fix.description = "Remove the parentheses") :
    ∃ a z, ends? (headerTail c.outline s "for") = some (a, z) ∧
      Termination.hasUnterminated c.outline a z = false ∧
      c.outline.isWrapped (headerTail c.outline s "for") ∧
      unwrapping c (headerTail c.outline s "for") = .ok rs ∧
      (∃ x ∈ ((headerTail c.outline s "for").drop 1).dropLast, c.outline.at_ x (·.isKeyword ["in"])) ∧
      ∀ x ∈ ((headerTail c.outline s "for").drop 1).dropLast,
        c.outline.nestingAt x = c.outline.nestingAt a + 1 →
        c.outline.at_ x (·.isPunct c.ending) = false := by
  simp only [misgrouped] at h
  cases hends : ends? (headerTail c.outline s "for") with
  | none =>
    rw [hends] at h
    cases h
    cases hr
  | some pair =>
    obtain ⟨a, z⟩ := pair
    rw [hends] at h
    simp only at h
    split_ifs at h with hclosed hwrapped hin hclassic
    · cases h
      cases hr
    · simp only [Bool.and_eq_true, List.any_eq_true, Bool.not_eq_true', List.any_eq_false,
        List.mem_filter, decide_eq_true_eq, Bool.not_eq_true, and_imp] at hin
      obtain ⟨⟨x, ⟨hx, -⟩, hword⟩, hdivides⟩ := hin
      exact ⟨a, z, rfl, by simpa using hclosed, hwrapped, h, ⟨x, hx, hword⟩, hdivides⟩
    · cases h
      cases hr
    · obtain ⟨-, -, -, -, -, -, -, -, -, hdescription⟩ := wrapping_spec h hr hfix
      exact absurd (hunwraps.symm.trans hdescription) (by decide)
    · cases h
      cases hr

/-- A fix that takes the parentheses of a loop header away. Nothing divides the header, and an `in`
stands in the parentheses. -/
structure Unwraps (c : Context) (text end_ : Text) (hdr : Segment) (a z : Nat) (fix : Fix) : Prop where
  mem : hdr ∈ c.outline.segments
  ends : ends? (headerTail c.outline hdr "for") = some (a, z)
  closed : Termination.hasUnterminated c.outline a z = false
  wrapped : c.outline.isWrapped (headerTail c.outline hdr "for")
  unwraps : ∃ before after, fix.Unwraps text a z before after
  loops : ∃ x ∈ ((headerTail c.outline hdr "for").drop 1).dropLast,
    c.outline.at_ x (·.isKeyword ["in"])
  undivided : ∀ x ∈ ((headerTail c.outline hdr "for").drop 1).dropLast,
    c.outline.nestingAt x = c.outline.nestingAt a + 1 → c.outline.at_ x (·.isPunct end_) = false

/-- What the rule finds is a loop header, and its fix may take the parentheses of the header away. -/
theorem exists_unwraps (h : c.ReadsWith text end_) {rule : Rule} {f : Finding}
    (hrule : rule.kind = forInParenthesization) (hf : f ∈ (runAll c [rule]).1)
    (hfix : f.fix = some fix) (hunwraps : fix.description = "Remove the parentheses") :
    ∃ hdr a z, Unwraps c text end_ hdr a z fix := by
  obtain ⟨rule', hmem, rs, hrs, r, hr, hremark⟩ := exists_remark_of_mem_runAll hf
  obtain rfl := List.mem_singleton.mp hmem
  rw [hrule] at hrs
  rw [hfix] at hremark
  obtain ⟨hdr, hhdr, here, hhere, hr⟩ := Remark.mem_collect hrs hr
  obtain ⟨a, z, hends, hclosed, hwrapped, hunwrap, hin, hdivides⟩ :=
    misgrouped_unwraps hhere hr hremark hunwraps
  obtain ⟨a', z', before, after, hends', htext⟩ := h.exists_unwraps hhdr hunwrap hr hremark hwrapped
  obtain ⟨rfl, rfl⟩ : a' = a ∧ z' = z := by simpa using hends'.symm.trans hends
  rw [h.ending] at hdivides
  exact ⟨hdr, a', z', hhdr, hends, hclosed, hwrapped, ⟨before, after, htext⟩, hin, hdivides⟩

/-- The tokens of a header that is in parentheses. -/
theorem exists_of_ends {o : Outline} {keyword : Text}
    (h : ends? (headerTail o s keyword) = some (a, z)) (haz : a < z) :
    s.kind = .controlHeader ∧ ∃ us k rest, us.length = keywordPlace s ∧
      s.indices = us ++ k :: a :: (rest ++ [z]) ∧ headerTail o s keyword = a :: (rest ++ [z]) ∧
      o.at_ k (·.isKeyword [keyword]) := by
  obtain ⟨rest, hrun, hlast⟩ := ends?_spec h
  obtain ⟨hkind, us, k, hlength, hindices, hkeyword⟩ := headerTail_spec hrun
  have hne : rest ≠ [] := by
    rintro rfl
    rw [hrun, List.getLast?_singleton, Option.some.injEq] at hlast
    omega
  obtain ⟨x, rest', rfl⟩ := List.exists_cons_of_ne_nil hne
  rw [hrun, List.getLast?_cons_cons] at hlast
  obtain ⟨inner, hinner⟩ := List.getLast?_eq_some_iff.mp hlast
  exact ⟨hkind, us, k, inner, hlength, by rw [hindices, hinner], by rw [hrun, hinner], hkeyword⟩

/-- The tokens in the parentheses are those between them. -/
theorem mem_inner_iff {us rest : List Nat} {k x : Nat}
    (hsorted : (us ++ k :: a :: (rest ++ [z])).Pairwise (· < ·)) :
    x ∈ rest ↔ x ∈ us ++ k :: a :: (rest ++ [z]) ∧ a < x ∧ x < z := by
  obtain ⟨-, htail, hknown⟩ := List.pairwise_append.mp hsorted
  rw [List.pairwise_cons, List.pairwise_cons, List.pairwise_append] at htail
  obtain ⟨hk, ha, -, -, hz⟩ := htail
  constructor
  · intro hx
    exact ⟨by simp [hx], ha x (by simp [hx]), hz x hx z (by simp)⟩
  · rintro ⟨hx, hax, hxz⟩
    have hka := hk a (by simp)
    have hus : x ∉ us := fun hx => (hknown x hx a (by simp)).not_gt hax
    simpa [hus, hax.ne', hxz.ne, (hka.trans hax).ne'] using hx

/-! ### The outline of the new text -/

namespace Unwraps

variable {hdr : Segment} (h : Unwraps c text end_ hdr a z fix) (hreads : c.ReadsWith text end_)
include h hreads

theorem closes (hopens : hdr.opensBlock) : Closes (lexemes text) z := by
  obtain ⟨before, after, hunwraps⟩ := h.unwraps
  obtain ⟨-, hlast, -⟩ := hreads.opens_header h.mem h.ends
  rw [hlast]
  refine hreads.closes_of_opensBlock h.mem hopens fun l hl => ?_
  exact hreads.closed h.closed (hlast ▸ hunwraps.lt.le) (hlast ▸ Nat.le_refl z) hl

/-- No terminator stands right inside the parentheses. -/
theorem not_ends {x : Nat} (hax : a < x) (hxz : x < z)
    (hlevel : c.outline.nestingAt x = c.outline.nestingAt a + 1) :
    c.outline.at_ x (·.isPunct end_) = false := by
  obtain ⟨before, after, hunwraps⟩ := h.unwraps
  obtain ⟨-, us, k, rest, -, hindices, hrun, -⟩ := exists_of_ends h.ends hunwraps.lt
  by_contra hdivide
  have hdivide : c.outline.at_ x (·.isPunct end_) := by simpa using hdivide
  have hloud : Loud (tokenize text).toArray x := by
    rw [Outline.at_, hreads.tokens] at hdivide
    obtain ⟨t, ht, hpunct⟩ := tokenIs_iff.mp hdivide
    simp only [Lexeme.isPunct, Bool.and_eq_true, decide_eq_true_eq] at hpunct
    exact ⟨t, ht, by simp [Lexeme.isTrivia, TokenKind.isTrivia, hpunct.1]⟩
  have hmem := h.mem
  have hparens := (isWrapped_spec h.wrapped h.ends).2
  have hsorted := (hreads.segment_sound hmem).inOrder.pairwise
  rw [hreads.outline] at hmem hparens hlevel
  have hx := mem_indices_of_level hmem (by simp [hindices]) (by simp [hindices]) hunwraps.opener
    hparens hloud hax hxz hlevel
  rw [hindices] at hx hsorted
  rw [← hreads.outline] at hlevel
  have := h.undivided x (by
    rw [hrun]
    simpa using (mem_inner_iff hsorted).mpr ⟨hx, hax, hxz⟩) hlevel
  exact absurd (hdivide.symm.trans this) (by decide)

/-- The outlines of the text and of the text without the parentheses. -/
theorem exists_bared {text' : Text} (hspares : fix.Spares text)
    (htext : text' = text.take fix.span.start ++ fix.insertion ++ text.drop fix.span.stop)
    (hpaired : c.outline.AllPaired) (hopens : hdr.opensBlock)
    (hcomment : ∀ i t, a < i → i < z → c.outline.token? i = some t → t.kind ≠ .comment)
    (hcarries : c.outline.CarriesOn a z) :
    ∃ hdr' place, c.outline.Bared (Outline.ofTokens (tokenize text') end_) hdr hdr' a z place := by
  obtain ⟨before, after, hunwraps⟩ := h.unwraps
  obtain ⟨hkind, us, k, rest, hlength, hindices, hrun, hkeyword⟩ :=
    exists_of_ends h.ends hunwraps.lt
  have hsorted := (hreads.segment_sound h.mem).inOrder.pairwise
  rw [hindices] at hsorted
  have hcode : ∃ l ∈ between (lexemes text) (a + 1) z, l.isSpace = false := by
    obtain ⟨x, hx, hword⟩ := h.loops
    rw [hrun] at hx
    obtain ⟨-, hax, hxz⟩ := (mem_inner_iff hsorted).mp (show x ∈ rest by simpa using hx)
    rw [Outline.at_, hreads.tokens] at hword
    obtain ⟨l, hl, hword⟩ := exists_of_tokenIs (p := fun l => l.isKeyword ["in"]) hword
    simp only [Lexeme.isKeyword, Bool.and_eq_true, decide_eq_true_eq] at hword
    exact ⟨l, mem_between_of hax hxz hl, by simp [Lexeme.isSpace, hword.1]⟩
  obtain ⟨lead, inner, trail, front', back', opener, closer, hbares, hwhole, hplace, hnew⟩ :=
    hunwraps.exists_bares (h.closes hreads hopens) hspares hcode fun l hl => by
      obtain ⟨m, ham, hmz, hm⟩ := mem_between hl
      obtain ⟨t, ht, rfl⟩ := token_of_lexeme hm
      exact hcomment m t ham hmz (by rwa [Outline.token?, hreads.tokens])
  have hlexemes : lexemes text' = (lexemes text).take a ++ front' ++ inner ++ back' ++
      (lexemes text).drop (z + 1) := by
    rw [htext, hnew]
    exact hbares.isLexed
  have hfront : a = ((lexemes text).take a).length :=
    (List.length_take_of_le hunwraps.opens.lt.le).symm
  have htail : ∃ tail, hdr.indices = us ++ [k] ++ tail ∧ tail.head? = some a ∧
      tail.getLast? = some z :=
    ⟨a :: rest ++ [z], by simp [hindices], rfl, List.getLast?_concat⟩
  have hmem := h.mem
  have hends := fun x => h.not_ends hreads (x := x)
  have hparens := (isWrapped_spec h.wrapped h.ends).2
  rw [hreads.outline] at *
  exact Outline.exists_bared hbares ((tokenize_map_toLexeme text).trans hwhole)
    ((tokenize_map_toLexeme text').trans hlexemes) hfront hplace hpaired hmem hkind hopens htail
    (lead_lt_of_keywordPlace hlength) (keyword_plain hmem hkind hindices hlength hkeyword)
    ⟨k, by simp, hkeyword⟩ hparens hcarries hends

end Unwraps

/-- The new header is a header of the same keyword, and the run behind it is the old one without the
parentheses. -/
theorem headerTail_bared {o o' : Outline} {s' : Segment} {place : Nat → Nat} {keyword : Text}
    (h : o.Bared o' s s' a z place) (hloud : ∀ i ∈ s'.indices, Loud o'.tokens i)
    (hsorted : s.indices.Pairwise (· < ·)) (haz : a < z)
    (hends : ends? (headerTail o s keyword) = some (a, z)) :
    (headerTail o' s' keyword).map place = ((headerTail o s keyword).drop 1).dropLast := by
  obtain ⟨hkind, us, k, rest, hlength, hindices, hrun, hkeyword⟩ := exists_of_ends hends haz
  rw [hindices] at hsorted
  obtain ⟨-, htail, hknown⟩ := List.pairwise_append.mp hsorted
  rw [List.pairwise_cons, List.pairwise_cons, List.pairwise_append] at htail
  obtain ⟨hk, ha, -, -, hz⟩ := htail
  have hkept : s'.indices.map place = us ++ k :: rest := by
    have hother {indices : List Nat} (h : ∀ x ∈ indices, x ≠ a ∧ x ≠ z) :
        indices.filter (fun i => i ≠ a && i ≠ z) = indices :=
      List.filter_eq_self.mpr fun x hx => by simpa using h x hx
    have hus : us.filter _ = us := hother fun x hx =>
      ⟨(hknown x hx a (by simp)).ne, (hknown x hx z (by simp)).ne⟩
    have hword : [k].filter _ = [k] := hother fun x hx => by
      rw [List.mem_singleton.mp hx]
      exact ⟨(hk a (by simp)).ne, (hk z (by simp)).ne⟩
    have hrest : rest.filter _ = rest := hother fun x hx =>
      ⟨(ha x (by simp [hx])).ne', (hz x hx z (by simp)).ne⟩
    rw [h.indices, hindices, show us ++ k :: a :: (rest ++ [z]) = us ++ [k] ++ [a] ++ rest ++ [z] by
      simp]
    simp only [List.filter_append, hus, hword, hrest]
    simp
  obtain ⟨us', tail', hindices', rfl, htail'⟩ := List.map_eq_append_iff.mp hkept
  obtain ⟨k', rest', rfl, rfl, rfl⟩ := List.map_eq_cons_iff.mp htail'
  have hsame : s'.toHead = s.toHead := by
    rw [h.header]
    rfl
  have hkeyword' : o'.at_ k' (·.isKeyword [keyword]) := by
    obtain ⟨t, ht, hcode⟩ := hloud k' (by simp [hindices'])
    obtain ⟨-, -, u, hu, hukind, hutext⟩ := h.code k' t ht hcode
    rw [Outline.at_, tokenIs_of_getElem? hu] at hkeyword
    rw [Outline.at_, tokenIs_of_getElem? ht]
    simpa only [Lexeme.isKeyword, hukind, hutext] using hkeyword
  rw [headerTail_append ((congrArg Head.kind hsame).trans hkind) hindices' (by
    rw [List.length_map] at hlength
    rw [hlength, keywordPlace, keywordPlace, hsame]), if_pos hkeyword', hrun]
  simp

/-- Applying a fix that takes the parentheses of a loop header away keeps the loop: for any text whose
brackets are all paired, any terminator, and a header that opens a block, with no comment in the
parentheses, the code tokens of the new text are the old ones without the two parentheses, the header
is the old one without them and opens the same block, all other segments have their tokens and kinds,
and the same braces open closures. Nothing right inside the parentheses may open a block without them
or end a line of code. -/
theorem fixes_unwrap (text filePath terminator : Text) (lookahead : Value) (contextLines : Int)
    (options : Options) (severity : Option Severity) {f : Finding} {fix : Fix} {hdr : Segment}
    {a z : Nat} {closer : Token} :
    let context (text : Text) := Context.ofTokens (tokenize text) filePath lookahead
      (.text terminator) (.int contextLines)
    let before := (context text).outline
    let fixed := applyFixes text [f]
    let after := (context fixed.text).outline
    before.AllPaired →
    f ∈ (runAll (context text) [forInParenthesization.create options severity]).1 →
    f.fix = some fix → fix.description = "Remove the parentheses" →
    hdr ∈ before.segments → ends? (headerTail before hdr "for") = some (a, z) →
    before.token? z = some closer → fix.span.stop = closer.stop → hdr.opensBlock →
    (∀ i t, a < i → i < z → before.token? i = some t → t.kind ≠ .comment) →
    fix.Spares text → before.CarriesOn a z →
    fixed.skipped = [] ∧ fixed.appliedCount = 1 ∧ before.isWrapped (headerTail before hdr "for") ∧
      ∃ hdr' place b, before.Bared after hdr hdr' a z place ∧
        (headerTail after hdr' "for").map place = ((headerTail before hdr "for").drop 1).dropLast ∧
        hdr'.opensBlock ∧ hdr'.boundary = some b ∧ after.at_ b (·.isMark '{') ∧
        hdr.boundary = some (place b) := by
  intro context before fixed after hpaired hf hfix hunwraps hhdr hends hcloser hstop hopens hcomment
    hspares hcarries
  have hreads (t : Text) : (context t).ReadsWith t terminator := ⟨sourceText_tokenize t, rfl, rfl⟩
  have hrule : (forInParenthesization.create options severity).kind = forInParenthesization := rfl
  obtain ⟨s, i, j, hw⟩ := exists_unwraps (hreads text) hrule hf hfix hunwraps
  obtain ⟨us, vs, htext⟩ := hw.unwraps
  -- The header at hand is the one of the fix: it ends with the same token.
  obtain ⟨hl, -, hend⟩ := (hreads text).token hcloser
  have hlength := (List.getElem?_eq_some_iff.mp hl).1
  obtain ⟨l, hl', -⟩ := exists_of_tokenIs (p := fun l => l.isMark ')') htext.closer
  have hlength' := (List.getElem?_eq_some_iff.mp hl').1
  have hjz := (isLexed_lexemes text).offset_inj (i := j + 1) (j := z + 1) (by omega) (by omega)
    (htext.stop.symm.trans (hstop.trans hend))
  obtain rfl : j = z := by omega
  obtain rfl : s = hdr := ofTokens_eq_of_last hw.mem hhdr
    (((hreads text).opens_header hw.mem hw.ends).2.1.symm.trans
      ((hreads text).opens_header hhdr hends).2.1)
  obtain ⟨rfl, -⟩ : i = a ∧ j = j := by simpa using hw.ends.symm.trans hends
  obtain ⟨hskipped, hcount, hnew⟩ := applyFixes_single (suppressed_of_mem_runAll hf) hfix (by
    rw [htext.stop]
    exact (offset_le_length _ _).trans (congrArg List.length (lexemes_join text)).le)
  obtain ⟨hdr', place, hbared⟩ :=
    hw.exists_bared (hreads text) hspares hnew hpaired hopens hcomment hcarries
  have hsound := (hreads fixed.text).segment_sound hbared.mem
  have hopens' : hdr'.opensBlock := (congrArg Segment.opensBlock hbared.header).symm.trans hopens
  obtain ⟨b, hblock⟩ := Scan.exists_blockAt hbared.mem hopens'
  have hboundary : hdr'.boundary = some b := by
    rw [hblock.segment]
    rfl
  refine ⟨hskipped, hcount, hw.wrapped, hdr', place, b, hbared, ?_, hopens', hboundary, hblock.mark, ?_⟩
  · exact headerTail_bared hbared hsound.inOrder.loud
      ((hreads text).segment_sound hhdr).inOrder.pairwise htext.lt hends
  · rw [hbared.header]
    simp [Segment.rename, hboundary]

/-- A loop whose header goes on behind a line break. -/
theorem fixes_unwrap_values :
    let text : Text := "for (x in y\n .z) \x7b\n\x7d"
    let context (text : Text) := Context.ofTokens (tokenize text)
    let before := (context text).outline
    let found := (runAll (context text) [forInParenthesization.create]).1
    found.length = 1 ∧ ∀ f ∈ found, (applyFixes text [f]).text = "for x in y\n .z \x7b\n\x7d" ∧
      ∃ hdr ∈ before.segments, ∃ hdr' place b,
        before.Bared (context (applyFixes text [f]).text).outline hdr hdr' 2 12 place ∧
        hdr'.opensBlock ∧ hdr'.boundary = some b ∧ hdr.boundary = some (place b) := by
  intro text context before found
  have hfound : ∀ f ∈ found, f.fix.isSome ∧
      (∀ fix ∈ f.fix, fix.description = "Remove the parentheses" ∧ fix.span.stop = 16 ∧
        (∀ t ∈ lastInside text fix.span, t.isLineComment = false ∧ t.text ≠ [.char '/']) ∧
        (fix.span.slice text).countP Sym.isBreak ≤ fix.insertion.countP Sym.isBreak) ∧
      (applyFixes text [f]).text = "for x in y\n .z \x7b\n\x7d" := by decide +kernel
  refine ⟨by decide +kernel, fun f hf => ?_⟩
  obtain ⟨hsome, hfixes, htext⟩ := hfound f hf
  obtain ⟨fix, hfix⟩ := Option.isSome_iff_exists.mp hsome
  obtain ⟨hunwraps, hstop, hlast, hbreaks⟩ := hfixes fix hfix
  obtain ⟨hdr, hhdr, hends, hopens⟩ : ∃ hdr ∈ before.segments,
      ends? (headerTail before hdr "for") = some (2, 12) ∧ hdr.opensBlock := by decide +kernel
  obtain ⟨closer, hcloser, hclose⟩ : ∃ closer, before.token? 12 = some closer ∧ closer.stop = 16 :=
    Option.map_eq_some_iff.mp (by decide +kernel)
  have hcode : tokenIs before.tokens (·.isTrivia) 7 = false ∧
      tokenIs before.tokens (·.isTrivia) 10 = false ∧ tokenIs before.tokens (·.isTrivia) 9 ∧
      carriesOn before.tokens 7 10 := by decide +kernel
  have hinside : ∀ x < 12, 2 < x → tokenIs before.tokens (·.isMark '{') x = false ∧
      (tokenIs before.tokens (·.kind = .newline) x → x = 8) ∧
      tokenIs before.tokens (·.kind = .comment) x = false := by decide +kernel
  have hcarries : before.CarriesOn 2 12 := by
    refine ⟨fun x hax hxz _ => (hinside x hxz hax).1,
      fun p x n hap hpx hxn hnz _ hbreak hp hn hquiet => ?_⟩
    obtain rfl := (hinside x (hxn.trans hnz) (hap.trans hpx)).2.1 hbreak
    obtain ⟨t, ht, hloud⟩ := hn
    have hn : n ≠ 9 := by
      rintro rfl
      exact absurd ((tokenIs_of_getElem? ht).symm.trans hcode.2.2.1) (by simp [hloud])
    have h7 : ¬p < 7 := fun hlt => by simpa [hcode.1] using hquiet 7 hlt (by omega)
    have h10 : ¬10 < n := fun hlt => by simpa [hcode.2.1] using hquiet 10 (by omega) hlt
    obtain rfl : p = 7 := by omega
    obtain rfl : n = 10 := by omega
    exact hcode.2.2.2
  obtain ⟨-, -, -, hdr', place, b, hbared, -, hopens', hboundary, -, hsame⟩ :=
    fixes_unwrap text "<input>" ";" (.int 3) 2 [] none (by decide +kernel) hf hfix hunwraps hhdr hends
      hcloser (hstop.trans hclose.symm) hopens
      (fun i t hax hxz ht hcomment => by
        have := (hinside i hxz hax).2.2
        rw [tokenIs_of_getElem? ht] at this
        simp [hcomment] at this)
      ⟨fun _ t ht => (hlast t ht).1, fun _ t ht hslash => absurd hslash (hlast t ht).2, fun _ => hbreaks⟩
      hcarries
  exact ⟨htext, hdr, hhdr, hdr', place, b, hbared, hopens', hboundary, hsame⟩

end Rule.Parentheses

end HouseStyle
