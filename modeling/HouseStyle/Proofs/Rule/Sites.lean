import HouseStyle.Proofs.Rule.Placed

/-! The places that fixes take: what stands behind a segment, the run of a header behind its keyword,
and a word in a comment. Segments are apart or one stands between the braces of a closure of the
other, so two places are clear of each other unless the outer one is the run of a header. -/

namespace HouseStyle

open Outline Rule

/-- A span strictly inside another one. -/
def Span.Inside (s t : Span) : Prop := t.start < s.start ∧ s.stop < t.stop

/-- The rules that put parentheses around headers or take them away. -/
def Rule.groupingRules : List Text :=
  ["control-condition-parens", "for-in-parenthesization"].map Text.ofString

/-- Spans of fixes, each with the id of its rule, that start apart and are clear of each other, or one
is strictly inside the other, which belongs to a grouping rule. -/
def Rule.Tidy (f g : Text × Span) : Prop :=
  f.2.start ≠ g.2.start ∧
    (f.2.overlaps g.2 = false ∨ f.2.Inside g.2 ∧ g.1 ∈ groupingRules ∨
      g.2.Inside f.2 ∧ f.1 ∈ groupingRules)

theorem Rule.Tidy.symm {f g : Text × Span} (h : Tidy f g) : Tidy g f := by
  refine ⟨h.1.symm, ?_⟩
  rw [Span.overlaps_comm]
  exact h.2.imp_right Or.symm

section

variable {a b : Text} {s t : Span}

theorem Rule.Tidy.of_le (hlt : s.start < t.start) (hle : s.stop ≤ t.start) : Tidy (a, s) (b, t) := by
  refine ⟨hlt.ne, .inl ?_⟩
  rw [Span.overlaps_comm]
  exact Span.Follows.not_overlaps ⟨hlt, hle⟩

theorem Rule.Tidy.of_ge (hlt : t.start < s.start) (hle : t.stop ≤ s.start) : Tidy (a, s) (b, t) :=
  (of_le hlt hle).symm

theorem Rule.Tidy.of_inside (ha : a ∈ groupingRules) (hstart : s.start < t.start)
    (hstop : t.stop < s.stop) : Tidy (a, s) (b, t) :=
  ⟨hstart.ne, .inr (.inr ⟨⟨hstart, hstop⟩, ha⟩)⟩

end

/-- What a fix is about. -/
inductive Site where
  | ending (s : Segment)
  | header (s : Segment)
  | comment (t : Token)
  deriving DecidableEq

namespace Site

/-- The segment that a site belongs to. -/
def segment? : Site → Option Segment
  | ending s => some s
  | header s => some s
  | comment _ => none

theorem eq_of_segment? {x : Site} {s : Segment} (h : x.segment? = some s) :
    x = ending s ∨ x = header s := by
  cases x with
  | ending s' => exact .inl (congrArg ending (Option.some.inj h))
  | header s' => exact .inr (congrArg header (Option.some.inj h))
  | comment t => cases h

/-- The rule that fixes a site. -/
def rule (o : Outline) : Site → Text
  | ending s => if s.opensBlock then "brace-placement" else "statement-termination"
  | header s =>
    if Parentheses.headerTail o s "if" = [] then "for-in-parenthesization"
    else "control-condition-parens"
  | comment _ => "comment-markers"

variable (text : Text) (o : Outline)

/-- Where a fix of a site may stand. A fix behind a segment goes no further than the next code and
over no comment, one of a header goes from behind a keyword to the end of the segment, and one of a
comment is strictly inside it and not empty. -/
inductive Spans : Site → Span → Prop
  | ending {s : Segment} {span : Span} (b : Nat) (hs : s ∈ o.segments) (hlt : s.last < b)
    (hb : b ≤ (lexemes text).length) (hloud : ∀ k, Loud o.tokens k → s.last < k → b ≤ k)
    (hcomment : ∀ m l, s.last < m → m < b → (lexemes text)[m]? = some l → l.kind ≠ .comment)
    (hstart : span.start = offset (lexemes text) (s.last + 1))
    (hstop : span.stop = offset (lexemes text) b) : Spans (.ending s) span
  | header {s : Segment} {span : Span} (k i : Nat) (hs : s ∈ o.segments)
    (hadj : [k, i] <:+: s.indices) (hkeyword : tokenIs o.tokens (·.kind = .keyword) k)
    (hstart : span.start = offset (lexemes text) i)
    (hstop : span.stop = offset (lexemes text) (s.last + 1)) : Spans (.header s) span
  | comment {t : Token} {span : Span} (m : Nat) (ht : (tokenize text)[m]? = some t)
    (hkind : t.kind = .comment) (hstart : offset (lexemes text) m < span.start)
    (hlt : span.start < span.stop) (hstop : span.stop ≤ offset (lexemes text) (m + 1)) :
    Spans (.comment t) span

end Site

namespace Context.ReadsWith

variable {c : Context} {text end_ : Text} (h : c.ReadsWith text end_)
include h

theorem loud_lt {k : Nat} (hk : Loud c.outline.tokens k) : k < (lexemes text).length := by
  rw [h.tokens] at hk
  obtain ⟨l, hl, -⟩ := exists_of_loud hk
  exact (List.getElem?_eq_some_iff.mp hl).1

theorem offset_lt_of_loud {i k : Nat} (hk : Loud c.outline.tokens k) (hki : k < i) :
    offset (lexemes text) k < offset (lexemes text) i :=
  (isLexed_lexemes text).offset_lt hki (h.loud_lt hk)

theorem loud {s : Segment} (hs : s ∈ c.outline.segments) {k : Nat} (hk : k ∈ s.indices) :
    Loud c.outline.tokens k :=
  (h.sound.segments s hs).inOrder.loud k hk

theorem le_last {s : Segment} (hs : s ∈ c.outline.segments) {k : Nat} (hk : k ∈ s.indices) :
    k ≤ s.last :=
  (h.sound.segments s hs).inOrder.le_getLast hk (h.sound.segments s hs).getLast?_eq

theorem pairwise {s : Segment} (hs : s ∈ c.outline.segments) : s.indices.Pairwise (· < ·) :=
  (h.sound.segments s hs).inOrder.pairwise

/-- An opening bracket is no keyword. -/
theorem not_keyword_of_partner {k p : Nat} (hpair : c.outline.partner? k = some p) :
    tokenIs c.outline.tokens (·.kind = .keyword) k = false := by
  have hmark {mark : Char} (h : tokenIs c.outline.tokens (·.isMark mark) k) :
      tokenIs c.outline.tokens (·.kind = .keyword) k = false := by
    obtain ⟨t, ht, hmark⟩ := tokenIs_iff.mp h
    simp only [Lexeme.isMark, Lexeme.isPunct, Bool.and_eq_true, decide_eq_true_eq] at hmark
    rw [tokenIs_of_getElem? ht, hmark.1]
    rfl
  rcases h.sound.partners k p hpair with ⟨-, pair, -, hopener, -⟩ | ⟨-, pair, -, -, hcloser⟩
  · exact hmark hopener
  · exact hmark hcloser

/-! ### Sites of segments -/

/-- The spans of both sites of a segment begin behind its first token and go no further than the code
behind it. -/
theorem reach {s : Segment} {x : Site} {span : Span} (hx : x.segment? = some s)
    (hspan : x.Spans text c.outline span) :
    s ∈ c.outline.segments ∧ offset (lexemes text) s.first < span.start ∧
      ∀ k, Loud c.outline.tokens k → s.last < k → span.stop ≤ offset (lexemes text) k := by
  have hbehind (hs : s ∈ c.outline.segments) {a : Nat} (ha : s.first < a) :
      offset (lexemes text) s.first < offset (lexemes text) a :=
    h.offset_lt_of_loud (h.loud hs (h.sound.segments s hs).first_mem) ha
  rcases Site.eq_of_segment? hx with rfl | rfl
  · cases hspan with
    | ending b hs hlt hb hloud hcomment hstart hstop =>
      refine ⟨hs, ?_, fun k hk hlast => ?_⟩
      · rw [hstart]
        exact hbehind hs (Nat.lt_add_one_of_le (h.sound.segments s hs).first_le_last)
      · rw [hstop]
        exact offset_le_offset _ (hloud k hk hlast)
  · cases hspan with
    | header k i hs hadj hkeyword hstart hstop =>
      refine ⟨hs, ?_, fun m hm hlast => ?_⟩
      · obtain ⟨hk, -⟩ := mem_of_adjacent hadj
        have hki : k < i := List.rel_of_pairwise_cons ((h.pairwise hs).sublist hadj.sublist) (by simp)
        rw [hstart]
        exact hbehind hs (((h.sound.segments s hs).first_le hk).trans_lt hki)
      · rw [hstop]
        exact offset_le_offset _ hlast

omit h in
theorem header_mem_groupingRules (s : Segment) : (Site.header s).rule c.outline ∈ groupingRules := by
  simp only [Site.rule]
  split <;> decide

/-- Sites of two segments are tidy: the segments are apart, or one stands in a closure of the other,
which the fix behind the other leaves out, and the fix of its header has whole or leaves out. -/
theorem tidy_of_first_lt {s s' : Segment} {x x' : Site} {span span' : Span}
    (hx : x.segment? = some s) (hx' : x'.segment? = some s')
    (hspan : x.Spans text c.outline span) (hspan' : x'.Spans text c.outline span')
    (hfirst : s.first < s'.first) : Tidy (x.rule c.outline, span) (x'.rule c.outline, span') := by
  obtain ⟨hs, -, hstop⟩ := h.reach hx hspan
  obtain ⟨hs', hstart', hstop'⟩ := h.reach hx' hspan'
  have hloud' := h.loud hs' (h.sound.segments s' hs').first_mem
  have hbetween : s.last < s'.first ∨ ∃ c' p, [c', p] <:+: s.indices ∧
      c.outline.partner? c' = some p ∧ c' < s'.first ∧ s'.last < p := by
    rw [h.outline] at hs hs' ⊢
    exact ofTokens_apart_or_between hs hs' hfirst
  rcases hbetween with hapart | ⟨opener, closer, hadj, hpair, hopener, hcloser⟩
  · have := hstop _ hloud' hapart
    have := span.start_le_stop
    apply Tidy.of_le <;> omega
  obtain ⟨hopens, hcloses⟩ := mem_of_adjacent hadj
  have hend := hstop' _ (h.loud hs hcloses) hcloser
  have hle := span'.start_le_stop
  rcases Site.eq_of_segment? hx with rfl | rfl
  · cases hspan with
    | ending b hs hlt hb hloud hcomment hbegin =>
      have := h.offset_lt_of_loud (h.loud hs hcloses) (Nat.lt_add_one_of_le (h.le_last hs hcloses))
      apply Tidy.of_ge <;> omega
  · cases hspan with
    | header k i hs hadj' hkeyword hbegin hfinish =>
      obtain ⟨hk, hi⟩ := mem_of_adjacent hadj'
      rcases Nat.lt_or_ge opener i with hlt | hle'
      · -- The keyword is no brace, so the closure ends before the keyword.
        have hpk : closer ≤ k := by
          rcases le_or_le_of_adjacent (h.pairwise hs) hadj' hopens with hle | hle
          · rcases le_or_le_of_adjacent (h.pairwise hs) hadj hk with hge | hge
            · obtain rfl : opener = k := by omega
              rw [h.not_keyword_of_partner hpair] at hkeyword
              cases hkeyword
            · exact hge
          · omega
        have hki : k < i := List.rel_of_pairwise_cons ((h.pairwise hs).sublist hadj'.sublist) (by simp)
        have := h.offset_lt_of_loud (h.loud hs hk) hki
        have := offset_le_offset (lexemes text) hpk
        apply Tidy.of_ge <;> omega
      · have := offset_le_offset (lexemes text) hle'
        have := h.offset_lt_of_loud (h.loud hs hopens) hopener
        have := h.offset_lt_of_loud (h.loud hs hcloses) (Nat.lt_add_one_of_le (h.le_last hs hcloses))
        apply Tidy.of_inside (header_mem_groupingRules s) <;> omega

/-! ### Comments -/

omit h in
/-- A word in a comment is clear of what stands behind a segment, which goes over no comment. -/
theorem tidy_ending_comment {s : Segment} {t : Token} {span word : Span}
    (hspan : (Site.ending s).Spans text c.outline span)
    (hword : (Site.comment t).Spans text c.outline word) :
    Tidy ((Site.ending s).rule c.outline, span) ((Site.comment t).rule c.outline, word) := by
  cases hspan with
  | ending b hs hlt hb hloud hcomment hstart hstop =>
    cases hword with
    | comment m ht hkind hbegin hnonempty hend =>
      have := span.start_le_stop
      rcases Nat.lt_or_ge s.last m with hm | hm
      · have hbm : b ≤ m := by
          by_contra hmb
          exact hcomment m _ hm (by omega) (tokenize_getElem? ht).1 hkind
        have := offset_le_offset (lexemes text) hbm
        apply Tidy.of_le <;> omega
      · have := offset_succ_le (lexemes text) (Nat.lt_add_one_of_le hm)
        apply Tidy.of_ge <;> omega

/-- A word in a comment is clear of the run of a header or inside it. -/
theorem tidy_header_comment {s : Segment} {t : Token} {span word : Span}
    (hspan : (Site.header s).Spans text c.outline span)
    (hword : (Site.comment t).Spans text c.outline word) :
    Tidy ((Site.header s).rule c.outline, span) ((Site.comment t).rule c.outline, word) := by
  cases hspan with
  | header k i hs hadj hkeyword hstart hstop =>
    cases hword with
    | comment m ht hkind hbegin hnonempty hend =>
      have := span.start_le_stop
      have hlast := h.loud hs (h.sound.segments s hs).last_mem
      rcases Nat.lt_trichotomy m s.last with hm | rfl | hm
      · rcases Nat.lt_or_ge m i with hmi | him
        · have := offset_succ_le (lexemes text) hmi
          apply Tidy.of_ge <;> omega
        · have := offset_le_offset (lexemes text) him
          have := offset_succ_le (lexemes text) hm
          have := h.offset_lt_of_loud hlast (Nat.lt_add_one _)
          apply Tidy.of_inside (header_mem_groupingRules s) <;> omega
      · rw [h.tokens] at hlast
        obtain ⟨l', hl', hcode⟩ := exists_of_loud hlast
        obtain rfl := Option.some.inj ((tokenize_getElem? ht).1.symm.trans hl')
        simp [Lexeme.isTrivia, TokenKind.isTrivia, hkind] at hcode
      · have := offset_succ_le (lexemes text) hm
        apply Tidy.of_le <;> omega

omit h in
/-- Words in two comments are clear of each other. -/
theorem tidy_comment_comment {t t' : Token} {word word' : Span} (hne : t ≠ t')
    (hword : (Site.comment t).Spans text c.outline word)
    (hword' : (Site.comment t').Spans text c.outline word') :
    Tidy ((Site.comment t).rule c.outline, word) ((Site.comment t').rule c.outline, word') := by
  cases hword with
  | comment m ht hkind hbegin hnonempty hend =>
    cases hword' with
    | comment m' ht' hkind' hbegin' hnonempty' hend' =>
      have hmm : m ≠ m' := by
        rintro rfl
        exact hne (Option.some.inj (ht.symm.trans ht'))
      rcases Nat.lt_or_gt_of_ne hmm with hlt | hlt
      · have := offset_succ_le (lexemes text) hlt
        apply Tidy.of_le <;> omega
      · have := offset_succ_le (lexemes text) hlt
        apply Tidy.of_ge <;> omega

/-! ### All sites -/

/-- The fix behind a segment begins where the fix of its header stops. -/
theorem tidy_header_ending {s : Segment} {span span' : Span}
    (hspan : (Site.header s).Spans text c.outline span)
    (hspan' : (Site.ending s).Spans text c.outline span') :
    Tidy ((Site.header s).rule c.outline, span) ((Site.ending s).rule c.outline, span') := by
  cases hspan with
  | header k i hs hadj hkeyword hstart hstop =>
    cases hspan' with
    | ending b hs hlt hb hloud hcomment hbegin hend =>
      have hi := (mem_of_adjacent hadj).2
      have := h.offset_lt_of_loud (h.loud hs hi) (Nat.lt_add_one_of_le (h.le_last hs hi))
      apply Tidy.of_le <;> omega

theorem tidy_of_segments {s s' : Segment} {x x' : Site} {span span' : Span}
    (hx : x.segment? = some s) (hx' : x'.segment? = some s')
    (hspan : x.Spans text c.outline span) (hspan' : x'.Spans text c.outline span') (hne : x ≠ x') :
    Tidy (x.rule c.outline, span) (x'.rule c.outline, span') := by
  rcases Nat.lt_trichotomy s.first s'.first with hlt | heq | hlt
  · exact h.tidy_of_first_lt hx hx' hspan hspan' hlt
  · obtain ⟨hs, -⟩ := h.reach hx hspan
    obtain ⟨hs', -⟩ := h.reach hx' hspan'
    obtain rfl : s = s' := by
      by_contra hss
      have hfirst := (h.sound.segments s hs).first_mem
      have hfirst' := (h.sound.segments s' hs').first_mem
      rw [h.outline] at hs hs'
      exact ofTokens_disjoint hs hs' hss _ hfirst (heq ▸ hfirst')
    rcases Site.eq_of_segment? hx with rfl | rfl <;>
      rcases Site.eq_of_segment? hx' with rfl | rfl
    · exact absurd rfl hne
    · exact (h.tidy_header_ending hspan' hspan).symm
    · exact h.tidy_header_ending hspan hspan'
    · exact absurd rfl hne
  · exact (h.tidy_of_first_lt hx' hx hspan' hspan hlt).symm

/-- Fixes of different sites are tidy. -/
theorem tidy_of_ne {x x' : Site} {span span' : Span} (hspan : x.Spans text c.outline span)
    (hspan' : x'.Spans text c.outline span') (hne : x ≠ x') :
    Tidy (x.rule c.outline, span) (x'.rule c.outline, span') := by
  cases x with
  | ending s =>
    cases x' with
    | ending s' => exact h.tidy_of_segments rfl rfl hspan hspan' hne
    | header s' => exact h.tidy_of_segments rfl rfl hspan hspan' hne
    | comment t => exact tidy_ending_comment hspan hspan'
  | header s =>
    cases x' with
    | ending s' => exact h.tidy_of_segments rfl rfl hspan hspan' hne
    | header s' => exact h.tidy_of_segments rfl rfl hspan hspan' hne
    | comment t => exact h.tidy_header_comment hspan hspan'
  | comment t =>
    cases x' with
    | ending s => exact (tidy_ending_comment hspan' hspan).symm
    | header s => exact (h.tidy_header_comment hspan' hspan).symm
    | comment t' => exact tidy_comment_comment (fun heq => hne (heq ▸ rfl)) hspan hspan'

end Context.ReadsWith
end HouseStyle
