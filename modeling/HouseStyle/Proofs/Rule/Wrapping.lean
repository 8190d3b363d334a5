import HouseStyle.Proofs.Edit.Parens
import HouseStyle.Proofs.Outline.Parenthesized
import HouseStyle.Proofs.Rule.Terminated
import HouseStyle.Proofs.Rule.Unwrapping

/-! Putting the parentheses around a condition, or around a loop header with clauses. Where the
keyword stands on the line of what is wrapped, the parentheses are all that changes: no other token is
read otherwise, the header keeps its block, all other segments stay, and no rule remarks on the header
again. Where a line break stands between them the parenthesis does not carry the line on as the token
behind it did, and the keyword is left alone. -/

namespace HouseStyle

open Outline Rule

/-! ### What comes before a fix -/

/-- The last token before a span that is neither a blank nor a comment. -/
def lastBefore (text : Text) (span : Span) : Option Token :=
  ((tokenize text).filter fun t =>
    t.stop ≤ span.start && !(t.kind = .whitespace || t.kind = .comment)).getLast?

/-- No line break stands between a fix and the code before it. -/
def Fix.OnLine (fix : Fix) (text : Text) : Prop :=
  ∀ t ∈ lastBefore text fix.span, t.kind ≠ .newline

instance (fix : Fix) (text : Text) : Decidable (fix.OnLine text) :=
  inferInstanceAs (Decidable (∀ t ∈ lastBefore text fix.span, t.kind ≠ .newline))

theorem exists_getLast?_filter {α : Type} {l : List α} {q : α → Bool} {i : Nat} {t : α}
    (ht : l[i]? = some t) (hq : q t) :
    ∃ m u, i ≤ m ∧ l[m]? = some u ∧ q u ∧ (l.filter q).getLast? = some u := by
  induction l using List.reverseRecOn with
  | nil => simp at ht
  | append_singleton l x ih =>
    have hi : i ≤ l.length := by
      have := (List.getElem?_eq_some_iff.mp ht).1
      rw [List.length_append, List.length_singleton] at this
      omega
    by_cases hx : q x
    · exact ⟨l.length, x, hi, by simp, hx, by simp [hx]⟩
    · rcases hi.lt_or_eq with hlt | rfl
      · rw [List.getElem?_append_left hlt] at ht
        obtain ⟨m, u, him, hu, hqu, hlast⟩ := ih ht
        refine ⟨m, u, him, ?_, hqu, by simpa [hx] using hlast⟩
        rwa [List.getElem?_append_left (List.getElem?_eq_some_iff.mp hu).1]
      · rw [List.getElem?_concat_length] at ht
        cases ht
        exact absurd hq hx

variable {text : Text}

/-- Where only trivia stands between a keyword and a fix on its line, there is no line break. -/
theorem Fix.OnLine.sameLine {fix : Fix} (h : fix.OnLine text) {known : List Nat} {p a : Nat}
    (hp : known.getLast? = some p) (ha : a < (lexemes text).length)
    (hstart : fix.span.start = offset (lexemes text) a)
    (hquiet : ∀ m l, p < m → m < a → (lexemes text)[m]? = some l → l.isTrivia) :
    Scan.SameLine (tokenize text) known a := by
  have hlexed := isLexed_lexemes text
  intro i t p' hp' hpi hia ht hnewline
  obtain rfl := Option.some.inj (hp.symm.trans hp')
  have hbefore : t.stop ≤ fix.span.start := by
    rw [hstart, (tokenize_getElem? ht).2.2]
    exact offset_le_offset _ hia
  obtain ⟨m, u, him, hu, hcode, hlast⟩ := exists_getLast?_filter
    (q := fun t => t.stop ≤ fix.span.start && !(t.kind = .whitespace || t.kind = .comment)) ht
    (by simp [hbefore, hnewline])
  refine h u hlast ?_
  simp only [Bool.and_eq_true, decide_eq_true_eq, Bool.not_eq_true', Bool.or_eq_false_iff,
    decide_eq_false_iff_not] at hcode
  obtain ⟨hstop, hspace, hcomment⟩ := hcode
  obtain ⟨hlexeme, -, hend⟩ := tokenize_getElem? hu
  have hma : m < a := by
    by_contra hge
    have hlt := hlexed.offset_lt (show a < m + 1 by omega) ha
    rw [hstart, hend] at hstop
    omega
  have htrivia := hquiet m _ (by omega) hma hlexeme
  have htrivia : u.kind.isTrivia := htrivia
  cases hkind : u.kind <;> simp_all [TokenKind.isTrivia]

/-- Nothing that the last token of a header could run into stands before its block. -/
theorem Context.ReadsWith.closes_of_opensBlock {c : Context} {end_ : Text} (h : c.ReadsWith text end_)
    {s : Segment} (hs : s ∈ c.outline.segments) (hopens : s.opensBlock)
    (hclosed : ∀ l, (lexemes text)[s.last]? = some l → l.unterminated = false) :
    Closes (lexemes text) s.last := by
  have hsound := h.segment_sound hs
  have hlabel : ¬(s.label ∧ s.boundary = some s.last) := fun hlabel => by
    simp [(hsound.label hlabel.1).2] at hopens
  refine hsound.closes_of_ending hlabel hclosed fun b l hboundary hl => .inr ⟨'{', by simp, ?_⟩
  rw [h.outline] at hs
  obtain ⟨k, hblock⟩ := Scan.exists_blockAt hs hopens
  have hk : s.boundary = some k := by
    rw [hblock.segment]
    rfl
  obtain rfl := Option.some.inj (hk.symm.trans hboundary)
  exact tokenIs_lexeme (p := fun l => l.isMark '{') hblock.mark hl

/-! ### The outline of the new text -/

namespace Rule.Parentheses

variable {list list' : List Token} {end_ keyword : Text} {hdr hdr' : Segment} {a z : Nat}

theorem isBracket_semicolon {t : Token} (h : t.isPunct ";") : isBracket t = false := by
  have hmark : t.kind = .punctuation ∧ t.text = (";" : Text) := by
    simpa [Lexeme.isPunct] using h
  have hne : ∀ pair ∈ brackets, (";" : Text) ≠ [.char pair.1] ∧ (";" : Text) ≠ [.char pair.2] := by
    decide
  rw [isBracket, List.any_eq_false]
  intro pair hpair
  simp [Lexeme.isMark, Lexeme.isPunct, hmark, hne pair hpair]

theorem lead_lt_of_keywordPlace {us : List Nat} {k : Nat} (h : us.length = keywordPlace hdr) :
    hdr.lead < (us ++ [k]).length := by
  rw [List.length_append, List.length_singleton, h, keywordPlace]
  split <;> omega

/-- The leading word of a control header and the keyword behind an `else` are no brackets. -/
theorem keyword_plain (hhdr : hdr ∈ (Outline.ofTokens list end_).segments)
    {us tail : List Nat} {k : Nat} (hkind : hdr.kind = .controlHeader)
    (hindices : hdr.indices = us ++ k :: tail) (hlength : us.length = keywordPlace hdr)
    (hkeyword : (Outline.ofTokens list end_).at_ k (·.isKeyword [keyword])) :
    ∀ x ∈ (us ++ [k]).drop hdr.lead, tokenIs list.toArray isBracket x = false := by
  have hplain {x : Nat} {t : Token} {words : List Text} (ht : list.toArray[x]? = some t)
      (hword : t.isKeyword words) : tokenIs list.toArray isBracket x = false := by
    rw [tokenIs_of_getElem? ht]
    simp only [Lexeme.isKeyword, Bool.and_eq_true, decide_eq_true_eq] at hword
    simp [isBracket, brackets, Lexeme.isMark, Lexeme.isPunct, hword.1]
  intro x hx
  obtain ⟨j, hj⟩ := List.mem_iff_getElem?.mp hx
  rw [List.getElem?_drop] at hj
  have hlt := (List.getElem?_eq_some_iff.mp hj).1
  rw [List.length_append, List.length_singleton] at hlt
  have hplace : us.length ≤ hdr.lead + 1 := by
    rw [hlength, keywordPlace]
    split <;> omega
  rcases Nat.lt_succ_iff_lt_or_eq.mp hlt with hbefore | hat
  · -- Only the leading word stands before the keyword.
    obtain rfl : j = 0 := by omega
    rw [Nat.add_zero] at hj hbefore
    have hled := (ofTokens_led (lasting_leads list.toArray) hhdr).resolve_left fun hnone => by
      rw [show hdr.kind = hdr.toHead.kind from rfl, hnone] at hkind
      cases hkind
    obtain ⟨i, t, hi, ht, -, hcontrol⟩ := hled
    rw [List.getElem?_append_left hbefore] at hj
    rw [hindices, List.getElem?_append_left hbefore] at hi
    obtain rfl := Option.some.inj (hj.symm.trans hi)
    exact hplain ht (kindOf_eq_controlHeader.mp (hcontrol.symm.trans hkind))
  · rw [hat, List.getElem?_concat_length] at hj
    cases hj
    obtain ⟨t, ht, hword⟩ := tokenIs_iff.mp hkeyword
    exact hplain ht hword

/-- The tokens of the run are tokens of the header, between its first one and its last one. -/
theorem mem_headerTail {tokens : Array Token} {o : Outline} (hinOrder : InOrder tokens hdr.indices)
    (hends : ends? (headerTail o hdr keyword) = some (a, z)) {x : Nat}
    (hx : x ∈ headerTail o hdr keyword) : x ∈ hdr.indices ∧ a ≤ x ∧ x ≤ z := by
  obtain ⟨rest, hrun, hlast⟩ := ends?_spec hends
  obtain ⟨-, us, k, -, hindices, -⟩ := headerTail_spec hrun
  rw [hrun] at hx hlast
  rw [hindices] at hinOrder ⊢
  refine ⟨by simp [hx], ?_, ?_⟩
  · have hsorted := (List.pairwise_append.mp hinOrder.pairwise).2.1
    rcases List.mem_cons.mp hx with rfl | hx
    · exact Nat.le_refl _
    · exact ((List.pairwise_cons.mp (List.pairwise_cons.mp hsorted).2).1 x hx).le
  · refine hinOrder.le_getLast (by simp [hx]) ?_
    rw [List.getLast?_append_of_ne_nil _ (List.cons_ne_nil _ _), List.getLast?_cons_cons, hlast]

section

variable (hpaired : (Outline.ofTokens list end_).AllPaired)
  (hhdr : hdr ∈ (Outline.ofTokens list end_).segments)
  (hends : ends? (headerTail (Outline.ofTokens list end_) hdr keyword) = some (a, z))
  (henc : Encloses list list' a z)
include hpaired hhdr hends henc

/-- The header with its parentheses. It opens a block, or a terminator that is no bracket divides
it. -/
theorem exists_parenthesized
    (hline : ∀ known, hdr.indices = known ++ headerTail (Outline.ofTokens list end_) hdr keyword →
      Scan.SameLine list known a)
    (hsort : hdr.opensBlock ∨ end_ = ";" ∧
      ∃ x ∈ headerTail (Outline.ofTokens list end_) hdr keyword,
        (Outline.ofTokens list end_).nestingAt x = (Outline.ofTokens list end_).nestingAt a ∧
          (Outline.ofTokens list end_).at_ x (·.isPunct end_)) :
    ∃ hdr', (Outline.ofTokens list end_).Parenthesized (Outline.ofTokens list' end_) hdr hdr' a z ∧
      hdr'.opensBlock = hdr.opensBlock ∧
      (hdr.opensBlock → hdr'.boundary = hdr.boundary.map (spread a z)) ∧
      headerTail (Outline.ofTokens list' end_) hdr' keyword =
        a :: (headerTail (Outline.ofTokens list end_) hdr keyword).map (spread a z) ++ [z + 2] ∧
      ∀ other ≠ keyword, headerTail (Outline.ofTokens list' end_) hdr' other = [] := by
  obtain ⟨rest, hrun, hlast⟩ := ends?_spec hends
  obtain ⟨hkind, us, k, hlength, hindices, hkeyword⟩ := headerTail_spec hrun
  have hsplit : hdr.indices = (us ++ [k]) ++ a :: rest := by simp [hindices]
  obtain ⟨m, htail, hmade⟩ := exists_tail hpaired hhdr hkind
    ⟨a :: rest, hsplit, rfl, hrun ▸ hlast⟩ (lead_lt_of_keywordPlace hlength)
    (keyword_plain hhdr hkind hindices hlength hkeyword)
  have hmade : Scan.BlockAt list end_ hdr m ∨ hdr.opensBlock = false ∧ Scan.CutAt list end_ hdr m := by
    rcases hmade with hblock | ⟨hclosed, hcut | hterminated⟩
    · exact .inl hblock
    · exact .inr ⟨hclosed, hcut⟩
    · -- The header of a loop has no terminator of its own.
      obtain ⟨rfl, x, hx, hlevel, hdivides⟩ := hsort.resolve_left (by simp [hclosed])
      have hplain : tokenIs list.toArray isBracket x = false := by
        obtain ⟨t, ht, hmark⟩ := tokenIs_iff.mp hdivides
        exact (tokenIs_of_getElem? ht).trans (isBracket_semicolon hmark)
      obtain ⟨hmem, hax, -⟩ :=
        mem_headerTail ((ofTokens_sound list ";").segments hdr hhdr).inOrder hends hx
      have hfor := htail.keyword_eq_for hpaired hmem hax hplain hdivides hlevel
      exact absurd ⟨hkind, hfor⟩ (Scan.not_for_of_terminated hhdr hterminated)
  obtain ⟨tail, boundary, htail', hboundary, hparens⟩ :=
    htail.parenthesized henc hpaired (hline _ (by rw [hrun, hsplit])) hmade
  obtain rfl : a :: rest = tail := List.append_cancel_left (hsplit.symm.trans htail')
  have hafter (other : Text) := @headerTail_append (Outline.ofTokens list' end_)
    { hdr.enclosed a z (us ++ [k]) (a :: rest) with boundary } (us.map (spread a z))
    (a :: (a :: rest).map (spread a z) ++ [z + 2]) (spread a z k) hkind
    (by simp [Segment.enclosed]) (by rw [List.length_map, hlength]; rfl) other
  have hword (other : Text) := henc.renames.tokenIs_map (·.isKeyword [other]) k
  refine ⟨_, hparens, rfl, hboundary, ?_, fun other hother => ?_⟩
  · rw [hafter, hrun]
    exact if_pos ((hword keyword).trans hkeyword)
  · rw [hafter]
    refine if_neg fun hkeyword' => hother ?_
    have hkeyword' := (hword other).symm.trans hkeyword'
    obtain ⟨t, ht, hthis⟩ := tokenIs_iff.mp hkeyword
    have hkeyword' := (tokenIs_of_getElem? ht).symm.trans hkeyword'
    simp only [Lexeme.isKeyword, Bool.and_eq_true, List.contains_iff_mem, List.mem_singleton]
      at hthis hkeyword'
    exact hkeyword'.2.symm.trans hthis.2

end

/-! ### What the rules say of a header in parentheses -/

variable {c : Context} {s : Segment} {r : Remark} {fix : Fix} {rs : List Remark}

theorem isWrapped_append {o : Outline} {run : List Nat} (hopener : o.at_ a (·.isMark '('))
    (hpartner : o.partner? a = some z) : o.isWrapped (a :: run ++ [z]) := by
  rw [Outline.isWrapped, List.getLast?_concat]
  simp [hopener, hpartner]

theorem unwrapped_nil (h : headerTail c.outline s "if" = [] ∨
    c.outline.isWrapped (headerTail c.outline s "if")) : unwrapped c s = .ok [] := by
  rcases h with h | h <;> simp [unwrapped, h, canWrap, ends?]

theorem misgrouped_nil (h : headerTail c.outline s "for" = []) : misgrouped c s = .ok [] := by
  simp [misgrouped, h, ends?]

theorem misgrouped_wrapped {run : List Nat} (h : headerTail c.outline s "for" = a :: run ++ [z])
    (hwrapped : c.outline.isWrapped (headerTail c.outline s "for"))
    (hdivides : ∃ x ∈ run, c.outline.nestingAt x = c.outline.nestingAt a + 1 ∧
      c.outline.at_ x (·.isPunct c.ending)) : misgrouped c s = .ok [] := by
  obtain ⟨x, hx, hlevel, hpunct⟩ := hdivides
  have hends : ends? (headerTail c.outline s "for") = some (a, z) := by
    rw [h, ends?, List.getLast?_concat]
    rfl
  have hany : (((headerTail c.outline s "for").drop 1).dropLast.filter
      (c.outline.nestingAt · = c.outline.nestingAt a + 1)).any
        (fun i => c.outline.at_ i (·.isPunct c.ending)) := by
    rw [List.any_eq_true]
    refine ⟨x, List.mem_filter.mpr ⟨?_, by simpa using hlevel⟩, hpunct⟩
    rw [h]
    simpa using hx
  simp only [misgrouped, hends, hwrapped, hany, if_true, Bool.not_true, Bool.and_false,
    Bool.false_eq_true, if_false, ite_self]

/-- A condition that is remarked on has a block behind it. -/
theorem unwrapped_opensBlock (h : unwrapped c s = .ok rs) (hr : r ∈ rs) : s.opensBlock := by
  simp only [unwrapped] at h
  split_ifs at h with hwrap
  · simp only [Bool.and_eq_true] at hwrap
    exact hwrap.1.1
  · cases h
    cases hr

/-- A loop header that is to be wrapped is divided by terminators. -/
theorem misgrouped_divides (h : misgrouped c s = .ok rs) (hr : r ∈ rs) (hfix : r.fix = some fix)
    (hwraps : fix.description ≠ "Remove the parentheses")
    (hends : ends? (headerTail c.outline s "for") = some (a, z)) :
    ∃ x ∈ headerTail c.outline s "for", c.outline.nestingAt x = c.outline.nestingAt a ∧
      c.outline.at_ x (·.isPunct c.ending) := by
  simp only [misgrouped, hends] at h
  split_ifs at h with hclosed hwrapped hin hclassic
  · cases h
    cases hr
  · obtain ⟨-, -, -, -, -, -, -, -, hdescription, -⟩ := unwrapping_spec h hr hfix
    exact absurd hdescription hwraps
  · cases h
    cases hr
  · obtain ⟨x, hx, hdivides⟩ := List.any_eq_true.mp hclassic
    obtain ⟨hx, hlevel⟩ := List.mem_filter.mp hx
    exact ⟨x, hx, by simpa using hlevel, hdivides⟩
  · cases h
    cases hr

/-! ### A fix that wraps -/

/-- A fix that puts a header from one token to another one in parentheses. -/
structure Wraps (c : Context) (end_ keyword : Text) (hdr : Segment) (a z : Nat) (fix : Fix) : Prop where
  mem : hdr ∈ c.outline.segments
  ends : ends? (headerTail c.outline hdr keyword) = some (a, z)
  closed : Termination.hasUnterminated c.outline a z = false
  wraps : ∃ first last, c.outline.token? a = some first ∧ c.outline.token? z = some last ∧
    Span.between first.start last.stop = .ok fix.span ∧
    fix.replacement = .text (.char '(' :: sourceOf c first.start last.stop ++ [.char ')'])
  sort : keyword = "if" ∧ hdr.opensBlock ∨ keyword = "for" ∧ end_ = ";" ∧
    ∃ x ∈ headerTail c.outline hdr keyword, c.outline.nestingAt x = c.outline.nestingAt a ∧
      c.outline.at_ x (·.isPunct end_)

/-- What one of the two rules finds, unless it takes parentheses away, wraps a header. -/
theorem exists_wraps (h : c.ReadsWith text end_) {rule : Rule} {f : Finding}
    (hrule : rule.kind = controlConditionParens ∨ rule.kind = forInParenthesization ∧ end_ = ";")
    (hf : f ∈ (runAll c [rule]).1) (hfix : f.fix = some fix)
    (hwraps : fix.description ≠ "Remove the parentheses") :
    ∃ keyword hdr a z, Wraps c end_ keyword hdr a z fix := by
  obtain ⟨rule', hmem, rs, hrs, r, hr, hremark⟩ := exists_remark_of_mem_runAll hf
  obtain rfl := List.mem_singleton.mp hmem
  rw [hfix] at hremark
  rcases hrule with hrule | ⟨hrule, hterminator⟩
  · rw [hrule] at hrs
    obtain ⟨hdr, hhdr, here, hhere, hr⟩ := Remark.mem_collect hrs hr
    obtain ⟨message, hwrap, hclosed⟩ := unwrapped_spec hhere hr
    obtain ⟨a, z, first, last, hends, hfirst, hlast, hspan, hnew, -⟩ := wrapping_spec hwrap hr hremark
    exact ⟨"if", hdr, a, z, hhdr, hends, hclosed a z hends, ⟨first, last, hfirst, hlast, hspan, hnew⟩,
      .inl ⟨rfl, unwrapped_opensBlock hhere hr⟩⟩
  · rw [hrule] at hrs
    obtain ⟨hdr, hhdr, here, hhere, hr⟩ := Remark.mem_collect hrs hr
    obtain ⟨⟨hunwrap, -⟩ | ⟨message, hwrap⟩, hclosed⟩ := misgrouped_spec hhere hr
    · obtain ⟨-, -, -, -, -, -, -, -, hdescription, -⟩ := unwrapping_spec hunwrap hr hremark
      exact absurd hdescription hwraps
    obtain ⟨a, z, first, last, hends, hfirst, hlast, hspan, hnew, -⟩ := wrapping_spec hwrap hr hremark
    have hdivides := misgrouped_divides hhere hr hremark hwraps hends
    rw [h.ending] at hdivides
    exact ⟨"for", hdr, a, z, hhdr, hends, hclosed a z hends, ⟨first, last, hfirst, hlast, hspan, hnew⟩,
      .inr ⟨rfl, hterminator, hdivides⟩⟩

namespace Wraps

variable (h : Wraps c end_ keyword hdr a z fix) (hreads : c.ReadsWith text end_)
include h hreads

/-- The fix writes the parentheses around the header. -/
theorem text_eq : fix.span.start = offset (lexemes text) a ∧
    fix.span.stop = offset (lexemes text) (z + 1) ∧
    text.take fix.span.start ++ fix.insertion ++ text.drop fix.span.stop =
      joined (withParens (lexemes text) a z) := by
  obtain ⟨first, last, hfirst, hlast, hspan, hnew⟩ := h.wraps
  obtain ⟨hstart, hstop, -⟩ := Span.between_spec hspan
  obtain ⟨-, hbegin, -⟩ := hreads.token hfirst
  obtain ⟨-, -, hend⟩ := hreads.token hlast
  have hle := (hreads.opens_header h.mem h.ends).1
  refine ⟨hstart.trans hbegin, hstop.trans hend, ?_⟩
  rw [hstart, hstop, Fix.insertion_eq hnew, hbegin, hend, hreads.sourceOf_offset (by omega),
    joined_withParens, show joined (lexemes text) = text from lexemes_join text]

/-- Nothing that the last token of the header could run into stands behind it. -/
theorem closes : Closes (lexemes text) z := by
  have hsound := hreads.segment_sound h.mem
  obtain ⟨hle, hlast, -⟩ := hreads.opens_header h.mem h.ends
  have hclosed : ∀ l, (lexemes text)[hdr.last]? = some l → l.unterminated = false := fun l hl =>
    hreads.closed h.closed (hlast ▸ hle) (hlast ▸ Nat.le_refl z) hl
  rw [hlast]
  rcases h.sort with ⟨-, hopens⟩ | ⟨-, rfl, -⟩
  · exact hreads.closes_of_opensBlock h.mem hopens hclosed
  · have hkind := (hreads.header h.mem h.ends).1
    exact hsound.closes (fun hlabel => (hsound.label hlabel.1).1 hkind) hclosed

theorem sameLine (hline : fix.OnLine text) :
    ∀ known, hdr.indices = known ++ headerTail c.outline hdr keyword →
      Scan.SameLine (tokenize text) known a := by
  intro known hknown
  obtain ⟨rest, hrun, -⟩ := ends?_spec h.ends
  obtain ⟨-, us, k, -, hindices, hkeyword⟩ := headerTail_spec hrun
  obtain rfl : known = us ++ [k] := by
    rw [hrun, hindices] at hknown
    exact (List.append_cancel_right ((List.append_assoc us [k] (a :: rest)).trans hknown)).symm
  have horder := (hreads.segment_sound h.mem).inOrder
  rw [hindices] at horder
  rw [Outline.at_, hreads.tokens] at hkeyword
  obtain ⟨-, hquiet, hopens⟩ := horder.opens_of_keyword hkeyword
  exact hline.sameLine List.getLast?_concat hopens.lt (h.text_eq hreads).1 hquiet

end Wraps

/-- Applying a fix that wraps a condition, or a loop header with clauses, is all there is to it: for
any text whose brackets are all paired, and any terminator that the rule has, the tokens of the new
text are the old ones with the two parentheses, the header has its block as before, all other segments
have their tokens and kinds, and neither rule remarks on the header again. The fix must stand on the
line on which the code before it ends. -/
theorem fixes_wrap (text filePath terminator : Text) (lookahead : Value) (contextLines : Int)
    (options : Options) (severity : Option Severity) (kind : RuleKind) {f : Finding} {fix : Fix} :
    let context (text : Text) := Context.ofTokens (tokenize text) filePath lookahead
      (.text terminator) (.int contextLines)
    let before := (context text).outline
    let fixed := applyFixes text [f]
    let after := (context fixed.text).outline
    before.AllPaired →
    kind = controlConditionParens ∨ kind = forInParenthesization ∧ terminator = ";" →
    f ∈ (runAll (context text) [kind.create options severity]).1 → f.fix = some fix →
    fix.description ≠ "Remove the parentheses" → fix.OnLine text →
    fixed.skipped = [] ∧ fixed.appliedCount = 1 ∧
      ∃ keyword hdr hdr' a z first last,
        hdr ∈ before.segments ∧ ends? (headerTail before hdr keyword) = some (a, z) ∧
        before.token? a = some first ∧ before.token? z = some last ∧
        fix.span.start = first.start ∧ fix.span.stop = last.stop ∧
        (tokenize fixed.text).map (·.toLexeme) =
          withParens ((tokenize text).map (·.toLexeme)) a z ∧
        headerTail after hdr' keyword =
          a :: (headerTail before hdr keyword).map (spread a z) ++ [z + 2] ∧
        after.isWrapped (headerTail after hdr' keyword) ∧
        hdr'.opensBlock = hdr.opensBlock ∧
        (hdr.opensBlock → hdr'.boundary = hdr.boundary.map (spread a z)) ∧
        List.Forall₂ (fun s s' => if s = hdr then s' = hdr' else s.Kept before after s')
          before.segments after.segments ∧
        unwrapped (context fixed.text) hdr' = .ok [] ∧
        misgrouped (context fixed.text) hdr' = .ok [] := by
  intro context before fixed after hpaired hkind hf hfix hwraps hline
  have hreads (t : Text) : (context t).ReadsWith t terminator := ⟨sourceText_tokenize t, rfl, rfl⟩
  have hrule : (kind.create options severity).kind = controlConditionParens ∨
      (kind.create options severity).kind = forInParenthesization ∧ terminator = ";" := hkind
  obtain ⟨keyword, hdr, a, z, hw⟩ := exists_wraps (hreads text) hrule hf hfix hwraps
  obtain ⟨hstart, hstop, hnew⟩ := hw.text_eq (hreads text)
  obtain ⟨hskipped, hcount, htext⟩ := applyFixes_single (suppressed_of_mem_runAll hf) hfix (by
    rw [hstop]
    exact (offset_le_length _ _).trans (congrArg List.length (lexemes_join text)).le)
  have htext : fixed.text = joined (withParens (lexemes text) a z) := htext.trans hnew
  obtain ⟨hle, -, hopens, -⟩ := (hreads text).opens_header hw.mem hw.ends
  have hcloses := hw.closes (hreads text)
  have henc : Encloses (tokenize text) (tokenize fixed.text) a z :=
    htext ▸ tokenize_encloses hopens hcloses hle
  obtain ⟨hdr', hparens, hblock, hboundary, htail, hother⟩ := exists_parenthesized hpaired hw.mem
    hw.ends henc (hw.sameLine (hreads text) hline) (hw.sort.imp And.right And.right)
  have hparens : before.Parenthesized after hdr hdr' a z := hparens
  have htail : headerTail after hdr' keyword =
    a :: (headerTail before hdr keyword).map (spread a z) ++ [z + 2] := htail
  obtain ⟨first, last, hfirst, hlast, hspan, -⟩ := hw.wraps
  obtain ⟨hbegin, hend, -⟩ := Span.between_spec hspan
  have hopener : after.at_ a (·.isMark '(') := by
    obtain ⟨t, ht, hmark⟩ := henc.opener
    exact (tokenIs_of_getElem? (List.getElem?_toArray.trans ht)).trans hmark
  have hwrapped : after.isWrapped (headerTail after hdr' keyword) := by
    rw [htail]
    exact isWrapped_append hopener hparens.parens
  refine ⟨hskipped, hcount, keyword, hdr, hdr', a, z, first, last, hw.mem, hw.ends, hfirst, hlast,
    hbegin, hend, ?_, htail, hwrapped, hblock, hboundary, ?_, ?_, ?_⟩
  · rw [tokenize_map_toLexeme, tokenize_map_toLexeme, htext]
    exact lexemes_withParens hopens hcloses hle
  · rw [hparens.segments, List.forall₂_map_right_iff]
    refine List.forall₂_same.mpr fun s _ => ?_
    unfold reformed
    split
    · rfl
    · exact .of_renaming henc.renames s
  · refine unwrapped_nil ?_
    by_cases hif : keyword = "if"
    · exact .inr (hif ▸ hwrapped)
    · exact .inl (hother _ fun h => hif h.symm)
  · by_cases hfor : keyword = "for"
    · subst hfor
      obtain ⟨-, rfl, x, hx, hlevel, hdivides⟩ := hw.sort.resolve_left fun h =>
        absurd h.1 (by decide)
      obtain ⟨-, hax, hxz⟩ :=
        mem_headerTail ((hreads text).segment_sound hw.mem).inOrder hw.ends hx
      refine misgrouped_wrapped htail hwrapped ⟨spread a z x, List.mem_map_of_mem hx, ?_, ?_⟩
      · rw [spread_of_mem hax hxz]
        calc after.nestingAt (x + 1) = before.nestingAt x + 1 := hparens.levels x hax hxz
          _ = before.nestingAt a + 1 := by rw [hlevel]
          _ = after.nestingAt a + 1 := by rw [hparens.level]
      · exact (henc.renames.tokenIs_map (·.isPunct ";") x).trans hdivides
    · exact misgrouped_nil (hother _ fun h => hfor h.symm)

/-- A condition that goes on behind a line break. -/
theorem fixes_wrap_condition :
    let text : Text := "if a &&\n b \x7b\n\x7d"
    let found := (runAll (Context.ofTokens (tokenize text)) [controlConditionParens.create]).1
    found.length = 1 ∧ ∀ f ∈ found, (applyFixes text [f]).text = "if (a &&\n b) \x7b\n\x7d" ∧
      (applyFixes text [f]).skipped = [] := by
  intro text found
  have hfound : ∀ f ∈ found, f.fix.isSome ∧
      (∀ fix ∈ f.fix, fix.description ≠ "Remove the parentheses" ∧ fix.OnLine text) ∧
      (applyFixes text [f]).text = "if (a &&\n b) \x7b\n\x7d" := by decide +kernel
  refine ⟨by decide +kernel, fun f hf => ?_⟩
  obtain ⟨hsome, hfixes, htext⟩ := hfound f hf
  obtain ⟨fix, hfix⟩ := Option.isSome_iff_exists.mp hsome
  obtain ⟨hwraps, hline⟩ := hfixes fix hfix
  exact ⟨htext, (fixes_wrap text "<input>" ";" (.int 3) 2 [] none controlConditionParens
    (by decide +kernel) (.inl rfl) hf hfix hwraps hline).1⟩

end Rule.Parentheses

end HouseStyle
