import HouseStyle.Proofs.Rule.Crowded
import HouseStyle.Proofs.Rule.Settled
import HouseStyle.Proofs.Token.Ending

/-! Putting in the fixes of all comment markers at once. The words of every comment settle, a comment in
other words is still one comment, and nothing else is read otherwise. So a second run finds the same
number of markers and has nothing left to fix. -/

namespace HouseStyle

open Rule

/-! ### Lexemes -/

/-- A comment in other words is read as one, and everything around it as before. -/
theorem IsLexed.reword {us ls : List Lexeme} {l : Lexeme} {a b : Sym} {x x' : Text}
    (h : IsLexed (us ++ l :: ls)) (hkind : l.kind = .comment) (hl : l.text = a :: b :: x)
    (hx : Reworded x x') : IsLexed (us ++ { l with text := a :: b :: x' } :: ls) := by
  have hrest : IsLexed (l :: ls) := h.append_right
  have hnext := hrest.next_reworded hkind hl hx hrest.head?_of_line hrest.nil_of_unterminated
  have hnew : IsLexed ({ l with text := a :: b :: x' } :: ls) := by
    rw [IsLexed, joined_cons, lexemes_append_of_next (List.cons_ne_nil _ _), hrest.cons.2.2]
    rw [hnext, Lexeme.cut, hkind]
  have htrivia : l.isTrivia := by simp [Lexeme.isTrivia, TokenKind.isTrivia, hkind]
  have hhead : (joined ({ l with text := a :: b :: x' } :: ls)).head? = (joined (l :: ls)).head? := by
    rw [joined_cons, joined_cons, hl]
    rfl
  refine h.glue hnew (fun p hp => ?_) (fun _ _ _ hne => absurd hhead hne) fun _ => ?_
  · obtain ⟨ys, rfl⟩ := List.getLast?_eq_some_iff.mp hp
    rw [List.append_assoc] at h
    exact seam_of_head? h.append_right ⟨l, rfl, htrivia⟩ hhead
  · rw [joined_cons, joined_cons, hl]
    exact ((hx.keep b).keep _).grave_mem id

namespace Rule.Markers

/-- A lexeme, the words of a comment being settled. -/
inductive SettlesTo (markers : List Text) : Lexeme → Lexeme → Prop
  | code {l : Lexeme} (hkind : l.kind ≠ .comment) : SettlesTo markers l l
  | comment {l : Lexeme} {x' : Text} (hkind : l.kind = .comment) (h : Settles markers l.text x') :
    SettlesTo markers l { l with text := x' }

variable {markers : List Text} {ls ls' : List Lexeme}

/-- Lexemes whose comments settle are read from their text. -/
theorem isLexed_of_settles (hall : List.Forall₂ (SettlesTo markers) ls ls') {us : List Lexeme}
    (h : IsLexed (us ++ ls)) : IsLexed (us ++ ls') := by
  induction hall generalizing us with
  | nil => exact h
  | @cons l l' ls ls' hl hall ih =>
    -- What stands behind the lexeme settles first.
    have hrest : IsLexed (us ++ l :: ls') := by
      have := @ih (us ++ [l]) (by simpa using h)
      simpa using this
    cases hl with
    | code hkind => exact hrest
    | comment hkind hx =>
      obtain ⟨b, x, hl, hb⟩ := h.append_right.exists_of_comment hkind
      rw [hl] at hx
      obtain ⟨y, rfl, hy⟩ := hx.of_plain (by decide +kernel)
      obtain ⟨x', rfl, hx'⟩ := hy.of_plain (by rcases hb with rfl | rfl <;> decide +kernel)
      exact hrest.reword hkind hl hx'.reworded

/-! ### Remarks -/

theorem inComment_eq (t : Token) : inComment markers t =
    if t.kind = .comment then remarksFrom markers t.start 0 none t.text else [] := rfl

/-- The remarks on the comments of a text. -/
def remarksOn (markers : List Text) (cursor : Cursor) (ls : List Lexeme) : List Remark :=
  (placed cursor ls).flatMap (inComment markers)

theorem remarksOn_cons (cursor : Cursor) (l : Lexeme) : remarksOn markers cursor (l :: ls) =
    (if l.kind = .comment then remarksFrom markers cursor.offset 0 none l.text else []) ++
      remarksOn markers (cursor.after l.text) ls := rfl

variable (hwords : AreWords markers)
include hwords

theorem bounds_of_mem_remarksOn {cursor : Cursor} {r : Remark} {fix : Fix}
    (hr : r ∈ remarksOn markers cursor ls) (hfix : r.fix = some fix) :
    cursor.offset ≤ fix.span.start ∧ fix.span.stop ≤ cursor.offset + (joined ls).length := by
  induction ls generalizing cursor with
  | nil => cases hr
  | cons l ls ih =>
    rw [joined_cons, List.length_append]
    rw [remarksOn_cons] at hr
    rcases List.mem_append.mp hr with hr | hr
    · split_ifs at hr
      · have := bounds_of_mem hwords hr hfix
        omega
      · cases hr
    · have hrest := ih hr
      rw [Cursor.after] at hrest
      dsimp only at hrest
      omega

/-- The words that the fixes take stand one behind another. -/
theorem remarksOn_pairwise (cursor : Cursor) : (remarksOn markers cursor ls).Pairwise fun r r' =>
    ∀ fix ∈ r.fix, ∀ fix' ∈ r'.fix, fix'.span.Follows fix.span := by
  induction ls generalizing cursor with
  | nil => exact .nil
  | cons l ls ih =>
    refine List.pairwise_append.mpr ⟨inComment_pairwise (fun marker hmarker => (hwords marker hmarker).1) _,
      ih _, fun r hr r' hr' fix hfix fix' hfix' => ?_⟩
    rw [inComment_eq] at hr
    split_ifs at hr
    · obtain ⟨-, hlt, hstop⟩ := bounds_of_mem hwords hr hfix
      obtain ⟨hstart, -⟩ := bounds_of_mem_remarksOn hwords hr' hfix'
      rw [Cursor.after] at hstart
      dsimp only at hstart hstop
      constructor <;> omega
    · cases hr

/-- On comments that have settled there are as many remarks as before, and no fixes. -/
theorem remarksOn_settled (hall : List.Forall₂ (SettlesTo markers) ls ls') (cursor cursor' : Cursor) :
    (remarksOn markers cursor' ls').length = (remarksOn markers cursor ls).length ∧
      ∀ r ∈ remarksOn markers cursor' ls', r.fix = none := by
  induction hall generalizing cursor cursor' with
  | nil => exact ⟨rfl, by simp [remarksOn, placed]⟩
  | @cons l l' ls ls' hl hall ih =>
    obtain ⟨hlength, hnone⟩ := ih (cursor.after l.text) (cursor'.after l'.text)
    rw [remarksOn_cons, remarksOn_cons, List.length_append, List.length_append, hlength]
    cases hl with
    | code hkind =>
      rw [if_neg hkind, if_neg hkind]
      exact ⟨rfl, fun r hr => hnone r (by simpa using hr)⟩
    | @comment x' hkind hx =>
      obtain ⟨hthis, hfix⟩ := @Settles.remarksFrom_eq markers hwords l.text x' hx cursor.offset
        cursor'.offset 0 0 none none (fun _ => rfl) fun _ => rfl
      rw [if_pos hkind, if_pos hkind, hthis]
      exact ⟨rfl, fun r hr => (List.mem_append.mp hr).elim (hfix r) (hnone r)⟩

/-- The fixes of the remarks on all comments, put in, settle the comments. -/
theorem exists_settled {text : Text} {cursor : Cursor} {ps : List Proposal}
    (hdrop : text.drop cursor.offset = joined ls)
    (hps : ps.map (·.fix) = (remarksOn markers cursor ls).filterMap (·.fix)) :
    ∃ ls', List.Forall₂ (SettlesTo markers) ls ls' ∧ splice text cursor.offset ps = joined ls' := by
  induction ls generalizing cursor ps with
  | nil =>
    obtain rfl := List.map_eq_nil_iff.mp hps
    exact ⟨[], .nil, hdrop⟩
  | cons l ls ih =>
    rw [remarksOn_cons, List.filterMap_append] at hps
    obtain ⟨ps, qs, rfl, hps, hqs⟩ := List.map_eq_append_iff.mp hps
    have hdrop' : text.drop (cursor.after l.text).offset = joined ls := by
      rw [Cursor.after, ← List.drop_drop, hdrop, joined_cons, List.drop_left]
    obtain ⟨ls', hall, hsplice⟩ := ih hdrop' hqs
    have hstart : ∀ q ∈ qs.head?, (cursor.after l.text).offset ≤ q.span.start := by
      intro q hq
      have hmem : q.fix ∈ qs.map (·.fix) := List.mem_map_of_mem (List.mem_of_mem_head? hq)
      rw [hqs] at hmem
      obtain ⟨r, hr, hfix⟩ := List.mem_filterMap.mp hmem
      exact (bounds_of_mem_remarksOn hwords hr hfix).1
    by_cases hkind : l.kind = .comment
    · obtain ⟨x', hx⟩ := exists_settles markers l.text
      rw [if_pos hkind] at hps
      refine ⟨_, .cons (.comment hkind hx) hall, ?_⟩
      have hthis := @Settles.splice_eq markers 0 none hwords l.text x' hx text (joined ls) cursor.offset ps
        qs (fun _ => rfl) hdrop hps hstart
      exact hthis.trans (congrArg _ hsplice)
    · rw [if_neg hkind] at hps
      obtain rfl := List.map_eq_nil_iff.mp hps
      refine ⟨_, .cons (.code hkind) hall, ?_⟩
      rw [List.nil_append, splice_append rfl hdrop hstart]
      exact congrArg _ hsplice

end Rule.Markers

/-! ### The rule -/

/-- What a rule finds alone: for each of its remarks something with the same fix. -/
theorem Rule.runAll_of_remarks {c : Context} {n : Int} {rule : Rule} {remarks : List Remark}
    (hlines : c.contextLines = .int n) (h : rule.kind.remarks rule.options c = .ok remarks) :
    (runAll c [rule]).2 = [] ∧ (∀ f ∈ (runAll c [rule]).1, f.suppressed = false) ∧
      ((runAll c [rule]).1.map (·.fix)).Perm (remarks.map (·.fix)) := by
  obtain ⟨found, hfound, hall⟩ := findings_of_remarks hlines h
  have hrun : runAll c [rule] = (Finding.sort found, []) := by simp [runAll, outcomes, hfound]
  have hfix : List.Forall₂ (fun r f => r.fix = f.fix) remarks found :=
    hall.imp fun r f hf => (finding_fix hf).symm
  refine ⟨by rw [hrun], fun f hf => suppressed_of_mem_runAll hf, ?_⟩
  rw [hrun]
  refine ((List.mergeSort_perm found _).map _).trans (.of_eq ?_)
  exact (List.forall₂_eq_eq_eq ▸ List.forall₂_map_left_iff.mpr
    (List.forall₂_map_right_iff.mpr hfix)).symm

namespace Rule.Markers

theorem ofOption_texts (markers : List Text) :
    ofOption (.texts markers) = .ok (markers.map Text.upper) := by
  change List.mapM _ (markers.map Value.text) = _
  rw [List.mapM_map]
  exact mapM_eq_map (fun _ => rfl) markers

theorem remarks_eq {options : Options} {c : Context} {text : Text} {markers : List Text}
    (hoption : options.lookup (.text "markers") = some (.texts markers)) (hne : markers ≠ [])
    (htokens : c.tokens.toList = tokenize text) : commentMarkers.remarks options c =
      .ok (remarksOn (markers.map Text.upper) {} (lexemes text)) := by
  simp only [commentMarkers, hoption, Option.getD_some, ofOption_texts, htokens]
  change Except.ok _ = Except.ok _
  rw [if_neg (by simpa using hne)]
  rfl

/-- Lexemes that settle are the same but for the texts of comments. -/
theorem SettlesTo.same {markers : List Text} {l l' : Lexeme} (h : SettlesTo markers l l') :
    l'.kind = l.kind ∧ l'.unterminated = l.unterminated ∧ (l.kind ≠ .comment → l'.text = l.text) := by
  cases h with
  | code hkind => exact ⟨rfl, rfl, fun _ => rfl⟩
  | comment hkind h => exact ⟨rfl, rfl, fun hcode => absurd hkind hcode⟩

/-- The fixes of all comment markers do their work at once. For any text and any markers that are words
of ASCII none of the fixes is skipped, the tokens of the new text are the old ones but for the texts of
comments, and a second run finds the same number of markers, none of them with a fix. -/
theorem fixes_normalize (text filePath : Text) (lookahead terminator : Value) (contextLines : Int)
    (options : Options) (severity : Option Severity) (markers : List Text) :
    let rule := commentMarkers.create options severity
    let context (text : Text) := Context.ofTokens (tokenize text) filePath lookahead terminator
      (.int contextLines)
    let found := runAll (context text) [rule]
    let fixed := applyFixes text found.1
    let again := runAll (context fixed.text) [rule]
    rule.option? "markers" = some (.texts markers) → markers ≠ [] →
    (∀ marker ∈ markers, marker ≠ [] ∧ ∀ s ∈ marker, s.isAsciiWord) →
      found.2 = [] ∧ fixed.skipped = [] ∧
      List.Forall₂ (fun t t' => t'.kind = t.kind ∧ t'.unterminated = t.unterminated ∧
        (t.kind ≠ .comment → t'.text = t.text)) (tokenize text) (tokenize fixed.text) ∧
      again.2 = [] ∧ again.1.length = found.1.length ∧ ∀ f ∈ again.1, f.fix = none := by
  intro rule context found fixed again hoption hne hmarkers
  have hwords := (AreWords.of_isAsciiWord hmarkers).upper
  have hremarks (t : Text) : rule.kind.remarks rule.options (context t) =
      .ok (remarksOn (markers.map Text.upper) {} (lexemes t)) :=
    remarks_eq hoption hne (by rfl)
  obtain ⟨hfailed, hopen, hfixes⟩ := runAll_of_remarks rfl (hremarks text)
  obtain ⟨hskipped, ps, hps, hspliced⟩ := @applyFixes_of_follows text found.1
    ((remarksOn (markers.map Text.upper) {} (lexemes text)).filterMap (·.fix)) hopen
    (by simpa [Function.comp_def] using hfixes.filterMap fun fix => fix)
    (fun fix hfix => by
      obtain ⟨r, hr, hfix⟩ := List.mem_filterMap.mp hfix
      have := (bounds_of_mem_remarksOn hwords hr hfix).2
      rw [show joined (lexemes text) = text from lexemes_join text] at this
      simpa using this)
    ((remarksOn_pairwise hwords {}).filterMap _ fun r r' h fix hfix fix' hfix' =>
      h fix hfix fix' hfix')
  obtain ⟨ls', hall, hjoined⟩ := @exists_settled _ (lexemes text) hwords text {} ps
    (lexemes_join text).symm hps
  have hlexemes : lexemes fixed.text = ls' := by
    rw [show fixed.text = joined ls' from hspliced.trans hjoined]
    exact @isLexed_of_settles _ _ _ hall [] (isLexed_lexemes text)
  obtain ⟨hfailed', -, hfixes'⟩ := runAll_of_remarks rfl (hremarks fixed.text)
  rw [hlexemes] at hfixes'
  obtain ⟨hlength, hnone⟩ := remarksOn_settled hwords hall {} {}
  refine ⟨hfailed, hskipped, ?_, hfailed', ?_, fun f hf => ?_⟩
  · have hsame := hall.imp fun l l' h => h.same
    rw [← hlexemes, ← tokenize_map_toLexeme, ← tokenize_map_toLexeme] at hsame
    exact List.forall₂_map_left_iff.mp (List.forall₂_map_right_iff.mp hsame)
  · calc again.1.length = (remarksOn (markers.map Text.upper) {} ls').length := by
          simpa using hfixes'.length_eq
      _ = (remarksOn (markers.map Text.upper) {} (lexemes text)).length := hlength
      _ = found.1.length := by simpa using hfixes.length_eq.symm
  · obtain ⟨r, hr, hfix⟩ := List.mem_map.mp (hfixes'.mem_iff.mp (List.mem_map_of_mem hf))
    rw [← hfix]
    exact hnone r hr

/-- A word with a long `s` goes to upper case, and one that is no marker without a colon stays. -/
theorem fixes_normalize_long :
    let rule := commentMarkers.create [(.text "markers", .texts ["todo", "STAT"])]
    let context (text : Text) := Context.ofTokens (tokenize text)
    let text : Text := "a /* ſtat: todo */"
    let found := runAll (context text) [rule]
    let fixed := applyFixes text found.1
    let again := runAll (context fixed.text) [rule]
    rule.option? "markers" = some (.texts ["todo", "STAT"]) ∧
      fixed.text = "a /* STAT: todo */" ∧ found.1.length = 1 ∧ fixed.skipped = [] ∧
      again.1.length = found.1.length ∧ ∀ f ∈ again.1, f.fix = none := by
  intro rule context text found fixed again
  have hoption : rule.option? "markers" = some (.texts ["todo", "STAT"]) := by decide +kernel
  obtain ⟨-, hskipped, -, -, hlength, hnone⟩ :=
    fixes_normalize text "<input>" (.int 3) (.text ";") 2 [(.text "markers", .texts ["todo", "STAT"])] none
      ["todo", "STAT"] hoption (by simp) (by decide +kernel)
  exact ⟨hoption, by decide +kernel, by decide +kernel, hskipped, hlength, hnone⟩

end Rule.Markers

end HouseStyle
