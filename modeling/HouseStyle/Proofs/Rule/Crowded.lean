import HouseStyle.Proofs.Engine.Checked

/-! Statements behind a terminator on its line. White space is cut as far as it goes, so no two tokens
of it stand side by side, and the first token behind a terminator that is not white space is one of the
two next ones. A look ahead of two tokens finds all that one without a bound would find. -/

namespace HouseStyle

open Rule Outline

/-! ### White space is cut as far as it goes -/

namespace Cut

open Literal

theorem next_of_whitespace {s : Sym} {t : Text} (h : (next (s :: t)).kind = .whitespace) :
    s.isBlank ∧ (next (s :: t)).length = run Sym.isBlank (s :: t) := by
  have htrails : Trails s t (next (s :: t)) := next_trails (by rw [h]; rfl)
  generalize next (s :: t) = cut at h htrails
  cases htrails with
  | blanks hblank => exact ⟨hblank, rfl⟩
  | lineBreak | line => cases h
  | block =>
    cases hend : blockComment? (s :: t) <;> rw [hend] at h <;> cases h

end Cut

/-- White space does not stand behind white space. -/
theorem IsLexed.not_whitespace {l l' : Lexeme} {ls : List Lexeme} (h : IsLexed (l :: l' :: ls))
    (hl : l.kind = .whitespace) : l'.kind ≠ .whitespace := by
  intro hl'
  obtain ⟨hne, hnext, hrest⟩ := h.cons
  obtain ⟨hne', hnext', -⟩ := hrest.cons
  obtain ⟨s, w, hw⟩ := List.exists_cons_of_ne_nil hne
  obtain ⟨s', w', hw'⟩ := List.exists_cons_of_ne_nil hne'
  rw [hw, List.cons_append] at hnext
  rw [hw', List.cons_append] at hnext'
  obtain ⟨-, hlength⟩ := Cut.next_of_whitespace ((congrArg Cut.kind hnext).trans hl)
  obtain ⟨hblank', -⟩ := Cut.next_of_whitespace ((congrArg Cut.kind hnext').trans hl')
  -- The run of blanks that is the first lexeme would take in the first symbol of the second one.
  have hrun : Literal.run Sym.isBlank (l.text ++ (s' :: (w' ++ joined ls))) = l.text.length := by
    have hcut : (Cut.next (s :: (w ++ joined (l' :: ls)))).length = l.text.length :=
      congrArg Cut.length hnext
    rw [← hcut, hlength, joined_cons, hw', hw]
    rfl
  have hall := all_of_length_le_run hrun.ge
  rw [Literal.run, List.takeWhile_append_of_pos hall, List.takeWhile_cons_of_pos hblank',
    List.length_append, List.length_cons] at hrun
  omega

/-- No two neighbours among the tokens of a text are white space. -/
theorem tokenize_isChain (text : Text) :
    (tokenize text).IsChain fun t u => t.kind = .whitespace → u.kind ≠ .whitespace := by
  rw [List.isChain_iff_getElem]
  intro i hi ht
  have hu := tokenize_getElem? (List.getElem?_eq_getElem hi)
  have hl := tokenize_getElem? (List.getElem?_eq_getElem (Nat.lt_of_succ_lt hi))
  have hlexed := (isLexed_lexemes text).drop i
  rw [drop_cons hl.1, drop_cons hu.1] at hlexed
  exact hlexed.not_whitespace ht

/-! ### Terminators that end statements -/

/-- A terminator that ends a statement: the boundary of a segment that it terminates, or one that no
segment has, neither among its tokens nor as its boundary. -/
def Outline.EndsStatement (o : Outline) (end_ : Text) (i : Nat) : Prop :=
  (∃ s ∈ o.segments, s.terminated ∧ s.boundary = some i) ∨
    o.at_ i (·.isPunct end_) ∧ ∀ s ∈ o.segments, i ∉ s.indices ∧ s.boundary ≠ some i

namespace Rule.Termination

/-- Marking indices one after the other marks those that there are. -/
theorem getD_foldl_mark (is : List Nat) (marks : Array Bool) (i : Nat) :
    (is.foldl (fun marks j => marks.setIfInBounds j true) marks).getD i false =
      (marks.getD i false || (decide (i ∈ is) && decide (i < marks.size))) := by
  induction is generalizing marks with
  | nil => simp
  | cons j is ih =>
    rw [List.foldl_cons, ih, Array.size_setIfInBounds, Array.getD_eq_getD_getElem?,
      Array.getD_eq_getD_getElem?, Array.getElem?_setIfInBounds]
    by_cases hij : j = i
    · subst hij
      by_cases hj : j < marks.size <;> simp [hj]
    · simp [hij, Ne.symm hij]

theorem getD_foldl_marks {α : Type} (places : α → List Nat) (xs : List α) (n i : Nat) :
    (xs.foldl (fun marks x => (places x).foldl (fun marks j => marks.setIfInBounds j true) marks)
        (Array.replicate n false)).getD i false =
      (decide (∃ x ∈ xs, i ∈ places x) && decide (i < n)) := by
  rw [← List.foldl_flatMap, getD_foldl_mark]
  have hnone : (Array.replicate n false).getD i false = false := by
    rw [Array.getD_eq_getD_getElem?, Array.getElem?_replicate]
    split <;> rfl
  simp [hnone]

theorem mem_terminators {c : Context} {i : Nat} : i ∈ terminators c ↔
    i < c.tokens.size ∧ c.outline.EndsStatement c.ending i := by
  have hcovered := getD_foldl_marks (fun s : Segment => s.indices ++ s.boundary.toList)
    c.outline.segments c.tokens.size i
  have hended := getD_foldl_marks
    (fun s : Segment => if s.terminated then s.boundary.toList else []) c.outline.segments
    c.tokens.size i
  have hbranch : (fun (marks : Array Bool) (s : Segment) =>
      (if s.terminated then s.boundary.toList else []).foldl
        (fun marks j => marks.setIfInBounds j true) marks) = fun marks s =>
      if s.terminated then s.boundary.toList.foldl (fun marks j => marks.setIfInBounds j true) marks
      else marks := by
    funext marks s
    split <;> rfl
  rw [hbranch] at hended
  simp only [terminators, List.mem_filter, List.mem_range, hcovered, hended, EndsStatement]
  refine and_congr_right fun hi => ?_
  simp only [hi, decide_true, Bool.and_true, Bool.or_eq_true, Bool.and_eq_true, Bool.not_eq_true',
    decide_eq_true_eq, decide_eq_false_iff_not, List.mem_append, Option.mem_toList]
  refine or_congr (exists_congr fun s => and_congr_right fun _ => ?_) ?_
  · by_cases hterminated : s.terminated <;> simp [hterminated]
  · rw [and_comm]
    simp [not_or]

theorem terminators_pairwise (c : Context) : (terminators c).Pairwise (· < ·) :=
  List.Pairwise.filter _ List.pairwise_lt_range

/-! ### Looking ahead -/

/-- The token behind a terminator that starts another statement on its line, however far off. -/
def follower? (upcoming : List Token) : Option Token :=
  (upcoming.find? (·.kind ≠ .whitespace)).filter fun t =>
    !(t.kind = .newline || t.kind = .comment || t.text = [.char '{'] || t.text = [.char '}'])

theorem crowded?_cons {reach : Nat} {t : Token} {rest : List Token} (ht : t.kind ≠ .whitespace) :
    crowded? (reach + 1) (t :: rest) = follower? (t :: rest) := by
  simp only [crowded?, follower?, ne_eq, ht, not_false_eq_true, decide_true,
    List.find?_cons_of_pos, Option.filter_some]
  split_ifs with hplain <;> simp_all

/-- Two tokens are enough. -/
theorem crowded?_take {reach : Nat} {upcoming : List Token} (hreach : 2 ≤ reach)
    (h : upcoming.IsChain fun t u => t.kind = .whitespace → u.kind ≠ .whitespace) :
    crowded? reach (upcoming.take reach) = follower? upcoming := by
  obtain ⟨reach, rfl⟩ := Nat.exists_eq_add_of_le' hreach
  match upcoming with
  | [] => rfl
  | t :: rest =>
    by_cases ht : t.kind = .whitespace
    · have hskip : follower? (t :: rest) = follower? rest := by simp [follower?, ht]
      rw [List.take_succ_cons, crowded?, if_pos ht, hskip]
      match rest with
      | [] => rfl
      | u :: rest =>
        have hu := (List.isChain_cons_cons.mp h).1 ht
        rw [List.take_succ_cons, crowded?_cons hu, follower?, follower?]
        simp [hu]
    · rw [List.take_succ_cons, crowded?_cons ht, follower?, follower?]
      simp [ht]

/-- The remark on a token behind a terminator. -/
def crowdingRemark (t : Token) : Remark :=
  { span := t.span
    message := "Another statement follows the terminator on the same line." }

theorem crowding_eq {c : Context} {n : Int} (hlookahead : c.lookahead = .int n) (hn : 2 ≤ n)
    (hchain : c.tokens.toList.IsChain fun t u => t.kind = .whitespace → u.kind ≠ .whitespace)
    (i : Nat) : crowding c i =
      .ok ((follower? (c.tokens.toList.drop (i + 1))).toList.map crowdingRemark) := by
  have hreach : reach c i = .ok n.toNat := by
    rw [reach, hlookahead]
    rfl
  have hupcoming : (c.tokens.extract (i + 1) (i + 1 + n.toNat)).toList =
      (c.tokens.toList.drop (i + 1)).take n.toNat := by
    rw [Array.toList_extract, List.extract_eq_take_drop, Nat.add_sub_cancel_left]
  rw [crowding, hreach]
  change Except.ok _ = _
  rw [hupcoming, crowded?_take (by omega) (hchain.drop _)]
  rfl

theorem collect_eq_flatMap {α : Type} {remarks : α → Except RuleFailure (List Remark)}
    {g : α → List Remark} (h : ∀ x, remarks x = .ok (g x)) (xs : List α) :
    Remark.collect remarks xs = .ok (xs.flatMap g) := by
  induction xs with
  | nil => rfl
  | cons x xs ih =>
    rw [Remark.collect, h, ih]
    rfl

end Termination

/-- A rule finds one thing for each of its remarks. -/
theorem findings_of_remarks {c : Context} {n : Int} {rule : Rule} {remarks : List Remark}
    (hlines : c.contextLines = .int n) (h : rule.kind.remarks rule.options c = .ok remarks) :
    ∃ found, rule.findings c = .ok found ∧
      List.Forall₂ (fun r f => rule.finding c r = .ok f) remarks found := by
  obtain ⟨found, hfound⟩ := mapM_ok (finding_ok hlines rule) remarks
  refine ⟨found, ?_, forall₂_of_mapM hfound⟩
  rw [Rule.findings, h]
  exact hfound

theorem finding_place {c : Context} {rule : Rule} {r : Remark} {f : Finding}
    (h : rule.finding c r = .ok f) :
    f.span = r.span ∧ f.location = c.location r.span ∧ f.fix = r.fix := by
  obtain ⟨snippet, -, h⟩ := bind_eq_ok.mp h
  cases h
  exact ⟨rfl, rfl, rfl⟩

namespace Termination

theorem lt_size_of_endsStatement {ts : List Token} {end_ : Text} {i : Nat}
    (h : (ofTokens ts end_).EndsStatement end_ i) : i < ts.length := by
  have hsize {t : Token} (ht : (ofTokens ts end_).token? i = some t) : i < ts.length :=
    (Array.getElem?_eq_some_iff.mp ht).1
  rcases h with ⟨s, hs, -, hboundary⟩ | ⟨hpunct, -⟩
  · have hsound := (ofTokens_sound ts end_).segments s hs
    cases hsound.ends with
    | text hnone => cases hnone.symm.trans hboundary
    | label _ hlast =>
      obtain ⟨t, ht, -⟩ := hsound.inOrder.loud _ hsound.last_mem
      obtain rfl := Option.some.inj (hlast.symm.trans hboundary)
      exact hsize ht
    | token b hsome _ _ hending =>
      obtain ⟨t, ht, -⟩ := tokenIs_iff.mp hending
      obtain rfl := Option.some.inj (hsome.symm.trans hboundary)
      exact hsize ht
  · obtain ⟨t, ht, -⟩ := tokenIs_iff.mp hpunct
    exact hsize ht

/-- With a look ahead of two tokens or more the rule finds what one without a bound would find: for
any text and terminator, one finding for each terminator that ends a statement and has another token
behind it on its line, other than a comment or a brace, and it stands on the first such token. -/
theorem findings_unbounded (text filePath terminator : Text) (lookahead contextLines : Int)
    (options : Options) (severity : Option Severity) (hreach : 2 ≤ lookahead) :
    let context := Context.ofTokens (tokenize text) filePath (.int lookahead) (.text terminator)
      (.int contextLines)
    let rule := oneStatementPerLine.create options severity
    ∃ (ends : List Nat) (found : List Finding), ends.Pairwise (· < ·) ∧
      (∀ i, i ∈ ends ↔ context.outline.EndsStatement terminator i) ∧
      rule.findings context = .ok found ∧
      List.Forall₂ (fun t f => rule.finding context (crowdingRemark t) = .ok f ∧
          f.span = t.span ∧ f.location = context.location t.span ∧ f.fix = none)
        (ends.filterMap fun i => follower? ((tokenize text).drop (i + 1))) found := by
  intro context rule
  have hends (i : Nat) : i ∈ terminators context ↔ context.outline.EndsStatement terminator i :=
    mem_terminators.trans (and_iff_right_of_imp lt_size_of_endsStatement)
  have hremarks : rule.kind.remarks rule.options context =
      .ok (((terminators context).filterMap
        fun i => follower? ((tokenize text).drop (i + 1))).map crowdingRemark) := by
    have hcrowding := crowding_eq (c := context) rfl hreach (tokenize_isChain text)
    rw [List.map_filterMap, List.filterMap_eq_flatMap_toList]
    refine (collect_eq_flatMap hcrowding _).trans ?_
    simp only [Option.toList_map]
    rfl
  obtain ⟨found, hfound, hall⟩ := findings_of_remarks rfl hremarks
  refine ⟨terminators context, found, terminators_pairwise context, hends, hfound, ?_⟩
  refine (List.forall₂_map_left_iff.mp hall).imp fun t f hfinding => ?_
  exact ⟨hfinding, finding_place hfinding⟩

/-- Blanks do not hide the statement behind them from the shortest look ahead; a line end does. -/
theorem findings_unbounded_two :
    2 ≤ (2 : Int) ∧
    let context := Context.ofTokens (tokenize "a; \t b;\nc;") "a.src" (.int 2) (.text ";") (.int 0)
    let rule := oneStatementPerLine.create [] none
    ∃ (ends : List Nat) (found : List Finding), ends.Pairwise (· < ·) ∧
      (∀ i, i ∈ ends ↔ context.outline.EndsStatement ";" i) ∧
      rule.findings context = .ok found ∧
      List.Forall₂ (fun t f => rule.finding context (crowdingRemark t) = .ok f ∧
          f.span = t.span ∧ f.location = context.location t.span ∧ f.fix = none)
        (ends.filterMap fun i => follower? ((tokenize "a; \t b;\nc;").drop (i + 1))) found :=
  ⟨by decide, findings_unbounded _ _ _ 2 0 [] none (by decide)⟩

end Rule.Termination

end HouseStyle
