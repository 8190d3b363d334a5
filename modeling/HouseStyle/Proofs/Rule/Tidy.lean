import HouseStyle.Proofs.Rule.Sites

/-! Every fix of a rule that comes with the checker has a site, and no site is fixed twice, but for the
words of one comment, which stand one behind another. So the fixes of a rule are tidy. -/

namespace HouseStyle

open Outline Rule

/-! ### Words in a comment -/

namespace Rule.Markers

variable {markers : List Text} {offset : Nat} {before : Option Sym} {rest : Text}

theorem matchesAt_cases (hne : ∀ marker ∈ markers, marker ≠ []) :
    matchesAt markers offset before rest = [] ∨
      ∃ m, matchesAt markers offset before rest = [m] ∧ 0 < m.length := by
  cases hall : markers.filterMap (matchOne? offset before rest) with
  | nil =>
    left
    simp only [matchesAt, hall]
  | cons m more =>
    have hpos : 0 < m.length := by
      obtain ⟨marker, hmarker, hone⟩ := List.mem_filterMap.mp (hall ▸ List.mem_cons_self)
      unfold matchOne? at hone
      simp only [Option.ite_none_right_eq_some, Bool.and_eq_true, decide_eq_true_eq] at hone
      obtain ⟨⟨⟨⟨hlength, -⟩, -⟩, -⟩, hm⟩ := hone
      cases hm
      have := List.length_pos_of_ne_nil (hne marker hmarker)
      simp only [Match.length]
      omega
    right
    refine ⟨m, ?_, hpos⟩
    simp only [matchesAt, hall, if_neg hpos.ne']

/-- No match begins in what the one before skips. -/
theorem offset_le_of_mem {skip : Nat} {m : Match}
    (hm : m ∈ matchesFrom markers offset before skip rest) : offset + skip ≤ m.offset := by
  fun_induction matchesFrom markers offset before skip rest with
  | case1 => exact (matchesAt_spec hm).1.ge
  | case2 => cases hm
  | case3 offset before s rest here ih =>
    rcases List.mem_append.mp hm with hm | hm
    · exact (matchesAt_spec hm).1.ge
    · have := ih hm
      omega
  | case4 offset before skip s rest ih =>
    have := ih hm
    omega

/-- The matches of a text stand one behind another. -/
theorem matchesFrom_pairwise {skip : Nat} (hne : ∀ marker ∈ markers, marker ≠ []) :
    (matchesFrom markers offset before skip rest).Pairwise fun m m' =>
      m.offset < m'.offset ∧ m.offset + m.length ≤ m'.offset := by
  have hhere (offset : Nat) (before : Option Sym) (rest : Text) :
      (matchesAt markers offset before rest).Pairwise fun m m' =>
        m.offset < m'.offset ∧ m.offset + m.length ≤ m'.offset := by
    rcases matchesAt_cases hne with hnone | ⟨m, hone, -⟩
    · rw [hnone]
      exact .nil
    · rw [hone]
      exact List.pairwise_singleton _ m
  fun_induction matchesFrom markers offset before skip rest with
  | case1 => exact hhere _ _ _
  | case2 => exact .nil
  | case3 offset before s rest here ih =>
    refine List.pairwise_append.mpr ⟨hhere _ _ _, ih, fun m hm m' hm' => ?_⟩
    have hlater := offset_le_of_mem hm'
    have hm : m ∈ matchesAt markers offset before (s :: rest) := hm
    have hoffset := (matchesAt_spec hm).1
    have hlength : total (here.map Match.length) = m.length ∧ 0 < m.length := by
      change total ((matchesAt markers offset before (s :: rest)).map Match.length) = _ ∧ _
      rcases matchesAt_cases hne with hnone | ⟨first, hone, hpos⟩
      · rw [hnone] at hm
        cases hm
      · rw [hone] at hm ⊢
        obtain rfl := List.mem_singleton.mp hm
        exact ⟨rfl, hpos⟩
    constructor <;> omega
  | case4 offset before skip s rest ih => exact ih

/-- The words that the fixes in a comment take stand one behind another. -/
theorem inComment_pairwise (hne : ∀ marker ∈ markers, marker ≠ []) (t : Token) :
    (inComment markers t).Pairwise fun r r' =>
      ∀ fix ∈ r.fix, ∀ fix' ∈ r'.fix, fix'.span.Follows fix.span := by
  unfold inComment
  split
  · refine (matchesFrom_pairwise hne).filterMap _ ?_
    intro m m' hbehind r hr r' hr' fix hfix fix' hfix'
    obtain ⟨hbegin, hend, -⟩ := remark?_spec hr hfix
    obtain ⟨hbegin', -⟩ := remark?_spec hr' hfix'
    have hword : m.word.length ≤ m.length := Nat.le_add_right _ _
    constructor <;> omega
  · exact .nil

end Rule.Markers

/-! ### Fixes with sites -/

/-- Remarks whose fixes are tidy, as fixes of a rule. -/
def Remark.TidyFor (id : Text) (r r' : Remark) : Prop :=
  ∀ fix ∈ r.fix, ∀ fix' ∈ r'.fix, Tidy (id, fix.span) (id, fix'.span)

/-- A fix by a rule that puts in a text at a site of the rule. -/
structure Site.Takes (c : Context) (text id : Text) (x : Site) (fix : Fix) : Prop where
  replacement : ∃ t, fix.replacement = .text t
  rule : x.rule c.outline = id
  spans : x.Spans text c.outline fix.span

/-- Remarks of a rule that are all about one site. -/
structure Site.Has (c : Context) (text id : Text) (x : Site) (rs : List Remark) : Prop where
  takes : ∀ r ∈ rs, ∀ fix ∈ r.fix, x.Takes c text id fix
  tidy : rs.Pairwise (Remark.TidyFor id)

/-- Remarks of a rule whose fixes have sites of the rule and are tidy. -/
structure Rule.Sited (c : Context) (text id : Text) (rs : List Remark) : Prop where
  takes : ∀ r ∈ rs, ∀ fix ∈ r.fix, ∃ x : Site, x.Takes c text id fix
  tidy : rs.Pairwise (Remark.TidyFor id)

theorem Remark.exists_flatMap {α : Type} {f : α → Except RuleFailure (List Remark)} {xs : List α}
    {rs : List Remark} (h : Remark.collect f xs = .ok rs) :
    ∃ g, (∀ a ∈ xs, f a = .ok (g a)) ∧ rs = xs.flatMap g := by
  refine ⟨fun a => (f a).toOption.getD [], ?_⟩
  induction xs generalizing rs with
  | nil =>
    cases h
    simp
  | cons x xs ih =>
    rw [Remark.collect] at h
    obtain ⟨here, hx, h⟩ := bind_eq_ok.mp h
    obtain ⟨more, hrest, h⟩ := bind_eq_ok.mp h
    cases h
    obtain ⟨hall, rfl⟩ := ih hrest
    refine ⟨fun a ha => ?_, ?_⟩
    · rcases List.mem_cons.mp ha with rfl | ha
      · simp only [hx, Except.toOption, Option.getD_some]
      · exact hall a ha
    · rw [List.flatMap_cons, hx]
      rfl

section

variable {c : Context} {text end_ id : Text} {rs : List Remark}

theorem Rule.Sited.of_no_fix (h : ∀ r ∈ rs, r.fix = none) : Sited c text id rs := by
  constructor
  · intro r hr fix hfix
    rw [h r hr] at hfix
    cases hfix
  · refine List.pairwise_of_forall_mem_list fun r hr r' _ fix hfix => ?_
    rw [h r hr] at hfix
    cases hfix

/-- A site with one remark or none. -/
theorem Site.Has.of_length {x : Site} (hlength : ∀ r ∈ rs, rs.length ≤ 1)
    (h : ∀ r ∈ rs, ∀ fix ∈ r.fix, x.Takes c text id fix) : x.Has c text id rs := by
  refine ⟨h, ?_⟩
  match rs, hlength with
  | [], _ => exact .nil
  | [r], _ => exact List.pairwise_singleton _ r
  | r :: r' :: more, hlength => simpa using hlength r (by simp)

/-- Remarks about different sites are tidy together. -/
theorem Rule.Sited.flatMap {α : Type} (h : c.ReadsWith text end_) {site : α → Site} {xs : List α}
    {g : α → List Remark} (hne : xs.Pairwise fun a b => site a ≠ site b)
    (hg : ∀ a ∈ xs, (site a).Has c text id (g a)) : Sited c text id (xs.flatMap g) := by
  constructor
  · intro r hr fix hfix
    obtain ⟨a, ha, hr⟩ := List.mem_flatMap.mp hr
    exact ⟨site a, (hg a ha).takes r hr fix hfix⟩
  · refine List.pairwise_flatMap.mpr ⟨fun a ha => (hg a ha).tidy, ?_⟩
    refine hne.imp_of_mem fun ha hb hab r hr r' hr' fix hfix fix' hfix' => ?_
    have htakes := (hg _ ha).takes r hr fix hfix
    have htakes' := (hg _ hb).takes r' hr' fix' hfix'
    have htidy := h.tidy_of_ne htakes.spans htakes'.spans hab
    rwa [htakes.rule, htakes'.rule] at htidy

theorem Rule.Sited.collect {α : Type} (h : c.ReadsWith text end_) {site : α → Site} {xs : List α}
    {f : α → Except RuleFailure (List Remark)} (hne : xs.Pairwise fun a b => site a ≠ site b)
    (hf : ∀ a ∈ xs, ∀ here, f a = .ok here → (site a).Has c text id here)
    (hrs : Remark.collect f xs = .ok rs) : Sited c text id rs := by
  obtain ⟨g, hg, rfl⟩ := Remark.exists_flatMap hrs
  exact .flatMap h hne fun a ha => hf a ha _ (hg a ha)

end

/-! ### The rules -/

namespace Rule

variable {c : Context} {rs : List Remark}

theorem length_le_one_of_bind {α : Type} {e : Except RuleFailure α} {g : α → Remark}
    (h : (e >>= fun a => .ok [g a]) = .ok rs) : rs.length ≤ 1 := by
  obtain ⟨a, -, h⟩ := bind_eq_ok.mp h
  cases h
  exact Nat.le_refl 1

theorem Braces.misplaced_length {block : Nat × Segment} (h : Braces.misplaced c block = .ok rs) :
    rs.length ≤ 1 := by
  simp only [Braces.misplaced] at h
  split at h
  · split at h
    · cases h
      exact Nat.zero_le 1
    · split at h
      · exact length_le_one_of_bind h
      · exact length_le_one_of_bind h
  · cases h
    exact Nat.zero_le 1

theorem Braces.mem_tokensBetween {o : Outline} {i m j : Nat} {t : Token} (ht : o.token? m = some t)
    (him : i < m) (hmj : m < j) : t ∈ tokensBetween o i j := by
  obtain ⟨k, rfl⟩ := Nat.exists_eq_add_of_le (Nat.succ_le_of_lt him)
  have hget : (o.tokens.extract (i + 1) j).toList[k]? = some t := by
    rw [Array.getElem?_toList, Array.getElem?_extract, if_pos, ← ht]
    · rfl
    · have := (Array.getElem?_eq_some_iff.mp ht).1
      omega
  exact List.mem_of_getElem? hget

theorem Parentheses.wrapping_length {run : List Nat} {message description : Text}
    (h : Parentheses.wrapping c run message description = .ok rs) : rs.length ≤ 1 := by
  unfold Parentheses.wrapping at h
  split at h
  · cases h
    exact Nat.zero_le 1
  · split at h
    · exact length_le_one_of_bind h
    · cases h
      exact Nat.zero_le 1

theorem Parentheses.unwrapping_length {run : List Nat} (h : Parentheses.unwrapping c run = .ok rs) :
    rs.length ≤ 1 := by
  unfold Parentheses.unwrapping at h
  split at h
  · cases h
    exact Nat.zero_le 1
  · split at h
    · exact length_le_one_of_bind h
    · cases h
      exact Nat.zero_le 1

/-- A header has one keyword only. -/
theorem Parentheses.headerTail_if {o : Outline} {s : Segment} {i : Nat} {tail : List Nat}
    (h : headerTail o s "for" = i :: tail) : headerTail o s "if" = [] := by
  have hwords (k : Nat) (hk : o.at_ k (·.isKeyword ["for"])) : o.at_ k (·.isKeyword ["if"]) = false := by
    obtain ⟨t, ht, hfor⟩ := tokenIs_iff.mp hk
    rw [Outline.at_, tokenIs_of_getElem? ht]
    simp only [Lexeme.isKeyword, Bool.and_eq_true, List.contains_cons, List.contains_nil,
      Bool.or_false, beq_iff_eq] at hfor
    simp only [Lexeme.isKeyword, hfor.2]
    exact Bool.and_false _
  simp only [headerTail] at h ⊢
  by_cases hkind : s.kind = .controlHeader
  · rw [if_pos hkind] at h ⊢
    generalize (if s.keyword = "else" then s.lead + 1 else s.lead) = pos at h ⊢
    split at h
    · cases h
    · next k run hdrop =>
      split_ifs at h with hkeyword
      rw [hwords k hkeyword, if_neg Bool.false_ne_true]
  · rw [if_neg hkind]

end Rule

namespace Context.ReadsWith

variable {c : Context} {text end_ : Text} (h : c.ReadsWith text end_)
include h

theorem segments_nodup : c.outline.segments.Nodup := by
  rw [h.outline]
  exact ofTokens_segments_nodup _ _

theorem headers_pairwise :
    c.outline.headers.Pairwise fun block block' => Site.ending block.2 ≠ Site.ending block'.2 := by
  have hnodup : (c.outline.headers.map Prod.snd).Nodup := by
    have := h.segments_nodup
    rw [h.outline] at this ⊢
    exact (ofTokens_headers _ _).nodup_iff.mpr (this.filter _)
  refine (List.pairwise_map.mp hnodup).imp fun hne heq => hne ?_
  exact Site.ending.inj heq

/-! ### Behind a segment -/

theorem has_missing {s : Segment} (hs : s ∈ c.outline.segments) :
    (Site.ending s).Has c text "statement-termination" (Termination.missing c s).toList := by
  refine .of_length (fun _ _ => by cases Termination.missing c s <;> simp) fun r hr fix hfix => ?_
  obtain ⟨hlacks, last, hlast, hspan, hnew, -⟩ :=
    Termination.missing_spec (Option.mem_toList.mp hr) hfix
  have hstop := (h.token hlast).2.2
  refine ⟨⟨end_, hnew.trans h.terminator⟩, ?_, ?_⟩
  · simp only [Termination.lacksTerminator, Bool.and_eq_true, Bool.not_eq_true',
      Bool.or_eq_false_iff] at hlacks
    simp only [Site.rule, hlacks, Bool.false_eq_true, if_false]
  · have hsize := h.loud_lt (h.loud hs (h.sound.segments s hs).last_mem)
    rw [hspan]
    exact .ending (s.last + 1) hs (Nat.lt_add_one _) hsize (fun k _ hk => hk)
      (fun m l hm hm' => by omega) hstop hstop

theorem has_misplaced {block : Nat × Segment} (hblock : block ∈ c.outline.headers)
    {here : List Remark} (hhere : Braces.misplaced c block = .ok here) :
    (Site.ending block.2).Has c text "brace-placement" here := by
  refine .of_length (fun _ _ => Braces.misplaced_length hhere) fun r hr fix hfix => ?_
  obtain ⟨brace, last, hbrace, hlast, hspan, hnew, -, hplain⟩ :=
    Braces.misplaced_spec hhere hr hfix
  obtain ⟨hs, hopens⟩ := h.mem_of_mem_headers hblock
  obtain ⟨hlt, hquiet⟩ := h.last_lt_brace hblock
  obtain ⟨hstart, hstop, -⟩ := Span.between_spec hspan
  have hindex := (List.getElem?_eq_some_iff.mp (h.token hbrace).1).1
  refine ⟨⟨_, hnew⟩, by simp only [Site.rule, hopens, if_true], ?_⟩
  refine .ending block.1 hs hlt hindex.le (fun k hk hlast => hquiet.le_of_loud hk hlast) ?_
    (hstart.trans (h.token hlast).2.2) (hstop.trans (h.token hbrace).2.1)
  intro m l hm hm' hl hcomment
  obtain ⟨t, ht, rfl⟩ := token_of_lexeme hl
  rw [← h.tokens] at ht
  exact hplain t (Braces.mem_tokensBetween ht hm hm') hcomment

/-! ### Headers -/

/-- The run of a header behind its keyword is the place of its fix. -/
theorem spans_header {s : Segment} (hs : s ∈ c.outline.segments) {keyword : Text} {i j : Nat}
    {first last : Token} {span : Span}
    (hends : Parentheses.ends? (Parentheses.headerTail c.outline s keyword) = some (i, j))
    (hfirst : c.outline.token? i = some first) (hlast : c.outline.token? j = some last)
    (hspan : Span.between first.start last.stop = .ok span) :
    (Site.header s).Spans text c.outline span := by
  obtain ⟨-, -, hj, us, k, vs, hindices, hkeyword⟩ := h.header hs hends
  obtain ⟨hstart, hstop, -⟩ := Span.between_spec hspan
  obtain ⟨t, ht, hword⟩ := tokenIs_iff.mp hkeyword
  simp only [Lexeme.isKeyword, Bool.and_eq_true] at hword
  refine .header k i hs ⟨us, vs, by simp [hindices]⟩ ?_ (hstart.trans (h.token hfirst).2.1) ?_
  · rw [h.tokens, tokenIs_of_getElem? ht]
    exact hword.1
  · rw [← hj]
    exact hstop.trans (h.token hlast).2.2

theorem takes_wrapping {s : Segment} (hs : s ∈ c.outline.segments) {keyword message description : Text}
    {rs : List Remark}
    (hrs : Parentheses.wrapping c (Parentheses.headerTail c.outline s keyword) message description =
      .ok rs) {r : Remark} (hr : r ∈ rs) {fix : Fix} (hfix : r.fix = some fix) :
    (∃ t, fix.replacement = .text t) ∧ (Site.header s).Spans text c.outline fix.span ∧
      Parentheses.headerTail c.outline s keyword ≠ [] := by
  obtain ⟨i, j, first, last, hends, hfirst, hlast, hspan, hnew, -⟩ :=
    Parentheses.wrapping_spec hrs hr hfix
  refine ⟨⟨_, hnew⟩, h.spans_header hs hends hfirst hlast hspan, fun hnil => ?_⟩
  rw [hnil] at hends
  cases hends

theorem has_unwrapped {s : Segment} (hs : s ∈ c.outline.segments) {here : List Remark}
    (hhere : Parentheses.unwrapped c s = .ok here) :
    (Site.header s).Has c text "control-condition-parens" here := by
  refine .of_length (fun r hr => ?_) fun r hr fix hfix => ?_
  · obtain ⟨message, hwrap, -⟩ := Parentheses.unwrapped_spec hhere hr
    exact Parentheses.wrapping_length hwrap
  · obtain ⟨message, hwrap, -⟩ := Parentheses.unwrapped_spec hhere hr
    obtain ⟨hnew, hspans, hne⟩ := h.takes_wrapping hs hwrap hr hfix
    exact ⟨hnew, by simp only [Site.rule, if_neg hne], hspans⟩

theorem has_misgrouped {s : Segment} (hs : s ∈ c.outline.segments) {here : List Remark}
    (hhere : Parentheses.misgrouped c s = .ok here) :
    (Site.header s).Has c text "for-in-parenthesization" here := by
  have hrule (hne : Parentheses.headerTail c.outline s "for" ≠ []) :
      (Site.header s).rule c.outline = "for-in-parenthesization" := by
    obtain ⟨i, tail, htail⟩ := List.exists_cons_of_ne_nil hne
    simp only [Site.rule, if_pos (Parentheses.headerTail_if htail)]
  refine .of_length (fun r hr => ?_) fun r hr fix hfix => ?_
  · obtain ⟨⟨hunwrap, -⟩ | ⟨message, hwrap⟩, -⟩ := Parentheses.misgrouped_spec hhere hr
    · exact Parentheses.unwrapping_length hunwrap
    · exact Parentheses.wrapping_length hwrap
  · obtain ⟨⟨hunwrap, -⟩ | ⟨message, hwrap⟩, -⟩ := Parentheses.misgrouped_spec hhere hr
    · obtain ⟨i, j, opener, closer, hends, hopener, hcloser, hspan, -, hnew⟩ :=
        Parentheses.unwrapping_spec hunwrap hr hfix
      refine ⟨⟨_, hnew⟩, hrule fun hnil => ?_, h.spans_header hs hends hopener hcloser hspan⟩
      rw [hnil] at hends
      cases hends
    · obtain ⟨hnew, hspans, hne⟩ := h.takes_wrapping hs hwrap hr hfix
      exact ⟨hnew, hrule hne, hspans⟩

/-! ### Comments -/

omit h in
theorem has_inComment {markers : List Text} (hwords : Markers.AreWords markers) {t : Token}
    (ht : t ∈ tokenize text) :
    (Site.comment t).Has c text "comment-markers" (Markers.inComment markers t) := by
  obtain ⟨i, hi⟩ := List.mem_iff_getElem?.mp ht
  obtain ⟨-, hstart, hstop⟩ := tokenize_getElem? hi
  constructor
  · intro r hr fix hfix
    unfold Markers.inComment at hr
    split_ifs at hr with hkind
    · obtain ⟨m, hm, hr⟩ := List.mem_filterMap.mp hr
      obtain ⟨hbegin, hend, hnew, -⟩ := Markers.remark?_spec hr hfix
      obtain ⟨a, b, u, v, htext, hoffset, hne, -⟩ := Markers.exists_of_comment hwords ht hkind hm
      have hpos := List.length_pos_of_ne_nil hne
      have hlength := congrArg List.length htext
      simp only [List.length_append, List.length_cons] at hlength
      refine ⟨hnew.elim (fun hnew => ⟨_, hnew⟩) fun hnew => ⟨_, hnew⟩, rfl, ?_⟩
      refine .comment i hi hkind ?_ ?_ ?_
      · omega
      · omega
      · rw [← hstop, Token.stop]
        omega
    · cases hr
  · refine (Markers.inComment_pairwise (fun marker hmarker => (hwords marker hmarker).1) t).imp ?_
    intro r r' h fix hfix fix' hfix'
    exact .of_le (h fix hfix fix' hfix').1 (h fix hfix fix' hfix').2

/-! ### All rules -/

/-- The fixes of a rule that comes with the checker have sites of the rule and are tidy. -/
theorem sited_of_mem_builtinKinds {kind : RuleKind} (hkind : kind ∈ builtinKinds) {rs : List Remark}
    (hrs : kind.remarks kind.metadata.options c = .ok rs) : Sited c text kind.metadata.id rs := by
  simp only [builtinKinds, List.mem_cons, List.not_mem_nil, or_false] at hkind
  rcases hkind with rfl | rfl | rfl | rfl | rfl | rfl | rfl | rfl | rfl | rfl
  · have hall : Termination.allMissing c = .ok rs := hrs
    simp only [Termination.allMissing] at hall
    split_ifs at hall
    cases hall
    rw [List.filterMap_eq_flatMap_toList]
    exact .flatMap h (h.segments_nodup.imp fun hne heq => hne (Site.ending.inj heq))
      fun s hs => h.has_missing hs
  · refine .of_no_fix fun r hr => ?_
    obtain ⟨n, -, here, hhere, hr⟩ := Remark.mem_collect hrs hr
    exact Termination.crowding_fix hhere hr
  · exact .collect h h.headers_pairwise (fun block hblock here => h.has_misplaced hblock) hrs
  · exact .collect h (h.segments_nodup.imp fun hne heq => hne (Site.header.inj heq))
      (fun s hs here => h.has_unwrapped hs) hrs
  · exact .collect h (h.segments_nodup.imp fun hne heq => hne (Site.header.inj heq))
      (fun s hs here => h.has_misgrouped hs) hrs
  · cases hrs
    refine .of_no_fix fun r hr => ?_
    obtain ⟨s, -, hr⟩ := List.mem_flatMap.mp hr
    exact Declarations.untyped_fix hr
  · cases hrs
    refine .of_no_fix fun r hr => ?_
    obtain ⟨i, -, hr⟩ := List.mem_filterMap.mp hr
    exact Declarations.forced_fix hr
  · have hmarkers : Markers.ofOption ((Markers.commentMarkers.metadata.options.lookup
        (.text "markers")).getD (.texts Markers.defaultMarkers)) = .ok Markers.defaultMarkers := rfl
    simp only [Markers.commentMarkers] at hrs hmarkers
    rw [hmarkers] at hrs
    cases hrs
    have hnodup : c.tokens.toList.Nodup := by
      rw [Context.tokens, h.tokens]
      exact tokenize_nodup text
    exact .flatMap h (hnodup.imp fun hne heq => hne (Site.comment.inj heq))
      fun t ht => has_inComment Markers.defaultMarkers_areWords (h.mem_tokenize ht)
  · cases hrs
    refine .of_no_fix fun r hr => ?_
    obtain ⟨brace, -, hr⟩ := List.mem_flatMap.mp hr
    exact Members.inType_fix hr
  · cases hrs
    refine .of_no_fix fun r hr => ?_
    obtain ⟨container, -, hr⟩ := List.mem_flatMap.mp hr
    exact Members.separated_fix hr

end Context.ReadsWith

end HouseStyle
