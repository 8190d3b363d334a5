import HouseStyle.Proofs.Engine.Nesting
import HouseStyle.Proofs.Engine.Rounds
import HouseStyle.Proofs.Rule.Corrected
import HouseStyle.Proofs.Rule.Found

/-! A second round of fixes. The fixes that a round applies are those that the rules have for the text,
unless one is skipped or its finding is suppressed. Made from right to left, each of them leaves the
others as they are and no further one, so where all of them are made none is left for the next round. -/

namespace HouseStyle

open Outline Rule
open Engine (reads_ofTokens)

/-! ### Findings -/

namespace Rule

variable {c : Context} {n : Int} {rule : Rule} {rules : List Rule} {fix : Fix}

theorem exists_of_mapM {ε α β : Type} {f : α → Except ε β} {xs : List α} {ys : List β}
    (h : xs.mapM f = .ok ys) {x : α} (hx : x ∈ xs) : ∃ y ∈ ys, f x = .ok y := by
  obtain ⟨i, hi, rfl⟩ := List.getElem_of_mem hx
  obtain ⟨hlength, hget⟩ := List.forall₂_iff_get.mp (forall₂_of_mapM h)
  exact ⟨ys[i], List.getElem_mem (hlength ▸ hi), hget i hi (hlength ▸ hi)⟩

theorem findings_subset_outcomes {fs : List Finding} (hrule : rule ∈ rules)
    (hfs : rule.findings c = .ok fs) : fs ⊆ (outcomes c rules).1 := by
  induction rules with
  | nil => cases hrule
  | cons other rest ih =>
    simp only [outcomes]
    rcases List.mem_cons.mp hrule with rfl | hrule
    · rw [hfs]
      exact List.subset_append_left _ _
    · cases other.findings c with
      | error failure => exact ih hrule
      | ok here => exact List.subset_append_of_subset_right _ (ih hrule)

/-- A fix that a rule has comes with a finding of it. -/
theorem exists_finding_of_fixes (hlines : c.contextLines = .int n) (hrule : rule ∈ rules)
    (h : Fixes (rule.kind.remarks rule.options c) fix) :
    ∃ f ∈ (runAll c rules).1, f.fix = some fix ∧ f.ruleId = rule.id := by
  obtain ⟨rs, hrs, r, hr, hfix⟩ := h
  obtain ⟨fs, hfs⟩ := mapM_ok (finding_ok hlines rule) rs
  obtain ⟨f, hf, hfinding⟩ := exists_of_mapM hfs hr
  have hfindings : rule.findings c = .ok fs := by
    rw [findings, hrs]
    exact hfs
  refine ⟨f, (List.mergeSort_perm _ _).mem_iff.mpr (findings_subset_outcomes hrule hfindings hf), ?_, ?_⟩
  · rw [finding_fix hfinding, hfix]
  · exact finding_ruleId hfinding

end Rule

namespace Engine

/-- An engine of the default configuration that has all rules with fixes and applies these fixes. -/
structure IsComplete (e : Engine) : Prop where
  isDefault : e.IsDefault
  threshold : e.threshold = .info
  rules : ∀ kind ∈ builtinKinds, kind.metadata.autoFixable → kind.create ∈ e.rules
  autofix : ∀ kind ∈ builtinKinds, kind.metadata.autoFixable → kind.metadata.id ∈ e.autofix

theorem enabledByPreset_standard : ∀ kind ∈ builtinKinds, kind.metadata.autoFixable →
    enabledByPreset .standard kind.metadata := by
  decide

theorem create_complete : ∃ e, create {} = .ok e ∧ e.IsComplete := by
  have hseverity : readSeverity (({} : Config).severityThreshold) "severity_threshold" =
      .ok (some .info, []) := rfl
  have hpreset : Preset.named? ({} : Config).rulePreset = .ok (some .standard) := rfl
  have hnamed : ({} : Config).namedRules = .ok [] := rfl
  have hmade := mapM_eq_map (configured_default (.text ";") .standard)
    (Registry.builtin.ids.filterMap Registry.builtin.find?)
  obtain ⟨e, he, hdefault⟩ := create_default
  refine ⟨e, he, ?_⟩
  simp only [create, hseverity, hpreset, hnamed, unknownRules, Option.getD_some, hmade, bind,
    Except.bind, pure, Except.pure, Except.ok.injEq] at he
  have hmem : ∀ kind ∈ builtinKinds, kind.metadata.autoFixable → (kind.create, true) ∈
      ((Registry.builtin.ids.filterMap Registry.builtin.find?).map fun kind =>
        (if enabledByPreset .standard kind.metadata then (some (kind.create, true), ([] : List Text))
          else (none, []))).filterMap Prod.fst := by
    intro kind hkind hfixable
    refine List.mem_filterMap.mpr ⟨(some (kind.create, true), []), List.mem_map.mpr ⟨kind, ?_, ?_⟩, rfl⟩
    · exact Registry.builtin_kinds_perm.mem_iff.mpr hkind
    · rw [if_pos (enabledByPreset_standard kind hkind hfixable)]
  subst he
  refine ⟨hdefault, rfl, fun kind hkind hfixable => ?_, fun kind hkind hfixable => ?_⟩
  · exact List.mem_map.mpr ⟨_, hmem kind hkind hfixable, rfl⟩
  · exact List.mem_map.mpr ⟨_, List.mem_filter.mpr ⟨hmem kind hkind hfixable, rfl⟩, rfl⟩

/-- Only rules that may fix have fixes. -/
theorem autoFixable_of_fixes {c : Context} {fix : Fix} {kind : RuleKind} (hkind : kind ∈ builtinKinds)
    (h : Fixes (kind.remarks kind.metadata.options c) fix) : kind.metadata.autoFixable := by
  by_contra hnot
  have hothers : ∀ kind ∈ builtinKinds, ¬kind.metadata.autoFixable → kind ∈
      [Termination.oneStatementPerLine, Declarations.explicitTyping, Declarations.forceUnwrap,
        Members.selfPrefix, Members.methodGrouping] := by
    intro kind hkind hnot
    simp only [builtinKinds, List.mem_cons, List.not_mem_nil, or_false] at hkind
    rcases hkind with rfl | rfl | rfl | rfl | rfl | rfl | rfl | rfl | rfl | rfl <;>
      first | exact absurd rfl hnot | simp
  exact Context.Reads.not_fixes_others kind (hothers kind hkind hnot) h

namespace IsComplete

variable {e : Engine} (h : e.IsComplete) {text filePath : Text} {checked : Checked} {fix : Fix}
include h

/-- The fixes that may be applied to a text are among those that its rules have. -/
theorem offered_of_mem_fixable (hne : text ≠ []) (hchecked : e.checkText text filePath = .ok checked) {f : Finding}
    (hf : f ∈ e.fixable checked.findings) (hfix : f.fix = some fix) :
    Offered text fix ∨ Unparenthesizes (Context.ofTokens (tokenize text) filePath) fix := by
  obtain ⟨checked', hchecked', hfound⟩ := h.isDefault.checkText hne filePath
  obtain rfl := Except.ok.inj (hchecked'.symm.trans hchecked)
  obtain ⟨rule, hrule, rs, hrs, r, hr, hrfix⟩ := hfound f (List.mem_filter.mp hf).1
  obtain ⟨kind, hkind, rfl⟩ := h.isDefault.rules rule hrule
  refine ((reads_ofTokens text filePath).fixes_iff ?_).mp ⟨kind, hkind, rs, hrs, r, hr, hrfix.trans hfix⟩
  exact congrArg Text.lineStarts (sourceText_tokenize text)

theorem exists_mem_fixable (hchecked : e.checkText text filePath = .ok checked)
    (hshown : ∀ f ∈ checked.findings, f.fix.isSome → f.suppressed = false)
    (hfix : Offered text fix ∨ Unparenthesizes (Context.ofTokens (tokenize text) filePath) fix) :
    ∃ f ∈ e.fixable checked.findings, f.fix = some fix := by
  obtain ⟨kind, hkind, hfixes⟩ := ((reads_ofTokens text filePath).fixes_iff
    (congrArg Text.lineStarts (sourceText_tokenize text))).mpr hfix
  have hfixable := autoFixable_of_fixes hkind hfixes
  obtain ⟨f, hf, hffix, hid⟩ := exists_finding_of_fixes (n := 2) rfl (h.rules kind hkind hfixable) hfixes
  obtain ⟨context, hcontext, hfound⟩ := checkText_spec hchecked
  obtain rfl := Except.ok.inj ((h.isDefault.contextOf text filePath).symm.trans hcontext)
  have hsome : ∃ g, e.screened (Suppression.ofTokens
      (Context.ofTokens (tokenize text) filePath).tokens.toList) f = some g := by
    unfold screened
    rw [h.threshold, if_neg (by cases f.severity <;> decide)]
    split_ifs <;> exact ⟨_, rfl⟩
  obtain ⟨g, hg⟩ := hsome
  have hmem : g ∈ checked.findings := by
    rw [hfound]
    exact List.mem_filterMap.mpr ⟨f, hf, hg⟩
  have hgfix : g.fix = some fix := (screened_fix hg).trans hffix
  refine ⟨g, List.mem_filter.mpr ⟨hmem, ?_⟩, hgfix⟩
  have hopen := hshown g hmem (by simp [hgfix])
  have hauto : g.ruleId ∈ e.autofix := by
    rw [screened_ruleId hg, hid]
    exact h.autofix kind hkind hfixable
  simp [hgfix, hopen, hauto]

end IsComplete

end Engine

/-! ### Applied fixes -/

section

variable {text : Text} {findings : List Finding} {fix : Fix}

/-- The applied fixes, from left to right. -/
def appliedFixes (text : Text) (findings : List Finding) : List Fix :=
  (applyFixes text findings).applied.map (·.proposal.fix)

theorem applyFixes_text_eq (text : Text) (findings : List Finding) :
    (applyFixes text findings).text = (appliedFixes text findings).foldr Fix.putIn text := by
  rw [(applyFixes_rewrites text findings).text_eq, appliedFixes, List.foldr_map, List.foldr_map]
  rfl

theorem appliedFixes_pairwise (text : Text) (findings : List Finding) :
    (appliedFixes text findings).Pairwise fun d e => e.span.Follows d.span := by
  have hfollows := List.pairwise_reverse.mpr (select_sound text.length findings).follows
  rw [← applied_map_proposal, List.pairwise_map] at hfollows
  exact List.pairwise_map.mpr hfollows

/-- Where no fix is skipped, those of all candidates are applied. -/
theorem mem_appliedFixes_iff (hskipped : (applyFixes text findings).skipped = [])
    (hopen : ∀ f ∈ findings, f.suppressed = false) :
    fix ∈ appliedFixes text findings ↔ ∃ f ∈ findings, f.fix = some fix := by
  have hnone : (selected text findings).skipped.reverse = [] := hskipped
  have hperm := selected_perm text findings
  rw [hnone, List.map_nil, List.append_nil, ← applied_map_proposal] at hperm
  have hmap : appliedFixes text findings =
      ((applyFixes text findings).applied.map (·.proposal)).map (·.fix) := by
    rw [List.map_map]
    rfl
  rw [hmap, ((hperm.trans (proposals_perm findings)).map (·.fix)).mem_iff, List.map_filterMap,
    List.mem_filterMap]
  refine exists_congr fun f => and_congr_right fun hf => ?_
  rw [Proposal.ofFinding?, hopen f hf]
  cases f.fix <;> simp

end

/-! ### One round -/

/-- The last of the fixes for a text can be made before the others. -/
theorem Rule.advances_of_offered {text : Text} {e : Fix} (hpaired : (outlineOf text).AllPaired)
    (hnone : NoneEnclosed text) (he : Offered text e) (hraise : e.description ≠ Want.raise.caption)
    (hharmless : Harmless text e)
    (hlast : ∀ fix, Offered text fix → fix ≠ e → e.span.Follows fix.span) :
    Advances text (e.putIn text) e := by
  rcases he with ⟨s, hs, w, i, j, hat, hgives⟩ | hmisspelt
  · cases w with
    | finish => exact advances_finish hpaired hnone hs hat hgives hlast
    | raise => exact absurd hgives.description hraise
    | condition => exact advances_wrap .condition hs hpaired hnone hat hgives hharmless hlast
    | classic => exact advances_wrap .classic hs hpaired hnone hat hgives hharmless hlast
  · exact advances_respell hpaired hnone hmisspelt hlast

/-- What a round of fixes must be like to leave nothing to fix: all brackets of its text are paired, no
finding with a fix is suppressed, no fix is skipped, and none of those that are applied does harm, takes
parentheses away or moves a brace. -/
structure FixResult.Settles (result : FixResult) (checked : Engine.Checked) (text : Text) : Prop where
  paired : (outlineOf text).AllPaired
  shown : ∀ f ∈ checked.findings, f.fix.isSome → f.suppressed = false
  skipped : result.skipped = []
  keeps : ∀ e ∈ result.applied, e.proposal.fix.description ≠ "Remove the parentheses" ∧
    e.proposal.fix.description ≠ Want.raise.caption
  harmless : ∀ e ∈ result.applied, Harmless text e.proposal.fix

theorem Rule.Unparenthesizes.description {c : Context} {fix : Fix} (h : Unparenthesizes c fix) :
    fix.description = "Remove the parentheses" := by
  obtain ⟨s, -, -, rs, hrs, r, hr, hfix⟩ := h
  obtain ⟨i, j, opener, closer, -, -, -, -, hdescription, -⟩ :=
    Parentheses.unwrapping_spec hrs hr hfix
  exact hdescription

/-- A round that settles a text leaves nothing to fix. -/
theorem Engine.IsComplete.settles {engine : Engine} (h : engine.IsComplete) {text filePath : Text}
    {result : FixResult} {checked : Engine.Checked} (hne : text ≠ [])
    (hround : engine.fixContent text filePath = .ok (result, checked))
    (hsettles : result.Settles checked text) :
    NoneEnclosed result.text ∧ ∀ fix, ¬Offered result.text fix := by
  obtain ⟨result', checked', hround', htext, happlied, -⟩ := h.isDefault.fixContent hne filePath
  obtain ⟨rfl, rfl⟩ : result' = result ∧ checked' = checked := by
    simpa using hround'.symm.trans hround
  obtain ⟨hchecked, -, hskipped⟩ := Engine.fixContent_spec hround
  have hopen : ∀ f ∈ engine.fixable checked'.findings, f.suppressed = false := by
    intro f hf
    have := (List.mem_filter.mp hf).2
    simp only [Bool.and_eq_true, Bool.not_eq_true'] at this
    exact this.1.2
  have hmem (fix : Fix) : fix ∈ appliedFixes text (engine.fixable checked'.findings) ↔
      Offered text fix ∨ Unparenthesizes (Context.ofTokens (tokenize text) filePath) fix := by
    rw [mem_appliedFixes_iff (hskipped ▸ hsettles.skipped) hopen]
    constructor
    · rintro ⟨f, hf, hfix⟩
      exact h.offered_of_mem_fixable hne hchecked hf hfix
    · exact h.exists_mem_fixable hchecked hsettles.shown
  have hedit {fix : Fix} (hfix : fix ∈ appliedFixes text (engine.fixable checked'.findings)) :
      ∃ e ∈ result'.applied, e.proposal.fix = fix := by
    rw [happlied]
    exact List.mem_map.mp hfix
  have hkept (fix : Fix) : ¬Unparenthesizes (Context.ofTokens (tokenize text) filePath) fix := by
    intro hfix
    obtain ⟨e, he, rfl⟩ := hedit ((hmem fix).mpr (.inr hfix))
    exact (hsettles.keeps e he).1 hfix.description
  have hnone : NoneEnclosed text := by
    intro s hs
    by_contra henclosed
    have henclosed := (Bool.not_eq_false _).mp henclosed
    obtain ⟨fix, hfix⟩ := (reads_ofTokens text filePath).exists_unwrapping hs henclosed
    exact hkept fix ⟨s, hs, henclosed, hfix⟩
  rw [htext, applyFixes_text_eq]
  refine offered_foldr (P := fun e => e.description ≠ Want.raise.caption)
    (fun text e hpaired hnone he hraise => advances_of_offered hpaired hnone he hraise)
    hsettles.paired hnone (appliedFixes_pairwise _ _) (fun fix => ?_) fun fix hfix => ?_
  · rw [hmem]
    simp [hkept]
  · obtain ⟨e, he, rfl⟩ := hedit hfix
    exact ⟨(hsettles.keeps e he).2, hsettles.harmless e he⟩

section

variable {text filePath : Text} {fix : Fix}

/-- The fixes that a rule has. -/
def fixesOf (remarks : Except RuleFailure (List Remark)) : List Fix :=
  (remarks.toOption.getD []).filterMap (·.fix)

theorem mem_fixesOf {remarks : Except RuleFailure (List Remark)} :
    fix ∈ fixesOf remarks ↔ Fixes remarks fix := by
  cases remarks <;> simp [fixesOf, Fixes, Except.toOption]

/-- The fixes that the rules have for a text. -/
def allFixes (text filePath : Text) : List Fix :=
  builtinKinds.flatMap fun kind =>
    fixesOf (kind.remarks kind.metadata.options (Context.ofTokens (tokenize text) filePath))

theorem mem_allFixes : fix ∈ allFixes text filePath ↔
    Offered text fix ∨ Unparenthesizes (Context.ofTokens (tokenize text) filePath) fix := by
  simp only [allFixes, List.mem_flatMap, mem_fixesOf]
  exact (reads_ofTokens text filePath).fixes_iff (congrArg Text.lineStarts (sourceText_tokenize text))

/-- A round settles a text without comments that suppress findings if no fix for it stands inside
another one. -/
theorem settles_of_allFixes {engine : Engine} (hengine : Engine.create {} = .ok engine)
    {result : FixResult} {checked : Engine.Checked} (hne : text ≠ [])
    (hround : engine.fixContent text filePath = .ok (result, checked))
    (hpaired : (outlineOf text).AllPaired) (hsilent : Suppression.ofTokens (tokenize text) = [])
    (hapart : ∀ d ∈ allFixes text filePath, ∀ e ∈ allFixes text filePath, ¬d.span.Inside e.span)
    (hkeeps : ∀ e ∈ allFixes text filePath, e.description ≠ "Remove the parentheses" ∧
      e.description ≠ Want.raise.caption)
    (hharmless : ∀ e ∈ allFixes text filePath, Harmless text e) : result.Settles checked text := by
  obtain ⟨engine', hengine', hcomplete⟩ := Engine.create_complete
  obtain rfl := Except.ok.inj (hengine'.symm.trans hengine)
  obtain ⟨hchecked, happlied, hskipped⟩ := Engine.fixContent_spec hround
  have hoptions : ∀ id settings, ({} : Config).ruleSettings id = .ok settings → settings.options = [] := by
    rintro id settings ⟨⟩
    rfl
  obtain ⟨hconfig, hrules, hnodup⟩ := Engine.create_rules hoptions hengine
  have hterminator : engine'.config.terminator = .text ";" := by rw [hconfig]
  obtain ⟨htidy, hfits⟩ := Engine.fixable_tidy hterminator hrules hnodup hchecked
  have hfix {f : Finding} {fix : Fix} (hf : f ∈ engine'.fixable checked.findings) (hfix : f.fix = some fix) :
      fix ∈ allFixes text filePath :=
    mem_allFixes.mpr (hcomplete.offered_of_mem_fixable hne hchecked hf hfix)
  have happliedFix : ∀ e ∈ result.applied, e.proposal.fix ∈ allFixes text filePath := by
    intro e he
    rw [happlied] at he
    obtain ⟨f, hf, hffix⟩ := exists_of_mem_applied he
    exact hfix hf hffix
  refine ⟨hpaired, fun f hf _ => ?_, ?_, fun e he => hkeeps _ (happliedFix e he), fun e he =>
    hharmless _ (happliedFix e he)⟩
  · obtain ⟨context, hcontext, hfound⟩ := Engine.checkText_spec hchecked
    obtain rfl := Except.ok.inj ((hcomplete.isDefault.contextOf text filePath).symm.trans hcontext)
    rw [hfound] at hf
    obtain ⟨g, hg, hscreened⟩ := List.mem_filterMap.mp hf
    change engine'.screened (Suppression.ofTokens (tokenize text)) g = some f at hscreened
    rw [hsilent, Engine.screened] at hscreened
    split_ifs at hscreened with hbelow hhides
    · cases hhides
    · exact (Option.some.inj hscreened) ▸ suppressed_of_mem_runAll hg
  · refine List.eq_nil_iff_forall_not_mem.mpr fun k hk => ?_
    rw [hskipped] at hk
    obtain ⟨e, he, hinside, -⟩ := nested_of_mem_skipped htidy (fun f hf fix hfix => (hfits f hf fix hfix).2) hk
    obtain ⟨hmem, hkfix⟩ := mem_of_mem_skipped hk
    exact hapart _ (hfix hmem hkfix) _ (happliedFix e (happlied ▸ he)) hinside

end

end HouseStyle
