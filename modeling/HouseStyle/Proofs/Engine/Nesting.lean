import HouseStyle.Proofs.Engine.CodeKept
import HouseStyle.Proofs.Engine.Checked
import HouseStyle.Proofs.Rule.Tidy

/-! Fixes that rules find together conflict by nesting only. Any two of them are clear of each other,
or one is strictly inside the other, which puts parentheses around a header or takes them away. So a
fix that is skipped stands inside an applied one of that kind. -/

namespace HouseStyle

open Rule

/-- A rule that comes with the checker, with the options that it comes with. -/
structure Rule.IsBuiltin (rule : Rule) : Prop where
  kind : rule.kind ∈ builtinKinds
  options : rule.options = rule.kind.metadata.options

/-- Findings whose fixes are tidy. -/
def Finding.Tidy (f g : Finding) : Prop :=
  ∀ a ∈ f.fix, ∀ b ∈ g.fix, Rule.Tidy (f.ruleId, a.span) (g.ruleId, b.span)

theorem Finding.Tidy.symm {f g : Finding} (h : f.Tidy g) : g.Tidy f :=
  fun b hb a ha => (h a ha b hb).symm

/-- A finding whose fix puts in a text at a site of its rule. -/
def Finding.Sited (c : Context) (text : Text) (f : Finding) : Prop :=
  ∀ fix ∈ f.fix, ∃ x : Site, x.Takes c text f.ruleId fix

theorem Site.Spans.stop_le {text : Text} {o : Outline} {x : Site} {span : Span}
    (h : x.Spans text o span) : span.stop ≤ text.length := by
  have hlength : (joined (lexemes text)).length = text.length := congrArg _ (lexemes_join text)
  rw [← hlength]
  cases h with
  | ending b _ _ _ _ _ _ hstop => exact hstop.trans_le (offset_le_length _ _)
  | header k i _ _ _ _ hstop => exact hstop.trans_le (offset_le_length _ _)
  | comment m _ _ _ _ hstop => exact hstop.trans (offset_le_length _ _)

theorem mapM_map {ε α β γ : Type} {f : α → Except ε β} {p : α → γ} {q : β → γ}
    (hpq : ∀ x y, f x = .ok y → q y = p x) {xs : List α} {ys : List β} (h : xs.mapM f = .ok ys) :
    ys.map q = xs.map p := by
  have hall := forall₂_of_mapM h
  clear h
  induction hall with
  | nil => rfl
  | cons hx _ ih => rw [List.map_cons, List.map_cons, hpq _ _ hx, ih]

/-! ### Rules -/

namespace Rule

variable {c : Context} {text end_ : Text}

/-- The findings of one rule. -/
theorem findings_tidy (h : c.ReadsWith text end_) {rule : Rule} (hrule : rule.IsBuiltin)
    {fs : List Finding} (hfs : rule.findings c = .ok fs) :
    fs.Pairwise Finding.Tidy ∧ ∀ f ∈ fs, f.ruleId = rule.id ∧ f.Sited c text := by
  obtain ⟨rs, hrs, hfs⟩ := bind_eq_ok.mp hfs
  rw [hrule.options] at hrs
  have hsited : Rule.Sited c text rule.id rs := h.sited_of_mem_builtinKinds hrule.kind hrs
  have hid : ∀ f ∈ fs, f.ruleId = rule.id := by
    intro f hf
    obtain ⟨r, -, hfinding⟩ := mem_of_mapM hfs hf
    exact finding_ruleId hfinding
  constructor
  · have hfix : fs.map (·.fix) = rs.map (·.fix) := mapM_map (fun _ _ => finding_fix) hfs
    have htidy : (rs.map (·.fix)).Pairwise fun a b => ∀ fix ∈ a, ∀ fix' ∈ b,
        Rule.Tidy (rule.id, fix.span) (rule.id, fix'.span) := List.pairwise_map.mpr hsited.tidy
    rw [← hfix, List.pairwise_map] at htidy
    refine htidy.imp_of_mem fun hf hg hfg => ?_
    rw [Finding.Tidy, hid _ hf, hid _ hg]
    exact hfg
  · refine fun f hf => ⟨hid f hf, fun fix hfix => ?_⟩
    obtain ⟨r, hr, hfinding⟩ := mem_of_mapM hfs hf
    rw [hid f hf]
    exact hsited.takes r hr fix ((finding_fix hfinding).symm.trans hfix)

theorem tidy_of_ruleId_ne (h : c.ReadsWith text end_) {f g : Finding} (hf : f.Sited c text)
    (hg : g.Sited c text) (hne : f.ruleId ≠ g.ruleId) : f.Tidy g := by
  intro a ha b hb
  obtain ⟨x, hx⟩ := hf a ha
  obtain ⟨y, hy⟩ := hg b hb
  have hxy : x ≠ y := by
    rintro rfl
    exact hne (hx.rule.symm.trans hy.rule)
  have htidy := h.tidy_of_ne hx.spans hy.spans hxy
  rwa [hx.rule, hy.rule] at htidy

/-- The findings of rules with different ids. -/
theorem outcomes_tidy (h : c.ReadsWith text end_) {rules : List Rule}
    (hrules : ∀ rule ∈ rules, rule.IsBuiltin) (hnodup : (rules.map Rule.id).Nodup) :
    (outcomes c rules).1.Pairwise Finding.Tidy ∧
      ∀ f ∈ (outcomes c rules).1, f.ruleId ∈ rules.map Rule.id ∧ f.Sited c text := by
  induction rules with
  | nil => exact ⟨.nil, by simp [outcomes]⟩
  | cons rule rest ih =>
    rw [List.map_cons, List.nodup_cons] at hnodup
    obtain ⟨htidy, hsited⟩ := ih (fun other hother => hrules other (by simp [hother])) hnodup.2
    simp only [outcomes]
    cases hfs : rule.findings c with
    | error failure => exact ⟨htidy, fun f hf => ⟨by simp [(hsited f hf).1], (hsited f hf).2⟩⟩
    | ok fs =>
      obtain ⟨hhere, hids⟩ := findings_tidy h (hrules rule (by simp)) hfs
      refine ⟨List.pairwise_append.mpr ⟨hhere, htidy, fun f hf g hg => ?_⟩, fun f hf => ?_⟩
      · refine tidy_of_ruleId_ne h (hids f hf).2 (hsited g hg).2 fun heq => hnodup.1 ?_
        rw [← (hids f hf).1, heq]
        exact (hsited g hg).1
      · rcases List.mem_append.mp hf with hf | hf
        · exact ⟨by simp [(hids f hf).1], (hids f hf).2⟩
        · exact ⟨by simp [(hsited f hf).1], (hsited f hf).2⟩

theorem runAll_tidy (h : c.ReadsWith text end_) {rules : List Rule}
    (hrules : ∀ rule ∈ rules, rule.IsBuiltin) (hnodup : (rules.map Rule.id).Nodup) :
    (runAll c rules).1.Pairwise Finding.Tidy ∧ ∀ f ∈ (runAll c rules).1, f.Sited c text := by
  obtain ⟨htidy, hsited⟩ := outcomes_tidy h hrules hnodup
  have hperm : (runAll c rules).1.Perm (outcomes c rules).1 := List.mergeSort_perm _ _
  exact ⟨hperm.symm.pairwise htidy Finding.Tidy.symm,
    fun f hf => (hsited f (hperm.mem_iff.mp hf)).2⟩

end Rule

/-! ### Applying fixes -/

section

variable {text : Text} {findings : List Finding}

theorem proposals_tidy (h : findings.Pairwise Finding.Tidy) :
    (proposals findings).Pairwise fun p q =>
      Rule.Tidy (p.finding.ruleId, p.span) (q.finding.ruleId, q.span) := by
  refine (proposals_perm findings).symm.pairwise ?_ Rule.Tidy.symm
  refine h.filterMap _ fun f g hfg p hp q hq => ?_
  have hof {f : Finding} {p : Proposal} (h : Proposal.ofFinding? f = some p) :
      p.finding = f ∧ f.fix = some p.fix := by
    unfold Proposal.ofFinding? at h
    split_ifs at h
    obtain ⟨fix, hfix, rfl⟩ := Option.map_eq_some_iff.mp h
    exact ⟨rfl, hfix⟩
  obtain ⟨rfl, hpfix⟩ := hof hp
  obtain ⟨rfl, hqfix⟩ := hof hq
  exact hfg p.fix hpfix q.fix hqfix

/-- Among tidy fixes a skipped one stands inside an applied one that regroups a header. -/
theorem nested_of_mem_skipped (h : findings.Pairwise Finding.Tidy)
    (hin : ∀ f ∈ findings, ∀ fix ∈ f.fix, fix.span.stop ≤ text.length) {k : Skipped}
    (hk : k ∈ (applyFixes text findings).skipped) :
    ∃ e ∈ (applyFixes text findings).applied,
      k.proposal.span.Inside e.oldSpan ∧ e.proposal.finding.ruleId ∈ groupingRules := by
  have hskipped : k ∈ (selected text findings).skipped := List.mem_reverse.mp hk
  have hjustified := (select_sound text.length findings).justified k hskipped
  unfold Selection.Justified at hjustified
  cases hreason : k.reason with
  | outside =>
    obtain ⟨hmem, hfix⟩ := mem_of_mem_skipped hk
    have := hin _ hmem _ hfix
    simp only [hreason, Proposal.span] at hjustified
    omega
  | overlap blocker =>
    simp only [hreason] at hjustified
    obtain ⟨haccepted, hoverlaps⟩ := hjustified
    have hle := select_ordered text.length findings k hskipped blocker hreason
    have htidy := ((selected_perm text findings).symm.pairwise (proposals_tidy h) Rule.Tidy.symm)
    have hboth := (List.pairwise_append.mp htidy).2.2 blocker (List.mem_reverse.mpr haccepted)
      k.proposal (List.mem_map_of_mem hk)
    obtain ⟨e, he, rfl⟩ := mem_applied text findings haccepted
    refine ⟨e, he, ?_⟩
    rcases hboth.2 with hclear | ⟨hinside, -⟩ | hnested
    · rw [Span.overlaps_comm, hoverlaps] at hclear
      cases hclear
    · exact absurd hinside.1 hle.not_gt
    · exact hnested

end

/-! ### The engine -/

theorem mapM_sublist {ε α β γ : Type} {f : α → Except ε β} {p : α → γ} {q : β → Option γ}
    (hpq : ∀ x y, f x = .ok y → ∀ z ∈ q y, z = p x) {xs : List α} {ys : List β}
    (h : xs.mapM f = .ok ys) : (ys.filterMap q).Sublist (xs.map p) := by
  have hall := forall₂_of_mapM h
  clear h
  induction hall with
  | nil => exact .slnil
  | @cons x y xs ys hx _ ih =>
    rw [List.map_cons]
    cases hq : q y with
    | none =>
      rw [List.filterMap_cons_none hq]
      exact ih.cons _
    | some z =>
      rw [List.filterMap_cons_some hq, hpq x y hx z hq]
      exact ih.cons_cons _

theorem Registry.builtin_kinds_perm :
    (Registry.builtin.ids.filterMap Registry.builtin.find?).Perm builtinKinds :=
  ((List.mergeSort_perm _ _).filterMap _).trans (.of_eq rfl)

/-- The rules of the registry have ids of their own. -/
theorem Registry.builtin_rules :
    (∀ rule ∈ builtin.rules, rule.IsBuiltin) ∧ (builtin.rules.map Rule.id).Nodup := by
  constructor
  · intro rule hrule
    obtain ⟨kind, hkind, rfl⟩ := List.mem_map.mp (builtin_rules_perm.mem_iff.mp hrule)
    exact ⟨hkind, rfl⟩
  · have hnodup : ((builtinKinds.map fun kind => kind.create).map Rule.id).Nodup := by decide
    exact (builtin_rules_perm.map _).nodup_iff.mpr hnodup

namespace Engine

theorem configured_spec {config : Config} {preset : Preset} {kind : RuleKind}
    {made : Option (Rule × Bool) × List Text} (h : configured config preset kind = .ok made)
    {rule : Rule} {autofix : Bool} (hmade : made.1 = some (rule, autofix)) :
    ∃ settings severity, config.ruleSettings kind.metadata.id = .ok settings ∧
      rule = kind.create settings.options severity := by
  obtain ⟨settings, hsettings, h⟩ := bind_eq_ok.mp h
  extract_lets enabled make at h
  by_cases henabled : enabled
  · rw [if_pos henabled] at h
    have hmakes : ∃ found, make found = .ok made := by
      split at h
      · obtain ⟨found, -, h⟩ := bind_eq_ok.mp h
        exact ⟨found, h⟩
      · obtain ⟨found, -, h⟩ := bind_eq_ok.mp h
        exact ⟨found, h⟩
    obtain ⟨⟨severity, warnings⟩, hmakes⟩ := hmakes
    cases hmakes
    cases hmade
    exact ⟨settings, severity, hsettings, rfl⟩
  · rw [if_neg henabled] at h
    cases h
    cases hmade

/-- The rules of an engine are made of the kinds of the registry, each by its settings. -/
theorem create_spec {config : Config} {e : Engine} (h : create config = .ok e) :
    e.config = config ∧ ∃ preset made,
      (Registry.builtin.ids.filterMap Registry.builtin.find?).mapM (configured config preset) =
        .ok made ∧
      e.rules = made.filterMap fun m => m.1.map Prod.fst := by
  obtain ⟨⟨threshold, w₁⟩, -, h⟩ := bind_eq_ok.mp h
  obtain ⟨preset, -, h⟩ := bind_eq_ok.mp h
  extract_lets kinds make at h
  have hmakes : ∃ w₂, make w₂ = .ok e := by
    split at h
    · obtain ⟨w₂, -, h⟩ := bind_eq_ok.mp h
      exact ⟨w₂, h⟩
    · obtain ⟨name, -, h⟩ := bind_eq_ok.mp h
      obtain ⟨w₂, -, h⟩ := bind_eq_ok.mp h
      exact ⟨w₂, h⟩
  obtain ⟨w₂, h⟩ := hmakes
  obtain ⟨ids, -, h⟩ := bind_eq_ok.mp h
  obtain ⟨w₃, -, h⟩ := bind_eq_ok.mp h
  obtain ⟨made, hmade, h⟩ := bind_eq_ok.mp h
  cases h
  exact ⟨rfl, _, made, hmade, List.map_filterMap⟩

/-- The rules of an engine, if the configuration gives no options to rules. -/
theorem create_rules {config : Config}
    (hoptions : ∀ id settings, config.ruleSettings id = .ok settings → settings.options = [])
    {e : Engine} (h : create config = .ok e) :
    e.config = config ∧ (∀ rule ∈ e.rules, rule.IsBuiltin) ∧ (e.rules.map Rule.id).Nodup := by
  obtain ⟨hconfig, preset, made, hmade, hrules⟩ := create_spec h
  have hkind {kind : RuleKind} {m : Option (Rule × Bool) × List Text}
      (hm : configured config preset kind = .ok m) {rule : Rule} (hrule : m.1.map Prod.fst = some rule) :
      ∃ severity, rule = kind.create [] severity := by
    obtain ⟨⟨rule', autofix⟩, hm1, rfl⟩ := Option.map_eq_some_iff.mp hrule
    obtain ⟨settings, severity, hsettings, rfl⟩ := configured_spec hm hm1
    exact ⟨severity, by rw [hoptions _ _ hsettings]⟩
  refine ⟨hconfig, fun rule hrule => ?_, ?_⟩
  · rw [hrules] at hrule
    obtain ⟨m, hm, hrule⟩ := List.mem_filterMap.mp hrule
    obtain ⟨kind, hmem, hconfigured⟩ := mem_of_mapM hmade hm
    obtain ⟨severity, rfl⟩ := hkind hconfigured hrule
    exact ⟨Registry.builtin_kinds_perm.mem_iff.mp hmem, rfl⟩
  · have hsublist : (e.rules.map Rule.id).Sublist
        ((Registry.builtin.ids.filterMap Registry.builtin.find?).map (·.metadata.id)) := by
      rw [hrules, List.map_filterMap]
      refine mapM_sublist (fun kind m hm id hid => ?_) hmade
      obtain ⟨rule, hrule, rfl⟩ := Option.map_eq_some_iff.mp hid
      obtain ⟨severity, rfl⟩ := hkind hm hrule
      rfl
    have hnodup : (builtinKinds.map (·.metadata.id)).Nodup := by decide
    exact hsublist.nodup ((Registry.builtin_kinds_perm.map _).nodup_iff.mpr hnodup)

theorem fixContent_spec {e : Engine} {text filePath : Text} {result : FixResult} {checked : Checked}
    (h : e.fixContent text filePath = .ok (result, checked)) :
    e.checkText text filePath = .ok checked ∧
      result.applied = (applyFixes text (e.fixable checked.findings)).applied ∧
      result.skipped = (applyFixes text (e.fixable checked.findings)).skipped := by
  obtain ⟨checked', hchecked, h⟩ := bind_eq_ok.mp h
  obtain ⟨result', hresult, h⟩ := bind_eq_ok.mp h
  cases h
  obtain ⟨-, -, h⟩ := bind_eq_ok.mp hresult
  cases h
  exact ⟨hchecked, rfl, rfl⟩

/-- What an engine finds in a text is tidy, and so are the findings that it may fix. -/
theorem fixable_tidy {e : Engine} {terminator : Text} (hterminator : e.config.terminator = .text terminator)
    (hrules : ∀ rule ∈ e.rules, rule.IsBuiltin) (hnodup : (e.rules.map Rule.id).Nodup)
    {text filePath : Text} {checked : Checked} (h : e.checkText text filePath = .ok checked) :
    (e.fixable checked.findings).Pairwise Finding.Tidy ∧
      ∀ f ∈ e.fixable checked.findings, ∀ fix, f.fix = some fix →
        (∃ t, fix.replacement = .text t) ∧ fix.span.stop ≤ text.length := by
  obtain ⟨context, hcontext, hfound⟩ := checkText_spec h
  obtain ⟨contextLines, rfl⟩ := contextOf_spec hcontext
  have hreads : (Context.ofTokens (tokenize text) filePath e.config.lookahead e.config.terminator
      contextLines).ReadsWith text terminator :=
    ⟨sourceText_tokenize text, by rw [hterminator]; rfl, hterminator⟩
  obtain ⟨htidy, hsited⟩ := Rule.runAll_tidy hreads hrules hnodup
  constructor
  · rw [fixable, hfound]
    refine (htidy.filterMap _ fun f g hfg f' hf' g' hg' a ha b hb => ?_).filter _
    rw [screened_ruleId hf', screened_ruleId hg']
    exact hfg a ((screened_fix hf').symm.trans ha) b ((screened_fix hg').symm.trans hb)
  · intro f hf fix hfix
    have hmem := (List.mem_filter.mp hf).1
    rw [hfound] at hmem
    obtain ⟨g, hg, hscreened⟩ := List.mem_filterMap.mp hmem
    obtain ⟨x, hx⟩ := hsited g hg fix ((screened_fix hscreened).symm.trans hfix)
    exact ⟨hx.replacement, hx.spans.stop_le⟩

end Engine

/-- Fixes of rules that come with the checker conflict by nesting only, for any text and terminator:
those of different rules in one run start apart, and they are clear of each other or one is strictly
inside the other, whose rule puts parentheses around headers or takes them away. So whatever
configuration gives no options to rules, a fix that is skipped stands inside an applied one of such a
rule; and with the terminator alone configured, any text that is not empty can be fixed. -/
theorem builtin_fixes_nest (text filePath terminator : Text) :
    (∀ lookahead contextLines rules, (∀ rule ∈ rules, rule.IsBuiltin) → (rules.map Rule.id).Nodup →
      (Rule.runAll (Context.ofTokens (tokenize text) filePath lookahead (.text terminator)
        contextLines) rules).1.Pairwise Finding.Tidy) ∧
    (∀ config engine result checked, config.terminator = .text terminator →
      (∀ id settings, config.ruleSettings id = .ok settings → settings.options = []) →
      Engine.create config = .ok engine → engine.fixContent text filePath = .ok (result, checked) →
      ∀ k ∈ result.skipped, ∃ e ∈ result.applied, k.proposal.span.Inside e.oldSpan ∧
        e.proposal.finding.ruleId ∈ groupingRules) ∧
    (text ≠ [] → ∃ engine result, Engine.create { terminator := .text terminator } = .ok engine ∧
      engine.fixContent text filePath = .ok result) := by
  refine ⟨?_, ?_, ?_⟩
  · intro lookahead contextLines rules hrules hnodup
    exact (Rule.runAll_tidy ⟨sourceText_tokenize text, rfl, rfl⟩ hrules hnodup).1
  · intro config engine result checked hterminator hoptions hengine hresult
    obtain ⟨rfl, hrules, hnodup⟩ := Engine.create_rules hoptions hengine
    obtain ⟨hchecked, happlied, hskipped⟩ := Engine.fixContent_spec hresult
    obtain ⟨htidy, hfits⟩ := Engine.fixable_tidy hterminator hrules hnodup hchecked
    intro k hk
    rw [hskipped] at hk
    rw [happlied]
    exact nested_of_mem_skipped htidy (fun f hf fix hfix => (hfits f hf fix hfix).2) hk
  · intro hne
    obtain ⟨engine, hengine, hconfig, hkinds⟩ := Engine.create_with_terminator (.text terminator)
    have hoptions : ∀ id settings, ({ terminator := .text terminator } : Config).ruleSettings id =
        .ok settings → settings.options = [] := by
      rintro id settings ⟨⟩
      rfl
    obtain ⟨-, hrules, hnodup⟩ := Engine.create_rules hoptions hengine
    have hterminator : engine.config.terminator = .text terminator := by rw [hconfig]
    have hworkers : engine.config.ruleWorkers.exceeds 1 = .ok false := by
      rw [hconfig]
      rfl
    have hcontext : ∃ context, engine.contextOf text filePath = .ok context := by
      rw [Engine.contextOf, hconfig]
      exact ⟨_, rfl⟩
    obtain ⟨context, hcontext⟩ := hcontext
    obtain ⟨checked, hchecked⟩ := Engine.checkText_ok hne hcontext hworkers
    obtain ⟨-, hfits⟩ := Engine.fixable_tidy hterminator hrules hnodup hchecked
    obtain ⟨result, hresult, -⟩ := @fixText_of_texts text filePath _
      fun f hf fix hfix => (hfits f hf fix hfix).1
    refine ⟨engine, (result, checked), hengine, ?_⟩
    rw [Engine.fixContent, hchecked]
    simp only [Engine.fixFound, hresult, bind, Except.bind, pure, Except.pure]

/-- A statement in a closure in the condition of an `if`, where one fix stands in another. -/
theorem builtin_fixes_nest_closure :
    (Rule.runAll (Context.ofTokens (tokenize "if f(\x7ba\n\x7d)\x7b\x7d") "a.swift")
      Registry.builtin.rules).1.Pairwise Finding.Tidy ∧
    ∃ engine result checked, Engine.create {} = .ok engine ∧
      engine.fixContent "if f(\x7ba\n\x7d)\x7b\x7d" "a.swift" = .ok (result, checked) ∧
      ∀ k ∈ result.skipped, ∃ e ∈ result.applied, k.proposal.span.Inside e.oldSpan ∧
        e.proposal.finding.ruleId ∈ groupingRules := by
  obtain ⟨htidy, hnested, hfixed⟩ :=
    builtin_fixes_nest "if f(\x7ba\n\x7d)\x7b\x7d" "a.swift" ";"
  obtain ⟨engine, ⟨result, checked⟩, hengine, hresult⟩ := hfixed (by decide)
  refine ⟨htidy _ _ _ Registry.builtin_rules.1 Registry.builtin_rules.2, engine, result, checked,
    hengine, hresult, ?_⟩
  refine hnested {} engine result checked rfl ?_ hengine hresult
  rintro id settings ⟨⟩
  rfl

end HouseStyle
