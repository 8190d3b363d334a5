import HouseStyle.Engine
import HouseStyle.Proofs.Edit.ConflictFree
import HouseStyle.Proofs.Rule.Builtin
import HouseStyle.Proofs.Rule.Placed
import HouseStyle.Proofs.Text.Breaks

/-! What an engine finds. Each finding comes from a remark of one of its rules, with the fix of that
remark; the engine of the default configuration has rules that come with the checker. None of these
fails, every finding stands where its location says and lies in the text with its fix, so no fix is
skipped for lying outside. -/

namespace HouseStyle

/-! ### Findings -/

/-- What is made of the items of a list, item by item. -/
theorem forall₂_of_mapM {ε α β : Type} {f : α → Except ε β} {xs : List α} {ys : List β}
    (h : xs.mapM f = .ok ys) : List.Forall₂ (fun x y => f x = .ok y) xs ys := by
  induction xs generalizing ys with
  | nil =>
    cases h
    exact .nil
  | cons x xs ih =>
    rw [List.mapM_cons] at h
    obtain ⟨y, hx, h⟩ := bind_eq_ok.mp h
    obtain ⟨rest, hrest, h⟩ := bind_eq_ok.mp h
    cases h
    exact .cons hx (ih hrest)

theorem mem_of_mapM {ε α β : Type} {f : α → Except ε β} {xs : List α} {ys : List β}
    (h : xs.mapM f = .ok ys) {y : β} (hy : y ∈ ys) : ∃ x ∈ xs, f x = .ok y := by
  obtain ⟨i, hi, rfl⟩ := List.getElem_of_mem hy
  obtain ⟨hlength, hget⟩ := List.forall₂_iff_get.mp (forall₂_of_mapM h)
  exact ⟨xs[i], List.getElem_mem (hlength ▸ hi), hget i (hlength ▸ hi) hi⟩

theorem mapM_eq_map {ε α β : Type} {f : α → Except ε β} {g : α → β} (h : ∀ x, f x = .ok (g x))
    (xs : List α) : xs.mapM f = .ok (xs.map g) := by
  induction xs with
  | nil => rfl
  | cons x xs ih =>
    rw [List.mapM_cons, h, ih]
    rfl

namespace Rule

variable {c : Context} {f : Finding}

/-- The finding of a remark carries its fix. -/
theorem finding_fix {rule : Rule} {r : Remark} (h : rule.finding c r = .ok f) : f.fix = r.fix := by
  obtain ⟨snippet, -, h⟩ := bind_eq_ok.mp h
  cases h
  rfl

theorem finding_span {rule : Rule} {r : Remark} (h : rule.finding c r = .ok f) :
    f.span = r.span := by
  obtain ⟨snippet, -, h⟩ := bind_eq_ok.mp h
  cases h
  rfl

theorem finding_suppressed {rule : Rule} {r : Remark} (h : rule.finding c r = .ok f) :
    f.suppressed = false := by
  obtain ⟨snippet, -, h⟩ := bind_eq_ok.mp h
  cases h
  rfl

theorem finding_ruleId {rule : Rule} {r : Remark} (h : rule.finding c r = .ok f) :
    f.ruleId = rule.id := by
  obtain ⟨snippet, -, h⟩ := bind_eq_ok.mp h
  cases h
  rfl

theorem finding_filePath {rule : Rule} {r : Remark} (h : rule.finding c r = .ok f) :
    f.filePath = c.filePath := by
  obtain ⟨snippet, -, h⟩ := bind_eq_ok.mp h
  cases h
  rfl

theorem exists_remark_of_mem_findings {rule : Rule} {fs : List Finding}
    (h : rule.findings c = .ok fs) (hf : f ∈ fs) :
    ∃ rs, rule.kind.remarks rule.options c = .ok rs ∧ ∃ r ∈ rs, r.fix = f.fix := by
  obtain ⟨rs, hrs, h⟩ := bind_eq_ok.mp h
  obtain ⟨r, hr, hfinding⟩ := mem_of_mapM h hf
  exact ⟨rs, hrs, r, hr, (finding_fix hfinding).symm⟩

theorem exists_of_mem_outcomes {rules : List Rule} (h : f ∈ (outcomes c rules).1) :
    ∃ rule ∈ rules, ∃ fs, rule.findings c = .ok fs ∧ f ∈ fs := by
  induction rules with
  | nil => cases h
  | cons rule rest ih =>
    simp only [outcomes] at h
    cases hfs : rule.findings c with
    | error e =>
      rw [hfs] at h
      obtain ⟨other, hother, hfs⟩ := ih h
      exact ⟨other, by simp [hother], hfs⟩
    | ok fs =>
      rw [hfs] at h
      rcases List.mem_append.mp h with h | h
      · exact ⟨rule, by simp, fs, hfs, h⟩
      · obtain ⟨other, hother, hfs⟩ := ih h
        exact ⟨other, by simp [hother], hfs⟩

/-- What rules find on a file comes from their remarks. -/
theorem exists_remark_of_mem_runAll {rules : List Rule} (h : f ∈ (runAll c rules).1) :
    ∃ rule ∈ rules, ∃ rs, rule.kind.remarks rule.options c = .ok rs ∧ ∃ r ∈ rs, r.fix = f.fix := by
  have hmem : f ∈ (outcomes c rules).1 := (List.mergeSort_perm _ _).mem_iff.mp h
  obtain ⟨rule, hrule, fs, hfs, hf⟩ := exists_of_mem_outcomes hmem
  exact ⟨rule, hrule, exists_remark_of_mem_findings hfs hf⟩

/-- What rules find is not suppressed yet. -/
theorem suppressed_of_mem_runAll {rules : List Rule} (h : f ∈ (runAll c rules).1) :
    f.suppressed = false := by
  have hmem : f ∈ (outcomes c rules).1 := (List.mergeSort_perm _ _).mem_iff.mp h
  obtain ⟨rule, -, fs, hfs, hf⟩ := exists_of_mem_outcomes hmem
  obtain ⟨rs, -, hfs⟩ := bind_eq_ok.mp hfs
  obtain ⟨r, -, hfinding⟩ := mem_of_mapM hfs hf
  exact finding_suppressed hfinding

end Rule

theorem Registry.mem_builtinKinds {id : Text} {kind : RuleKind}
    (h : Registry.builtin.find? id = some kind) : kind ∈ Rule.builtinKinds := by
  obtain ⟨before, after, hkinds, -⟩ := List.lookup_eq_some_iff.mp h
  have hmem : (id, kind) ∈ Registry.builtin.kinds := by simp [hkinds]
  obtain ⟨k, hk, hpair⟩ := List.mem_map.mp hmem
  cases hpair
  exact hk

namespace Engine

section

variable {e : Engine} {suppressions : Suppression.Lines} {f g : Finding}

/-- A finding that passes the screen is not below the threshold, and may have been marked. -/
theorem screened_spec (h : e.screened suppressions f = some g) :
    ¬f.severity.lt e.threshold ∧
      (g = f ∨ g = { f with suppressed := true, suppressionReason := some suppressionReason }) := by
  unfold screened at h
  split_ifs at h with hlow hhidden
  · exact ⟨hlow, .inr (Option.some.inj h).symm⟩
  · exact ⟨hlow, .inl (Option.some.inj h).symm⟩

/-- Screening a finding keeps its fix. -/
theorem screened_fix (h : e.screened suppressions f = some g) : g.fix = f.fix := by
  rcases (screened_spec h).2 with rfl | rfl <;> rfl

theorem screened_filePath (h : e.screened suppressions f = some g) : g.filePath = f.filePath := by
  rcases (screened_spec h).2 with rfl | rfl <;> rfl

theorem screened_ruleId (h : e.screened suppressions f = some g) : g.ruleId = f.ruleId := by
  rcases (screened_spec h).2 with rfl | rfl <;> rfl

end

/-- What an engine finds in a text are the findings of its rules, screened. -/
theorem checkText_spec {e : Engine} {text filePath : Text} {checked : Checked}
    (h : e.checkText text filePath = .ok checked) :
    ∃ context, e.contextOf text filePath = .ok context ∧ checked.findings =
      (Rule.runAll context e.rules).1.filterMap
        (e.screened (Suppression.ofTokens context.tokens.toList)) := by
  unfold Engine.checkText at h
  split at h
  · cases h
  · obtain ⟨context, hcontext, h⟩ := bind_eq_ok.mp h
    obtain ⟨many, -, h⟩ := bind_eq_ok.mp h
    cases h
    exact ⟨context, hcontext, rfl⟩

theorem checkText_ok {e : Engine} {text filePath : Text} (hne : text ≠ []) {context : Context}
    (hcontext : e.contextOf text filePath = .ok context) {many : Bool}
    (hworkers : e.config.ruleWorkers.exceeds 1 = .ok many) :
    ∃ checked, e.checkText text filePath = .ok checked := by
  have hempty : text.isEmpty = false := by simpa using hne
  simp only [Engine.checkText, hempty, hcontext, hworkers, Bool.false_eq_true, if_false]
  exact ⟨_, rfl⟩

theorem contextOf_spec {e : Engine} {text filePath : Text} {context : Context}
    (h : e.contextOf text filePath = .ok context) :
    ∃ contextLines, context = Context.ofTokens (tokenize text) filePath e.config.lookahead
      e.config.terminator contextLines := by
  obtain ⟨contextLines, -, h⟩ := bind_eq_ok.mp h
  cases h
  exact ⟨contextLines, rfl⟩

/-- What is found in a text is about its file, and from a rule of the engine. -/
theorem checkText_about {e : Engine} {text filePath : Text} {checked : Checked}
    (h : e.checkText text filePath = .ok checked) :
    ∀ f ∈ checked.findings, f.filePath = filePath ∧ ∃ rule ∈ e.rules, f.ruleId = rule.id := by
  obtain ⟨context, hcontext, hfound⟩ := checkText_spec h
  obtain ⟨contextLines, rfl⟩ := contextOf_spec hcontext
  intro f hf
  rw [hfound] at hf
  obtain ⟨g, hg, hscreened⟩ := List.mem_filterMap.mp hf
  obtain ⟨rule, hrule, fs, hfs, hg⟩ := Rule.exists_of_mem_outcomes (List.mem_mergeSort.mp hg)
  obtain ⟨remarks, -, hfs⟩ := bind_eq_ok.mp hfs
  obtain ⟨remark, -, hfinding⟩ := mem_of_mapM hfs hg
  exact ⟨(screened_filePath hscreened).trans (Rule.finding_filePath hfinding), rule, hrule,
    (screened_ruleId hscreened).trans (Rule.finding_ruleId hfinding)⟩

/-! ### The default configuration -/

/-- The rule of a kind, unless the kind is off by default. -/
theorem configured_default (terminator : Value) (preset : Preset) (kind : RuleKind) :
    configured { terminator } preset kind =
      .ok (if enabledByPreset preset kind.metadata then (some (kind.create, true), []) else
        (none, [])) := by
  have hsettings : ({ terminator } : Config).ruleSettings kind.metadata.id = .ok {} := rfl
  unfold configured
  simp only [hsettings, bind, Except.bind]
  by_cases h : enabledByPreset preset kind.metadata
  · rw [if_pos h, if_pos h]
    rfl
  · rw [if_neg h, if_neg h]
    rfl

/-- An engine of the default configuration. Its rules come with the checker. -/
structure IsDefault (e : Engine) : Prop where
  config : e.config = {}
  rules : ∀ rule ∈ e.rules, ∃ kind ∈ Rule.builtinKinds, rule = kind.create

/-- The default configuration makes an engine under any terminator. -/
theorem create_with_terminator (terminator : Value) :
    ∃ e, create { terminator } = .ok e ∧ e.config = { terminator } ∧
      ∀ rule ∈ e.rules, ∃ kind ∈ Rule.builtinKinds, rule = kind.create := by
  have hseverity : readSeverity (({ terminator } : Config).severityThreshold) "severity_threshold" =
      .ok (some .info, []) := rfl
  have hpreset : Preset.named? ({ terminator } : Config).rulePreset = .ok (some .standard) := rfl
  have hnamed : ({ terminator } : Config).namedRules = .ok [] := rfl
  have hmade := mapM_eq_map (configured_default terminator .standard)
    (Registry.builtin.ids.filterMap Registry.builtin.find?)
  simp only [create, hseverity, hpreset, hnamed, unknownRules, Option.getD_some, hmade, bind,
    Except.bind, pure, Except.pure]
  refine ⟨_, rfl, rfl, fun rule hrule => ?_⟩
  simp only [List.mem_map, List.mem_filterMap] at hrule
  obtain ⟨made, ⟨result, ⟨kind, ⟨id, -, hfind⟩, rfl⟩, hmade⟩, rfl⟩ := hrule
  refine ⟨kind, ?_, ?_⟩
  · exact Registry.mem_builtinKinds hfind
  · split_ifs at hmade
    cases hmade
    rfl

theorem create_default : ∃ e, create {} = .ok e ∧ e.IsDefault := by
  obtain ⟨e, he, hconfig, hrules⟩ := create_with_terminator (.text ";")
  exact ⟨e, he, hconfig, hrules⟩

theorem reads_ofTokens (text filePath : Text) :
    (Context.ofTokens (tokenize text) filePath).Reads text where
  content := sourceText_tokenize text
  outline := rfl
  terminator := rfl

namespace IsDefault

variable {e : Engine} (h : e.IsDefault)
include h

/-- The context in which an engine of the default configuration checks a text. -/
theorem contextOf (text filePath : Text) :
    e.contextOf text filePath = .ok (Context.ofTokens (tokenize text) filePath) := by
  rw [Engine.contextOf, h.config]
  rfl

/-- What is found in a text. -/
theorem checkText {text : Text} (hne : text ≠ []) (filePath : Text) :
    ∃ checked, e.checkText text filePath = .ok checked ∧
      ∀ f ∈ checked.findings, ∃ rule ∈ e.rules, ∃ rs,
        rule.kind.remarks rule.options (Context.ofTokens (tokenize text) filePath) = .ok rs ∧
          ∃ r ∈ rs, r.fix = f.fix := by
  have hworkers : e.config.ruleWorkers.exceeds 1 = .ok false := by
    rw [h.config]
    rfl
  obtain ⟨checked, hchecked⟩ := checkText_ok hne (h.contextOf text filePath) hworkers
  refine ⟨checked, hchecked, fun f hf => ?_⟩
  obtain ⟨context, hcontext, hfound⟩ := checkText_spec hchecked
  obtain rfl := Except.ok.inj ((h.contextOf text filePath).symm.trans hcontext)
  rw [hfound] at hf
  obtain ⟨g, hg, hscreened⟩ := List.mem_filterMap.mp hf
  obtain ⟨rule, hrule, rs, hrs, r, hr, hfix⟩ := Rule.exists_remark_of_mem_runAll hg
  exact ⟨rule, hrule, rs, hrs, r, hr, hfix.trans (screened_fix hscreened).symm⟩

end IsDefault

end Engine

/-! ### Places -/

open Rule

/-- A finding that stands in a text where its location says, and whose fix lies in the text too. -/
structure Finding.Placed (f : Finding) (text filePath : Text) : Prop where
  start_le_stop : f.span.start ≤ f.span.stop
  stop_le : f.span.stop ≤ text.length
  location : ∃ p q, Position.ofOffset? text.lineStarts f.span.start = some p ∧
    Position.ofOffset? text.lineStarts f.span.stop = some q ∧
    f.location = ⟨filePath, p.line, q.line, p.column, q.column⟩
  fix : ∀ fix ∈ f.fix, fix.span.start ≤ fix.span.stop ∧ fix.span.stop ≤ text.length

namespace Rule

variable {c : Context} {text : Text}

theorem finding_ok {n : Int} (hlines : c.contextLines = .int n) (rule : Rule) (r : Remark) :
    ∃ f, rule.finding c r = .ok f := by
  unfold Rule.finding
  rw [hlines]
  exact ⟨_, rfl⟩

/-- The finding of a remark within a text stands where it says. -/
theorem finding_placed (hstarts : c.lineStarts = text.lineStarts) {rule : Rule} {r : Remark}
    {f : Finding} (hr : r.Within text.length) (h : rule.finding c r = .ok f) :
    f.Placed text c.filePath := by
  obtain ⟨snippet, -, h⟩ := bind_eq_ok.mp h
  cases h
  have hne : text.lineStarts ≠ [] := List.cons_ne_nil _ _
  obtain ⟨p, hp⟩ := Position.exists_ofOffset? hne r.span.start
  obtain ⟨q, hq⟩ := Position.exists_ofOffset? hne r.span.stop
  refine ⟨r.span.start_le_stop, hr.span, ⟨p, q, hp, hq, ?_⟩, fun fix hfix => ?_⟩
  · simp [Context.location, Context.position, hstarts, hp, hq]
  · exact ⟨fix.span.start_le_stop, hr.fix fix hfix⟩

theorem mapM_ok {ε α β : Type} {f : α → Except ε β} (h : ∀ x, ∃ y, f x = .ok y) (xs : List α) :
    ∃ ys, xs.mapM f = .ok ys := by
  choose g hg using h
  exact ⟨_, mapM_eq_map hg xs⟩

/-- A rule finds what it remarks on. -/
theorem findings_placed {n : Int} (hlines : c.contextLines = .int n)
    (hstarts : c.lineStarts = text.lineStarts) {rule : Rule}
    (h : Gives text.length (rule.kind.remarks rule.options c)) :
    ∃ fs, rule.findings c = .ok fs ∧ ∀ f ∈ fs, f.Placed text c.filePath := by
  obtain ⟨rs, hrs, hwithin⟩ := h
  obtain ⟨fs, hfs⟩ := mapM_ok (finding_ok hlines rule) rs
  refine ⟨fs, ?_, fun f hf => ?_⟩
  · rw [Rule.findings, hrs]
    exact hfs
  · obtain ⟨r, hr, hfinding⟩ := mem_of_mapM hfs hf
    exact finding_placed hstarts (hwithin r hr) hfinding

/-- Where no rule fails there are no failures. -/
theorem outcomes_placed {filePath : Text} {rules : List Rule}
    (h : ∀ rule ∈ rules, ∃ fs, rule.findings c = .ok fs ∧ ∀ f ∈ fs, f.Placed text filePath) :
    (outcomes c rules).2 = [] ∧ ∀ f ∈ (outcomes c rules).1, f.Placed text filePath := by
  induction rules with
  | nil => simp [outcomes]
  | cons rule rest ih =>
    obtain ⟨fs, hfs, hplaced⟩ := h rule (by simp)
    obtain ⟨hfailed, hrest⟩ := ih fun other hother => h other (by simp [hother])
    simp only [outcomes, hfs]
    refine ⟨hfailed, fun f hf => ?_⟩
    rcases List.mem_append.mp hf with hf | hf
    · exact hplaced f hf
    · exact hrest f hf

end Rule

/-! ### The registry -/

namespace Registry

/-- A rule of every kind, in the order of the ids. -/
def rules (r : Registry) : List Rule := r.ids.filterMap fun id => r.create id

theorem builtin_rules_perm : builtin.rules.Perm (builtinKinds.map fun kind => kind.create) :=
  ((List.mergeSort_perm _ _).filterMap _).trans (.of_eq rfl)

end Registry

end HouseStyle
