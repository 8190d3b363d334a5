import HouseStyle.Proofs.Config.Rules

/-! Configurations read back from their data. The data have no section, no short name and no preset
among the rules, so each setting is read from its own field; rules are in normal form, and what stands
in the place of output settings is no mapping. -/

namespace HouseStyle

/-! ### Settings of output -/

theorem OutputPart.ofValue_toValue (v : Value) : ofValue (ofValue v).toValue = ofValue v := by
  cases hv : v.opened with
  | map entries =>
    rw [show ofValue v = settings (.ofEntries entries) by rw [ofValue, hv]]
    rfl
  | _ => rw [show ofValue v = other v by rw [ofValue, hv]]; rw [toValue, ofValue, hv]

namespace Config

/-! ### Configurations -/

/-- The preset among the rules, if there is one, and the table of the others. -/
def rulesIn (entries : List (Scalar × Value)) : Try (Option Value × RulesPart) :=
  match entries.lookup (.text "rules") with
  | some r => rulesOf r
  | none => pure (none, .table [])

/-- The preset among the rules as a setting. -/
def withPreset (preset : Option Value) (entries : List (Scalar × Value)) : List (Scalar × Value) :=
  match preset with
  | some p => Entries.insert (.text "rule_preset") p entries
  | none => entries

/-- The settings that entries without sections and short names give. -/
def ofEntries (rules : RulesPart) (entries : List (Scalar × Value)) : Config :=
  let standard : Config := {}
  let given (name : Text) (default : Value) : Value := (entries.lookup (.text name)).getD default
  { extensions := given "extensions" standard.extensions
    excludePatterns := given "exclude_patterns" standard.excludePatterns
    includePatterns := given "include_patterns" standard.includePatterns
    maxFileSize := given "max_file_size" standard.maxFileSize
    maxWorkers := given "max_workers" standard.maxWorkers
    ruleWorkers := given "rule_workers" standard.ruleWorkers
    rulePreset := given "rule_preset" standard.rulePreset
    rules
    severityThreshold := given "severity_threshold" standard.severityThreshold
    terminator := given "terminator" standard.terminator
    lookahead := given "lookahead" standard.lookahead
    output := match entries.lookup (.text "output") with
      | some v => .ofValue v
      | none => .settings {}
    autoFix := given "auto_fix" standard.autoFix
    dryRun := given "dry_run" standard.dryRun
    backup := given "backup" standard.backup }

theorem ofValue_eq (v : Value) : ofValue v = (do
    let entries ← v.entriesOrFault
    let entries := flatten "remediation" (flatten "scan" entries)
    let (preset, rules) ← rulesIn entries
    let entries := rename "include" "include_patterns"
      (rename "exclude" "exclude_patterns" (withPreset preset entries))
    checkUnknown entries
    return ofEntries rules entries) := by
  have hrules {α : Type} (entries : List (Scalar × Value)) (next : Option Value × RulesPart → Try α) :
      rulesIn entries >>= next = match entries.lookup (.text "rules") with
        | some r => rulesOf r >>= next
        | none => pure (none, .table []) >>= next := by
    unfold rulesIn
    split <;> rfl
  simp only [hrules]
  rfl

/-- What a configuration is read from. -/
theorem ofValue_sources {v : Value} {c : Config} (h : ofValue v = .ok c) :
    ∃ entries preset rules, v.entriesOrFault = .ok entries ∧
      rulesIn (flatten "remediation" (flatten "scan" entries)) = .ok (preset, rules) ∧
      c = ofEntries rules (rename "include" "include_patterns" (rename "exclude" "exclude_patterns"
        (withPreset preset (flatten "remediation" (flatten "scan" entries))))) := by
  rw [ofValue_eq] at h
  obtain ⟨entries, hentries, h⟩ := bind_eq_ok.mp h
  obtain ⟨⟨preset, rules⟩, hrules, h⟩ := bind_eq_ok.mp h
  obtain ⟨-, -, h⟩ := bind_eq_ok.mp h
  cases h
  exact ⟨entries, preset, rules, hentries, hrules, rfl⟩

/-- The form that configurations are read in. -/
structure IsNormal (c : Config) : Prop where
  rules : c.rules.IsNormal
  output : OutputPart.ofValue c.output.toValue = c.output

theorem ofValue_normal {v : Value} {c : Config} (h : ofValue v = .ok c) : c.IsNormal := by
  obtain ⟨entries, preset, rules, -, hrules, rfl⟩ := ofValue_sources h
  constructor
  · show rules.IsNormal
    unfold rulesIn at hrules
    split at hrules
    · exact rulesOf_normal hrules
    · cases hrules
      exact ⟨[], rfl, List.nodup_nil, List.forall_mem_nil _⟩
  · unfold ofEntries
    dsimp only
    split
    · exact OutputPart.ofValue_toValue _
    · rfl

/-- Entries of known names only pass the check. -/
theorem checkUnknown_eq_ok {entries : List (Scalar × Value)}
    (h : ∀ key ∈ entries.map Prod.fst, ∃ name ∈ fieldNames, key = .text name) :
    checkUnknown entries = .ok () := by
  have hunknown : ((entries.map Prod.fst).filter fun key =>
      !fieldNames.any fun name => key = .text name) = [] :=
    List.filter_eq_nil_iff.mpr fun key hkey => by simpa using h key hkey
  have hsort : Scalar.sort [] = .ok [] := by
    simp [Scalar.sort, sortBy, firstRun, sortRuns, mergeAll, bind, Except.bind]
  simp only [checkUnknown, hunknown, hsort]
  rfl

/-- The data of a normal form are read as they are. -/
theorem IsNormal.ofValue_toValue {c : Config} (h : c.IsNormal) : ofValue c.toValue = .ok c := by
  obtain ⟨fields, hfields⟩ : ∃ fields, c.toValue = .map fields := ⟨_, rfl⟩
  -- No field has the name of a section or a short name, so both steps find nothing to move.
  have hsections : flatten "remediation" (flatten "scan" fields) = fields := by
    cases hfields
    rfl
  have hrules : rulesIn fields = .ok (none, c.rules) := by
    cases hfields
    exact rulesOf_toValue h.rules
  have hnames : rename "include" "include_patterns" (rename "exclude" "exclude_patterns" fields) =
      fields := by
    cases hfields
    rfl
  have hknown : checkUnknown fields = .ok () := by
    have hkeys : fields.map Prod.fst = fieldNames.map .text := by
      cases hfields
      rfl
    refine checkUnknown_eq_ok ?_
    rw [hkeys]
    exact List.forall_mem_map.mpr fun name hname => ⟨name, hname, rfl⟩
  have hback : ofEntries c.rules fields = c := by
    cases hfields
    exact congrArg (fun output => { c with output }) h.output
  have hentries : (Value.map fields).entriesOrFault = .ok fields := rfl
  rw [ofValue_eq, hfields, hentries]
  simp only [ok_bind, hsections, hrules, withPreset, hnames, hknown, hback]
  rfl

/-! ### How deep the data are -/

theorem fit_flatten {section_ : Text} {entries : List (Scalar × Value)} {n : Nat}
    (h : Entries.Fit entries n) : Entries.Fit (flatten section_ entries) n := by
  unfold flatten
  split
  · rename_i inner hinner
    obtain ⟨v, hv, hopened⟩ := Option.map_eq_some_iff.mp hinner
    have hfits : v.Fits n := h.of_lookup hv
    rw [hfits.opened] at hopened
    exact (h.filter _).update (Value.fits_map.mp (hopened ▸ hfits.succ))
  · exact h

theorem fit_rename {short full : Text} {entries : List (Scalar × Value)} {n : Nat}
    (h : Entries.Fit entries n) : Entries.Fit (rename short full entries) n := by
  unfold rename
  split
  · rename_i v hv
    exact (h.filter _).insert (h.of_lookup hv)
  · exact h

theorem fit_withPreset {preset : Option Value} {entries : List (Scalar × Value)} {n : Nat}
    (h : Entries.Fit entries n) (hpreset : ∀ p ∈ preset, p.Fits n) :
    Entries.Fit (withPreset preset entries) n := by
  cases preset with
  | none => exact h
  | some p => exact h.insert (hpreset p rfl)

theorem fits_ofValue_output {v : Value} {n : Nat} (h : v.Fits (n + 1)) :
    (OutputPart.ofValue v).toValue.Fits (n + 1) := by
  unfold OutputPart.ofValue
  split
  · rename_i entries hopened
    rw [h.opened] at hopened
    have hentries : Entries.Fit entries n := Value.fits_map.mp (hopened ▸ h)
    exact Value.fits_record.mpr (by simp [OutputSettings.ofEntries, hentries.getD_lookup])
  · exact h

theorem fits_rulesIn {entries : List (Scalar × Value)} {preset : Option Value} {rules : RulesPart}
    {n : Nat} (hentries : Entries.Fit entries (n + 2)) (h : rulesIn entries = .ok (preset, rules)) :
    (∀ p ∈ preset, p.Fits (n + 2)) ∧ rules.toValue.Fits (n + 3) := by
  unfold rulesIn at h
  split at h
  · rename_i v hv
    exact (fits_rulesOf (hentries.of_lookup hv) h).imp_left fun hpreset p hp => (hpreset p hp).succ
  · cases h
    exact ⟨by simp, rfl⟩

/-- The data of a configuration are deeper by one at most than what it is read from. -/
theorem fits_toValue {v : Value} {c : Config} {n : Nat} (hv : v.Fits (n + 3)) (h : ofValue v = .ok c) :
    c.toValue.Fits (n + 4) := by
  obtain ⟨entries, preset, rules, hentries, hrules, rfl⟩ := ofValue_sources h
  have hsections : Entries.Fit (flatten "remediation" (flatten "scan" entries)) (n + 2) :=
    fit_flatten (fit_flatten (hv.entries hentries))
  obtain ⟨hpreset, hrulesFit⟩ := fits_rulesIn hsections hrules
  generalize hfinal : rename "include" "include_patterns" (rename "exclude" "exclude_patterns"
    (withPreset preset (flatten "remediation" (flatten "scan" entries)))) = final
  have hfit : Entries.Fit final (n + 2) := by
    rw [← hfinal]
    exact fit_rename (fit_rename (fit_withPreset hsections hpreset))
  have hgiven (name : Text) {default : Value} (hdefault : default.Fits (n + 2)) :
      ((final.lookup (.text name)).getD default).Fits (n + 3) := (hfit.getD_lookup hdefault).succ
  have houtput : (ofEntries rules final).output.toValue.Fits (n + 3) := by
    unfold ofEntries
    dsimp only
    split
    · rename_i v hv
      exact (fits_ofValue_output (hfit.of_lookup hv)).succ
    · rfl
  refine Value.fits_record.mpr ?_
  simp only [List.forall_mem_cons]
  refine ⟨hgiven _ ?_, hgiven _ ?_, hgiven _ ?_, hgiven _ ?_, hgiven _ ?_, hgiven _ ?_, hgiven _ ?_,
    hrulesFit, hgiven _ ?_, hgiven _ ?_, hgiven _ ?_, houtput, hgiven _ ?_, hgiven _ ?_, hgiven _ ?_,
    List.forall_mem_nil _⟩ <;> rfl

/-- A configuration is read back from its data, whatever it was read from. Its record is these data, as
long as no value that was given is deeper than a record may be. -/
theorem reads_back {v : Value} {c : Config} (h : ofValue v = .ok c) :
    ofValue c.toValue = .ok c ∧ (v.isDeeper (mostDepth - 1) = false → c.toRecord = .ok c.toValue) := by
  refine ⟨(ofValue_normal h).ofValue_toValue, fun hv => ?_⟩
  have hfits : c.toValue.isDeeper mostDepth = false := fits_toValue (n := 486) hv h
  rw [toRecord, hfits]
  rfl

/-- Sections, short names, a preset, settings of all kinds and an unknown key. -/
theorem reads_back_mixed :
    let v : Value := .record [
      ("scan", .record [("exclude", .texts ["Pods/**"]), ("max_workers", .int 2)]),
      ("rules", .record [("preset", .text "strict"), ("explicit-typing", .bool false),
        ("braces", .null), ("comment-markers", .record [("severity", .text "ERROR"), ("autofix", .int 0),
          ("options", .record [("enabled", .int 1)]), ("markers", .texts ["TODO"])])]),
      ("output", .list []), ("colour", .int 1)]
    let normal : Config :=
      { excludePatterns := .texts ["Pods/**"], maxWorkers := .int 2, rulePreset := .text "strict",
        rules := .table [("explicit-typing", { enabled := .bool false }), ("braces", {}),
          ("comment-markers",
            { severity := some "error", autofix := false,
              options := [(.text "enabled", .int 1), (.text "markers", .texts ["TODO"])] })],
        output := .other (.list []) }
    ∃ c, ofValue v = .ok c ∧ c.toValue = normal.toValue ∧ ofValue c.toValue = .ok c ∧
      c.toRecord = .ok c.toValue := by
  intro v normal
  have hread : (ofValue v).toOption.map toValue = some normal.toValue := by decide +kernel
  cases h : ofValue v with
  | error fault => simp [h, Except.toOption] at hread
  | ok c =>
    have hback := reads_back h
    refine ⟨c, rfl, ?_, hback.1, hback.2 (by decide +kernel)⟩
    simpa [h, Except.toOption] using hread

end Config

end HouseStyle
