import HouseStyle.Config.Basic
import HouseStyle.Proofs.Text.Case
import HouseStyle.Proofs.Value.Entries
import HouseStyle.Proofs.Value.Written

/-! Settings of rules read back from their data. Rules are read in a normal form: they are told apart by
ids that are texts, none of them the word for the preset, and their severities are lower. Such rules are
what their data say. -/

namespace HouseStyle

/-! ### Mappings that may be left out -/

/-- The entries of a value; one that counts as false has none. -/
def Value.givenEntries (v : Value) : Try (List (Scalar × Value)) :=
  if v.isTrue then v.entriesOrFault else pure []

namespace Value

theorem givenEntries_bind {α : Type} (v : Value) (next : List (Scalar × Value) → Try α) :
    givenEntries v >>= next = if v.isTrue then v.entriesOrFault >>= next else pure [] >>= next := by
  unfold givenEntries
  split_ifs <;> rfl

theorem givenEntries_map (entries : List (Scalar × Value)) :
    givenEntries (.map entries) = .ok entries := by
  unfold givenEntries
  cases entries <;> rfl

theorem Fits.givenEntries {v : Value} {n : Nat} {entries : List (Scalar × Value)} (hv : v.Fits (n + 1))
    (h : v.givenEntries = .ok entries) : Entries.Fit entries n := by
  unfold Value.givenEntries at h
  split_ifs at h
  · exact hv.entries h
  · cases h
    simp [Entries.Fit]

end Value

/-! ### Settings of rules -/

namespace RuleSettings

def severityOf : Value → Try (Option Text)
  | .null => pure none
  | v => do return some (Text.lower (← v.asTextOrFault))

/-- The entries that are no setting, which are options too. -/
def others (entries : List (Scalar × Value)) : List (Scalar × Value) :=
  entries.filter fun (key, _) =>
    !(["options", "enabled", "severity", "autofix"] : List Text).any fun name => key = .text name

theorem ofValue_map (entries : List (Scalar × Value)) : ofValue (.map entries) = (do
    let options ← ((entries.lookup (.text "options")).getD .null).givenEntries
    let severity ← severityOf ((entries.lookup (.text "severity")).getD .null)
    return {
      enabled := (entries.lookup (.text "enabled")).getD .null
      severity
      autofix := ((entries.lookup (.text "autofix")).map Value.isTrue).getD true
      options := Entries.update options (others entries) }) := by
  have hseverity {α : Type} (v : Value) (next : Option Text → Try α) : severityOf v >>= next =
      match v with
      | .null => pure none >>= next
      | v => v.asTextOrFault >>= fun t => pure (some (Text.lower t)) >>= next := by
    unfold severityOf
    split
    · rfl
    · rw [bind_assoc]
  simp only [hseverity, Value.givenEntries_bind]
  rfl

/-- The form that settings are read in: the severity is in its lower form. -/
def IsNormal (s : RuleSettings) : Prop := ∀ t ∈ s.severity, Text.lower t = t

theorem severityOf_lower {v : Value} {severity : Option Text} (h : severityOf v = .ok severity) :
    ∀ t ∈ severity, Text.lower t = t := by
  unfold severityOf at h
  split at h
  · cases h
    simp
  · obtain ⟨t, -, h⟩ := bind_eq_ok.mp h
    cases h
    simp [Text.lower_lower]

/-- Settings are read from a truth value, from nothing or from a mapping. -/
theorem ofValue_cases {v : Value} {s : RuleSettings} (h : ofValue v = .ok s) :
    (∃ enabled : Scalar, s = { enabled := .scalar enabled }) ∨
      ∃ entries options, v.opened = .map entries ∧ s.IsNormal ∧
        ((entries.lookup (.text "options")).getD .null).givenEntries = .ok options ∧
        s.enabled = (entries.lookup (.text "enabled")).getD .null ∧
        s.options = Entries.update options (others entries) := by
  unfold ofValue at h
  split at h
  · cases h
    exact .inl ⟨_, rfl⟩
  · cases h
    exact .inl ⟨.null, rfl⟩
  · rename_i entries hopened
    have hmap : ofValue (.map entries) = .ok s := h
    rw [ofValue_map] at hmap
    obtain ⟨options, hoptions, hmap⟩ := bind_eq_ok.mp hmap
    obtain ⟨severity, hseverity, hmap⟩ := bind_eq_ok.mp hmap
    cases hmap
    exact .inr ⟨entries, options, hopened, severityOf_lower hseverity, hoptions, rfl, rfl⟩
  · cases h

theorem ofValue_normal {v : Value} {s : RuleSettings} (h : ofValue v = .ok s) : s.IsNormal := by
  rcases ofValue_cases h with ⟨enabled, rfl⟩ | ⟨entries, options, -, hnormal, -⟩
  · simp [IsNormal]
  · exact hnormal

/-- Settings in normal form are read from their data. -/
theorem IsNormal.ofValue_toValue {s : RuleSettings} (h : s.IsNormal) : ofValue s.toValue = .ok s := by
  have hseverity : severityOf ((s.severity.map Value.text).getD .null) = .ok s.severity := by
    cases hs : s.severity with
    | none => rfl
    | some t => exact congrArg (fun t => Except.ok (some t)) (h t hs)
  refine (ofValue_map _).trans ?_
  change ((Value.map s.options).givenEntries >>= fun options =>
    severityOf ((s.severity.map Value.text).getD .null) >>= fun severity => _) = _
  rw [Value.givenEntries_map, hseverity]
  rfl

/-- The data of settings may be deeper by one than what they are read from, since options that stand
among the settings move to a mapping of their own. -/
theorem fits_toValue {v : Value} {s : RuleSettings} {n : Nat} (hv : v.Fits (n + 1))
    (h : ofValue v = .ok s) : s.toValue.Fits (n + 2) := by
  have hrecord (henabled : s.enabled.Fits (n + 1)) (hoptions : Entries.Fit s.options n) :
      s.toValue.Fits (n + 2) := by
    have hseverity : ((s.severity.map Value.text).getD .null).Fits (n + 1) := by
      cases s.severity <;> rfl
    exact Value.fits_record.mpr (by simp [henabled, hseverity, Value.fits_map.mpr hoptions])
  rcases ofValue_cases h with ⟨enabled, rfl⟩ | ⟨entries, options, hopened, -, hoptions, henabled, heq⟩
  · exact hrecord rfl (by simp [Entries.Fit])
  · rw [hv.opened] at hopened
    have hentries : Entries.Fit entries n := Value.fits_map.mp (hopened ▸ hv)
    have hgiven (name : Text) : ((entries.lookup (.text name)).getD .null).Fits n :=
      hentries.getD_lookup rfl
    refine hrecord ?_ ?_
    · rw [henabled]
      exact (hgiven "enabled").succ
    · rw [heq]
      exact ((hgiven "options").succ.givenEntries hoptions).update (hentries.filter _)

end RuleSettings

/-! ### Tables of rules -/

/-- The form that rules are read in. -/
def RulesPart.IsNormal (rules : RulesPart) : Prop :=
  ∃ table, rules = .table table ∧ (table.map Prod.fst).Nodup ∧
    ∀ rule ∈ table, rule.1 ≠ "preset" ∧ rule.2.IsNormal

namespace Config

theorem ruleTable_named {table : List (Text × RuleSettings)} (h : ∀ rule ∈ table, rule.2.IsNormal) :
    ruleTable (Entries.named (table.map fun (id, s) => (id, s.toValue))) = .ok (Entries.named table) := by
  induction table with
  | nil => rfl
  | cons rule rest ih =>
    obtain ⟨id, s⟩ := rule
    obtain ⟨hs, hrest⟩ := List.forall_mem_cons.mp h
    have hid : (Value.text id).asTextOrFault = .ok id := rfl
    change ((Value.text id).asTextOrFault >>= fun id => RuleSettings.ofValue s.toValue >>= fun settings =>
      ruleTable (Entries.named (rest.map fun (id, s) => (id, s.toValue))) >>= fun others =>
        pure ((Scalar.text id, settings) :: others)) = _
    rw [hid, RuleSettings.IsNormal.ofValue_toValue hs, ih hrest]
    rfl

theorem rulesOf_eq (v : Value) : rulesOf v = (do
    let entries ← v.givenEntries
    let table ← ruleTable (Entries.erase (.text "preset") entries)
    return (entries.lookup (.text "preset"),
      .table ((Entries.update [] table).map fun (key, s) => ((Value.scalar key).asText, s)))) := by
  rw [Value.givenEntries_bind]
  rfl

/-- Rules in normal form are read from their data. -/
theorem rulesOf_toValue {rules : RulesPart} (h : rules.IsNormal) :
    rulesOf rules.toValue = .ok (none, rules) := by
  obtain ⟨table, rfl, hnodup, hrules⟩ := h
  have habsent : ∀ field ∈ table.map fun (id, s) => (id, s.toValue), field.1 ≠ ("preset" : Text) :=
    List.forall_mem_map.mpr fun rule hrule => (hrules rule hrule).1
  have hupdate : Entries.update [] (Entries.named table) = Entries.named table :=
    Entries.update_eq_append (Entries.distinct_named hnodup)
  have hback : (Entries.named table).map (fun (key, s) => ((Value.scalar key).asText, s)) = table := by
    simp [Entries.named, Function.comp_def, Value.asText]
  have hgiven : (RulesPart.table table).toValue.givenEntries =
      .ok (Entries.named (table.map fun (id, s) => (id, s.toValue))) := Value.givenEntries_map _
  rw [rulesOf_eq, hgiven, ok_bind, Entries.erase_named_of_absent habsent,
    Entries.lookup_named_of_absent habsent, ruleTable_named fun rule hrule => (hrules rule hrule).2,
    ok_bind, hupdate, hback]
  rfl

/-- What the table of rules is read from: each id is the text of a key and each rule's settings are
read from the value of that key. -/
theorem ruleTable_sources {entries : List (Scalar × Value)} {table : List (Scalar × RuleSettings)}
    (h : ruleTable entries = .ok table) : ∀ rule ∈ table, ∃ entry ∈ entries,
      rule.1 = .text (Value.scalar entry.1).asText ∧ RuleSettings.ofValue entry.2 = .ok rule.2 := by
  induction entries generalizing table with
  | nil =>
    cases h
    simp
  | cons entry rest ih =>
    obtain ⟨id, hid, h⟩ := bind_eq_ok.mp h
    obtain ⟨settings, hsettings, h⟩ := bind_eq_ok.mp h
    obtain ⟨others, hothers, h⟩ := bind_eq_ok.mp h
    cases h
    refine List.forall_mem_cons.mpr ⟨⟨entry, List.mem_cons_self,
      by rw [Value.asText_of_asTextOrFault hid], hsettings⟩, ?_⟩
    intro rule hrule
    obtain ⟨source, hsource, hrule⟩ := ih hothers rule hrule
    exact ⟨source, List.mem_cons_of_mem _ hsource, hrule⟩

/-- What is read from a mapping of rules. Its ids are apart and its settings are read from values of
the mapping. -/
theorem rulesOf_sources {v : Value} {preset : Option Value} {rules : RulesPart}
    (h : rulesOf v = .ok (preset, rules)) : ∃ entries table, v.givenEntries = .ok entries ∧
      preset = entries.lookup (.text "preset") ∧ rules = .table table ∧ (table.map Prod.fst).Nodup ∧
        ∀ rule ∈ table, rule.1 ≠ "preset" ∧
          ∃ entry ∈ entries, RuleSettings.ofValue entry.2 = .ok rule.2 := by
  rw [rulesOf_eq] at h
  obtain ⟨entries, hentries, h⟩ := bind_eq_ok.mp h
  obtain ⟨table, htable, h⟩ := bind_eq_ok.mp h
  cases h
  -- Setting one rule after the other keeps what holds of each rule, and keeps their ids apart.
  have hrules : ∀ rule ∈ Entries.update [] table, (∃ id : Text, rule.1 = .text id ∧ id ≠ "preset") ∧
      ∃ entry ∈ entries, RuleSettings.ofValue entry.2 = .ok rule.2 := by
    refine Entries.forall_update (p := fun key => ∃ id : Text, key = .text id ∧ id ≠ "preset")
      (q := fun s => ∃ entry ∈ entries, RuleSettings.ofValue entry.2 = .ok s)
      (List.forall_mem_nil _) fun rule hrule => ?_
    obtain ⟨entry, hentry, hid, hsettings⟩ := ruleTable_sources htable rule hrule
    obtain ⟨hmem, hkey⟩ := List.mem_filter.mp hentry
    refine ⟨⟨_, hid, fun hpreset => ?_⟩, entry, hmem, hsettings⟩
    -- Only the key itself is written so, and it has been taken out.
    have heq := Scalar.eq_text_of_asText hpreset (by decide) (by decide) (by decide)
    simp [heq] at hkey
  have hdistinct : Entries.Distinct (Entries.update [] table) :=
    Entries.Distinct.update List.Pairwise.nil table
  refine ⟨entries, _, hentries, rfl, rfl, ?_, List.forall_mem_map.mpr fun rule hrule => ?_⟩
  · rw [List.map_map, List.Nodup, List.pairwise_map]
    refine hdistinct.imp_of_mem fun {a b} ha hb hab => ?_
    obtain ⟨⟨id, hid, -⟩, -⟩ := hrules a ha
    obtain ⟨⟨other, hother, -⟩, -⟩ := hrules b hb
    rw [hid, hother, Entries.sameKey_text] at hab
    simpa [hid, hother, Value.asText] using hab
  · obtain ⟨⟨id, hid, hpreset⟩, hsettings⟩ := hrules rule hrule
    refine ⟨?_, hsettings⟩
    simpa [hid, Value.asText] using hpreset

theorem rulesOf_normal {v : Value} {preset : Option Value} {rules : RulesPart}
    (h : rulesOf v = .ok (preset, rules)) : rules.IsNormal := by
  obtain ⟨entries, table, -, -, rfl, hnodup, hrules⟩ := rulesOf_sources h
  refine ⟨table, rfl, hnodup, fun rule hrule => ?_⟩
  obtain ⟨hpreset, entry, -, hsettings⟩ := hrules rule hrule
  exact ⟨hpreset, RuleSettings.ofValue_normal hsettings⟩

theorem fits_rulesOf {v : Value} {preset : Option Value} {rules : RulesPart} {n : Nat}
    (hv : v.Fits (n + 2)) (h : rulesOf v = .ok (preset, rules)) :
    (∀ p ∈ preset, p.Fits (n + 1)) ∧ rules.toValue.Fits (n + 3) := by
  obtain ⟨entries, table, hentries, rfl, rfl, -, hrules⟩ := rulesOf_sources h
  have hfit := hv.givenEntries hentries
  refine ⟨fun p hp => hfit.of_lookup hp,
    Value.fits_record.mpr (List.forall_mem_map.mpr fun rule hrule => ?_)⟩
  obtain ⟨-, entry, hentry, hsettings⟩ := hrules rule hrule
  exact RuleSettings.fits_toValue (hfit entry hentry) hsettings

end Config

end HouseStyle
