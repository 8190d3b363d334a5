import HouseStyle.Finding.Record
import HouseStyle.Proofs.Value.Entries

/-! Findings read back from their data. Each part of a record is read from the data that it is
written as; a field that is left out is read as what it stands for. So a finding is what its data say,
up to its origin, which is only summed up in them. -/

namespace HouseStyle

/-- A record whose fields are all known is taken as it is. -/
theorem Value.withFields_record {names : List Text} {fields : List (Text × Value)}
    (h : ∀ field ∈ fields, field.1 ∈ names) :
    (Value.record fields).withFields names = .ok (.record fields) := by
  refine if_pos (List.all_eq_true.mpr fun entry hentry => ?_)
  obtain ⟨field, hfield, rfl⟩ := List.mem_map.mp hentry
  exact List.any_eq_true.mpr ⟨field.1, h field hfield, by simp⟩

/-! ### Parts -/

theorem SpanRecord.ofValue_toValue {s : SpanRecord}
    (h : SpanRecord.ofOffsets s.start s.stop = .ok s) : SpanRecord.ofValue s.toValue = .ok s := h

theorem LocationRecord.ofValue_toValue (l : LocationRecord) :
    LocationRecord.ofValue l.toValue = .ok l := rfl

theorem SnippetRecord.ofValue_toValue (s : SnippetRecord) :
    SnippetRecord.ofValue s.toValue = .ok s := rfl

theorem FixRecord.ofValue_toValue {f : FixRecord}
    (h : SpanRecord.ofOffsets f.span.start f.span.stop = .ok f.span) :
    FixRecord.ofValue f.toValue = .ok f := by
  have hspan : Value.required "span" f.toValue = .ok f.span.toValue := rfl
  have hreplacement : Value.required "replacement" f.toValue = .ok f.replacement := rfl
  have hdescription : f.toValue.field? "description" = some f.description := rfl
  rw [FixRecord.ofValue, hspan, hreplacement, hdescription]
  simp only [bind, Except.bind, SpanRecord.ofValue_toValue h]
  rfl

theorem Severity.ofValue_name (s : Severity) :
    Named.ofValue Severity.ofName? (.text s.name) = .ok (.known s) := by
  cases s <;> rfl

theorem Category.ofValue_name (c : Category) :
    Named.ofValue Category.ofName? (.text c.name) = .ok (.known c) := by
  cases c <;> rfl

/-! ### Records -/

namespace FindingRecord

/-- What the record of any finding keeps to: severity and category are known, and its spans are
spans. -/
structure Sound (r : FindingRecord) : Prop where
  severity : ∃ s, r.severity = .known s
  category : ∃ c, r.category = .known c
  span : SpanRecord.ofOffsets r.span.start r.span.stop = .ok r.span
  fix : ∀ f ∈ r.fix, SpanRecord.ofOffsets f.span.start f.span.stop = .ok f.span

/-- A record that its data give back but for the origin. The record that is read has the same data
without the origin. -/
def Restores (r : FindingRecord) : Prop :=
  ∃ entries, r.toValue = .ok (.map entries) ∧
    ofValue (.map entries) = .ok { r with origin := none } ∧
    { r with origin := none }.toValue = .ok (.map (Entries.erase (.text "origin") entries))

variable (r : FindingRecord) (s : Severity) (c : Category)

/-- The fields that every record has. -/
def constantFields : List (Text × Value) :=
  [("rule_id", r.ruleId), ("message", r.message), ("severity", .text s.name),
    ("category", .text c.name), ("location", r.location.toValue), ("span", r.span.toValue),
    ("tags", .list r.tags), ("metadata", r.metadata), ("suppressed", r.suppressed)]

/-- The reason as it is written; one that counts as false is left out. -/
def reason? : Option Value := if r.suppressionReason.isTrue then some r.suppressionReason else none

/-- All fields that are read back. -/
def readFields : List (Text × Value) :=
  constantFields r s c ++ (optionalField "fix" (r.fix.map FixRecord.toValue) ++
    (optionalField "snippet" (r.snippet.map SnippetRecord.toValue) ++
      optionalField "suppression_reason" r.reason?))

theorem lookup_optionalField (name other : Text) (value : Option Value) :
    (optionalField other value).lookup name = if name = other then value else none := by
  cases value with
  | none => simp [optionalField]
  | some v =>
    by_cases h : name = other
    · simp [optionalField, h]
    · have hne : (name == other) = false := by simpa using h
      simp [optionalField, List.lookup_cons, h, hne]

theorem key_of_mem_optionalField {name : Text} {value : Option Value} {field : Text × Value}
    (h : field ∈ optionalField name value) : field.1 = name := by
  cases value with
  | none => simp [optionalField] at h
  | some v =>
    obtain rfl := List.mem_singleton.mp h
    rfl

theorem key_of_mem_readFields {field : Text × Value} (h : field ∈ readFields r s c) :
    field.1 ∈ fieldNames ∧ field.1 ≠ "origin" := by
  have hconstant : ∀ key ∈ (constantFields r s c).map Prod.fst, key ∈ fieldNames ∧ key ≠ "origin" := by
    rw [show (constantFields r s c).map Prod.fst = ["rule_id", "message", "severity", "category",
      "location", "span", "tags", "metadata", "suppressed"].map Text.ofString from rfl]
    decide
  simp only [readFields, List.mem_append] at h
  rcases h with h | h | h | h
  · exact hconstant _ (List.mem_map_of_mem h)
  · rw [key_of_mem_optionalField h]
    decide
  · rw [key_of_mem_optionalField h]
    decide
  · rw [key_of_mem_optionalField h]
    decide

theorem valueWith_eq : ∃ origin : Option Value, (r.origin = none → origin = none) ∧
    r.valueWith s c = .record (readFields r s c ++ optionalField "origin" origin) := by
  have hreason : (if r.suppressionReason.isTrue
      then [(("suppression_reason" : Text), r.suppressionReason)] else []) =
        optionalField "suppression_reason" r.reason? := by
    unfold reason?
    split_ifs <;> rfl
  refine ⟨r.origin.map fun o => .record [("rule_id", .text o.ruleId), ("message", .text o.message),
    ("span", o.span.toRecord.toValue)], fun h => by rw [h]; rfl, ?_⟩
  rw [valueWith, hreason]
  simp only [List.flatten_cons, List.flatten_nil, List.append_nil, readFields, constantFields,
    List.append_assoc]

theorem valueWith_of_no_origin (h : r.origin = none) :
    r.valueWith s c = .record (readFields r s c) := by
  obtain ⟨origin, horigin, hvalue⟩ := valueWith_eq r s c
  rw [hvalue, horigin h]
  exact congrArg Value.record (List.append_nil _)

variable {r s c}

/-- The fields of a record that are not always there. -/
theorem field?_valueWith (r : FindingRecord) (s : Severity) (c : Category) :
    (r.valueWith s c).field? "fix" = r.fix.map FixRecord.toValue ∧
    (r.valueWith s c).field? "snippet" = r.snippet.map SnippetRecord.toValue ∧
    (r.valueWith s c).field? "suppression_reason" = r.reason? := by
  obtain ⟨origin, -, hvalue⟩ := valueWith_eq r s c
  have hoptional {name : Text} (h : (constantFields r s c).lookup name = none) :
      (r.valueWith s c).field? name =
        (if name = "fix" then r.fix.map FixRecord.toValue else none).or
          ((if name = "snippet" then r.snippet.map SnippetRecord.toValue else none).or
            ((if name = "suppression_reason" then r.reason? else none).or
              (if name = "origin" then origin else none))) := by
    rw [hvalue, Value.field?_record]
    simp only [readFields, List.lookup_append, lookup_optionalField, h, Option.none_or, Option.or_assoc]
  refine ⟨?_, ?_, ?_⟩
  · rw [hoptional rfl]
    cases r.fix <;> rfl
  · rw [hoptional rfl]
    cases r.snippet <;> rfl
  · rw [hoptional rfl]
    cases r.reason? <;> rfl

theorem withFields_valueWith (r : FindingRecord) (s : Severity) (c : Category) :
    (r.valueWith s c).withFields fieldNames = .ok (r.valueWith s c) := by
  obtain ⟨origin, -, hvalue⟩ := valueWith_eq r s c
  rw [hvalue]
  refine Value.withFields_record fun field hfield => ?_
  rcases List.mem_append.mp hfield with h | h
  · exact (key_of_mem_readFields r s c h).1
  · rw [key_of_mem_optionalField h]
    decide

theorem mapM_fix (h : r.Sound) :
    ((r.valueWith s c).nonEmpty? "fix").mapM FixRecord.ofValue = .ok r.fix := by
  rw [Value.nonEmpty?, (field?_valueWith r s c).1]
  cases hfix : r.fix with
  | none => rfl
  | some f =>
    have htrue : f.toValue.isTrue := rfl
    rw [Option.map_some, Option.filter_some, if_pos htrue, Option.mapM_some,
      FixRecord.ofValue_toValue (h.fix f hfix)]
    rfl

theorem mapM_snippet : ((r.valueWith s c).nonEmpty? "snippet").mapM SnippetRecord.ofValue =
    .ok r.snippet := by
  rw [Value.nonEmpty?, (field?_valueWith r s c).2.1]
  cases r.snippet <;> rfl

theorem getD_reason (h : r.suppressionReason = .null ∨ r.suppressionReason.isTrue) :
    ((r.valueWith s c).field? "suppression_reason").getD .null = r.suppressionReason := by
  rw [(field?_valueWith r s c).2.2, reason?]
  split_ifs with htrue
  · rfl
  · exact (h.resolve_right htrue).symm

/-- The data of a record give it back, without the origin. -/
theorem ofValue_valueWith (h : r.Sound) (hseverity : r.severity = .known s)
    (hcategory : r.category = .known c)
    (hreason : r.suppressionReason = .null ∨ r.suppressionReason.isTrue) :
    ofValue (r.valueWith s c) = .ok { r with origin := none } := by
  obtain ⟨entries, hentries⟩ : ∃ entries, r.valueWith s c = .map entries := ⟨_, rfl⟩
  have hopened : (r.valueWith s c).entriesOrFault = .ok entries := by rw [hentries]; rfl
  have hlocation : (r.valueWith s c).required "location" = .ok r.location.toValue := rfl
  have hspan : (r.valueWith s c).required "span" = .ok r.span.toValue := rfl
  have htags : (r.valueWith s c).partItems "tags" = .ok r.tags := rfl
  have hruleId : (r.valueWith s c).part "rule_id" = .ok r.ruleId := rfl
  have hmessage : (r.valueWith s c).part "message" = .ok r.message := rfl
  have hseverity' : (r.valueWith s c).part "severity" = .ok (.text s.name) := rfl
  have hcategory' : (r.valueWith s c).part "category" = .ok (.text c.name) := rfl
  have hmetadata : (r.valueWith s c).field? "metadata" = some r.metadata := rfl
  have hsuppressed : (r.valueWith s c).field? "suppressed" = some r.suppressed := rfl
  simp only [ofValue, hopened, ok_bind, ← hentries, hlocation, hspan, htags, hruleId, hmessage,
    hseverity', hcategory', hmetadata, hsuppressed, mapM_fix h, mapM_snippet, getD_reason hreason,
    withFields_valueWith, LocationRecord.ofValue_toValue, SpanRecord.ofValue_toValue h.span,
    Severity.ofValue_name, Category.ofValue_name, Option.getD_some, hseverity, hcategory]
  rfl

/-- What is read from the data of a record has these data but for the origin. -/
theorem Sound.restores (h : r.Sound)
    (hreason : r.suppressionReason = .null ∨ r.suppressionReason.isTrue) : r.Restores := by
  obtain ⟨s, hseverity⟩ := h.severity
  obtain ⟨c, hcategory⟩ := h.category
  obtain ⟨origin, -, hvalue⟩ := valueWith_eq r s c
  have htoValue {q : FindingRecord} (hs : q.severity = .known s) (hc : q.category = .known c) :
      q.toValue = .ok (q.valueWith s c) := by
    rw [toValue, hs, hc]
    rfl
  have hread : (readFields r s c).filter (fun field => field.1 ≠ ("origin" : Text)) =
      readFields r s c :=
    List.filter_eq_self.mpr fun field hfield => by
      simpa using (key_of_mem_readFields r s c hfield).2
  have horigin : (optionalField "origin" origin).filter (fun field => field.1 ≠ ("origin" : Text)) =
      [] :=
    List.filter_eq_nil_iff.mpr fun field hfield => by simp [key_of_mem_optionalField hfield]
  refine ⟨Entries.named (readFields r s c ++ optionalField "origin" origin),
    (htoValue hseverity hcategory).trans (by rw [hvalue]; rfl), ?_, ?_⟩
  · rw [← ofValue_valueWith h hseverity hcategory hreason, hvalue]
    rfl
  · rw [@htoValue { r with origin := none } hseverity hcategory, valueWith_of_no_origin _ s c rfl,
      Entries.erase_named, List.filter_append, hread, horigin, List.append_nil]
    rfl

end FindingRecord

/-! ### Findings -/

namespace Finding

theorem ofOffsets_toRecord (s : Span) :
    SpanRecord.ofOffsets s.toRecord.start s.toRecord.stop = .ok s.toRecord := by
  have hnonneg : ¬(s.start : Int) < 0 := by omega
  have hordered : ¬(s.stop : Int) < s.start := by have := s.start_le_stop; omega
  have hstart : (Value.nat s.start).lessOrFault (.int 0) = .ok false :=
    congrArg Except.ok (decide_eq_false hnonneg)
  have hstop : (Value.nat s.stop).lessOrFault (.nat s.start) = .ok false :=
    congrArg Except.ok (decide_eq_false hordered)
  simp only [SpanRecord.ofOffsets, Span.toRecord, hstart, hstop, ok_bind]
  rfl

theorem toRecord_sound (f : Finding) : f.toRecord.Sound where
  severity := ⟨f.severity, rfl⟩
  category := ⟨f.category, rfl⟩
  span := ofOffsets_toRecord f.span
  fix fix hfix := by
    obtain ⟨fix, -, rfl⟩ := Option.map_eq_some_iff.mp hfix
    exact ofOffsets_toRecord fix.span

/-- A finding with a reason that is not empty, or with none, is read back from its data with all
fields but the origin, and what is read has the same data without it. The same is true of records
with parts of any kind, as long as they keep to what every finding keeps to. -/
theorem restores_from_data : (∀ f : Finding, f.suppressionReason ≠ some [] →
      f.toRecord.toValue = .ok f.toValue ∧ f.toRecord.Restores) ∧
    ∀ r : FindingRecord, r.Sound →
      (r.suppressionReason = .null ∨ r.suppressionReason.isTrue) → r.Restores := by
  refine ⟨fun f hreason => ⟨rfl, f.toRecord_sound.restores ?_⟩, fun r h => h.restores⟩
  cases hf : f.suppressionReason with
  | none => exact .inl (by simp [toRecord, hf])
  | some reason =>
    have hne : reason ≠ [] := fun h => hreason (by rw [hf, h])
    exact .inr (by simpa [toRecord, hf, Value.isTrue, Scalar.isTrue] using hne)

/-- A suppressed finding with all parts, among them a snippet with no lines around and an origin. -/
theorem restores_suppressed :
    let span : Span := ⟨4, 9, by decide⟩
    let location : Location := ⟨"a.swift", 2, 2, 1, 6⟩
    let f : Finding :=
      { ruleId := "terminator", message := [], severity := .error, category := .termination,
        location, span, fix := some ⟨span, .text [], []⟩, snippet := some ⟨[], 2, [], []⟩,
        tags := ["style", []], metadata := .record [("count", .int 3)], suppressed := true,
        suppressionReason := some "legacy", origin := some ⟨"braces", "m", span, location⟩ }
    (f.suppressionReason ≠ some [] ∧ f.toRecord.toValue = .ok f.toValue ∧ f.toRecord.Restores) ∧
      f.toRecord.Sound ∧ f.toRecord.suppressionReason.isTrue ∧ f.toRecord.Restores := by
  intro span location f
  have hreason : f.suppressionReason ≠ some [] := by decide
  exact ⟨⟨hreason, restores_from_data.1 f hreason⟩, f.toRecord_sound, rfl,
    restores_from_data.2 f.toRecord f.toRecord_sound (.inr rfl)⟩

end Finding

end HouseStyle
