import HouseStyle.Report.Record
import HouseStyle.Proofs.Report.Order
import HouseStyle.Proofs.Value.Entries

/-! What the formats show of a report: its findings, in report order, but for the suppressed ones where
those are left out. The rules of the findings that are shown are listed by increasing ids. -/

namespace HouseStyle

open Std

/-! ### Values inside values -/

/-- The value that some names lead to, each the name of a field of the value before. -/
def Value.at? (v : Value) (names : List Text) : Option Value :=
  names.foldlM (fun v name => v.field? name) v

/-! ### Each text once -/

namespace Text

variable {t last : Text} {ts before : List Text}

/-- The loop over a list in order that passes over what it has just seen. -/
theorem eraseReps_loop (hsorted : (last :: ts).Pairwise fun s t => (compare s t).isLE)
    (hbefore : (before.reverse ++ [last]).Pairwise fun s t => compare s t = .lt) :
    (List.eraseRepsBy.loop (· == ·) last ts before).Pairwise (fun s t => compare s t = .lt) ∧
      ∀ t, t ∈ List.eraseRepsBy.loop (· == ·) last ts before ↔ t ∈ before ∨ t ∈ last :: ts := by
  induction ts generalizing last before with
  | nil =>
    rw [List.eraseRepsBy.loop, List.reverse_cons]
    exact ⟨hbefore, fun t => by simp⟩
  | cons next ts ih =>
    obtain ⟨hlast, hnext⟩ := List.pairwise_cons.mp hsorted
    rw [List.eraseRepsBy.loop]
    cases hsame : last == next with
    | true =>
      obtain rfl := eq_of_beq hsame
      obtain ⟨hstrict, hmem⟩ := ih hnext hbefore
      exact ⟨hstrict, fun t => by rw [hmem]; simp⟩
    | false =>
      have hlt : compare last next = .lt :=
        compare_eq_lt (hlast next List.mem_cons_self) (ne_of_beq_false hsame)
      obtain ⟨hstrict, hmem⟩ := @ih next (last :: before) hnext (by
        rw [List.reverse_cons, List.pairwise_append]
        refine ⟨hbefore, List.pairwise_singleton _ _, fun s hs t ht => ?_⟩
        obtain rfl := List.mem_singleton.mp ht
        rcases List.mem_append.mp hs with hs | hs
        · exact TransCmp.lt_trans ((List.pairwise_append.mp hbefore).2.2 s hs last (by simp)) hlt
        · rwa [List.mem_singleton.mp hs])
      exact ⟨hstrict, fun t => by rw [hmem]; simp [or_assoc, or_left_comm]⟩

/-- Texts that are sorted and then each taken once. -/
theorem increasing_spec (ts : List Text) :
    ((ts.mergeSort le).eraseReps).Pairwise (fun s t => compare s t = .lt) ∧
      ∀ t, t ∈ (ts.mergeSort le).eraseReps ↔ t ∈ ts := by
  have hsorted : (ts.mergeSort le).Pairwise fun s t => (compare s t).isLE :=
    pairwise_mergeSort_of_transCmp ts
  have hmem (t : Text) : t ∈ ts.mergeSort le ↔ t ∈ ts := List.mem_mergeSort
  cases hlist : ts.mergeSort le with
  | nil =>
    rw [hlist] at hmem
    exact ⟨.nil, hmem⟩
  | cons first rest =>
    rw [hlist] at hsorted hmem
    obtain ⟨hstrict, hloop⟩ := @eraseReps_loop first rest [] hsorted (List.pairwise_singleton _ _)
    exact ⟨hstrict, fun t => by rw [← hmem]; exact (hloop t).trans (by simp)⟩

end Text

/-! ### Reports of findings in any order -/

namespace FindingRecord

/-- The comparison of report order, of records whose parts are texts and integers where findings have
them. -/
def compareKeys (f g : FindingRecord) : Ordering :=
  (Text.compare f.location.filePath.asText g.location.filePath.asText).then <|
    (compare (f.location.startLine.asInt?.getD 0) (g.location.startLine.asInt?.getD 0)).then <|
      (compare (f.location.startColumn.asInt?.getD 0) (g.location.startColumn.asInt?.getD 0)).then <|
        (Text.compare f.ruleId.asText g.ruleId.asText).then
          (Text.compare f.message.asText g.message.asText)

instance instTransCmpCompareKeys : TransCmp compareKeys :=
  inferInstanceAs <| TransCmp <|
    compareLex (fun f g : FindingRecord =>
        Text.compare f.location.filePath.asText g.location.filePath.asText) <|
      compareLex (fun f g : FindingRecord =>
          compare (f.location.startLine.asInt?.getD 0) (g.location.startLine.asInt?.getD 0)) <|
        compareLex (fun f g : FindingRecord =>
            compare (f.location.startColumn.asInt?.getD 0) (g.location.startColumn.asInt?.getD 0)) <|
          compareLex (fun f g : FindingRecord => Text.compare f.ruleId.asText g.ruleId.asText)
            fun f g : FindingRecord => Text.compare f.message.asText g.message.asText

end FindingRecord

namespace Value

/-- How two values compare: whether they are equal, and whether the first is less. -/
def Compares (v w : Value) (o : Ordering) : Prop :=
  equal v w = decide (o = .eq) ∧ less v w = .ok (o = .lt)

theorem compares_text (s t : Text) : Compares (.text s) (.text t) (Text.compare s t) := by
  refine ⟨?_, rfl⟩
  simp only [equal, Scalar.sameKey, Scalar.whole?, Scalar.text.injEq]
  by_cases h : s = t
  · simp [h, ReflCmp.compare_self]
  · simp [h, mt Text.eq_of_compare h]

theorem compares_int (m n : Int) : Compares (.int m) (.int n) (compare m n) := by
  refine ⟨?_, ?_⟩
  · simp [equal, Scalar.sameKey, Scalar.whole?]
  · simp only [Int.compare_eq_lt]
    rfl

/-- The first items that differ decide between lists. -/
theorem lessItems_cons {v w : Value} {vs ws : List Value} {o rest : Ordering}
    (h : Compares v w o) (hrest : lessItems vs ws = .ok (rest = .lt)) :
    lessItems (v :: vs) (w :: ws) = .ok (o.then rest = .lt) := by
  rw [lessItems, h.1, h.2, hrest]
  cases o <;> rfl

end Value

namespace Finding

theorem keyLess_toRecord (f g : Finding) :
    FindingRecord.keyLess f.toRecord g.toRecord = .ok (compareKeys f g = .lt) := by
  have hmessage : Value.lessItems [.text f.message] [.text g.message] =
      .ok ((Text.compare f.message g.message).then .eq = .lt) :=
    Value.lessItems_cons (Value.compares_text _ _) rfl
  rw [Ordering.then_eq] at hmessage
  have hitems := Value.lessItems_cons (Value.compares_text f.filePath g.filePath) <|
    Value.lessItems_cons (Value.compares_int f.line g.line) <|
      Value.lessItems_cons (Value.compares_int f.column g.column) <|
        Value.lessItems_cons (Value.compares_text f.ruleId g.ruleId) hmessage
  exact congrArg (Except.mapError Fault.order) hitems

/-- Records of findings have a report order: that of the findings. -/
theorem sort_toRecord (fs : List Finding) :
    FindingRecord.sort (fs.map toRecord) = .ok ((sort fs).map toRecord) := by
  have hless : Decides FindingRecord.keyLess FindingRecord.compareKeys (· ∈ fs.map toRecord) := by
    intro a b ha hb
    obtain ⟨f, -, rfl⟩ := List.mem_map.mp ha
    obtain ⟨g, -, rfl⟩ := List.mem_map.mp hb
    exact keyLess_toRecord f g
  rw [FindingRecord.sort, sortBy_eq hless, sort, List.map_mergeSort]
  exact fun f _ g _ => rfl

end Finding

/-- Reports that are built from findings in any order: by a run, or from records of the findings with
whatever other parts. -/
inductive ReportRecord.Built (fs : List Finding) : ReportRecord → Prop where
  | ofRun (rest : Report) : Built fs (Report.ofFindings fs rest).toRecord
  | ofRecords {parts : List (Text × Value)} {r : ReportRecord}
    (h : ofFindings (fs.map Finding.toRecord) parts = .ok r) : Built fs r

theorem ReportRecord.Built.findings_eq {fs : List Finding} {r : ReportRecord} (h : Built fs r) :
    r.findings = (Finding.sort fs).map Finding.toRecord := by
  cases h with
  | ofRun rest => rfl
  | ofRecords h =>
    obtain ⟨base, -, h⟩ := bind_eq_ok.mp h
    rw [Finding.sort_toRecord, ok_bind] at h
    cases h
    rfl

/-! ### Findings that are shown -/

namespace Finding

variable {fs : List Finding}

/-- Those of some findings that a format shows. -/
def shown (includeSuppressed : Bool) (fs : List Finding) : List Finding :=
  fs.filter fun f => includeSuppressed || !f.suppressed

theorem visible_toRecord (includeSuppressed : Bool) (fs : List Finding) :
    FindingRecord.visible includeSuppressed (fs.map toRecord) =
      (shown includeSuppressed fs).map toRecord := by
  rw [FindingRecord.visible, List.filter_map, shown]
  rfl

theorem mapM_toValue (fs : List Finding) :
    (fs.map toRecord).mapM FindingRecord.toValue = .ok (fs.map toValue) := by
  have htoValue (f : Finding) : f.toRecord.toValue = .ok f.toValue := rfl
  exact mapM_map_eq_ok htoValue fs

theorem ruleIds_toRecord (fs : List Finding) :
    FindingRecord.ruleIds (fs.map toRecord) = .ok (fs.map fun f => .text f.ruleId) := by
  have hkey (f : Finding) : f.toRecord.ruleId.keyOrFault = .ok (.text f.ruleId) := rfl
  exact mapM_map_eq_ok (f := fun f => f.ruleId.keyOrFault) (g := toRecord) hkey fs

/-- The ids of the rules of some findings, each once and in order. -/
def increasingIds (fs : List Finding) : List Text :=
  ((fs.map ruleId).mergeSort Text.le).eraseReps

theorem increasing_toRecord (fs : List Finding) :
    Scalar.increasing (fs.map fun f => .text f.ruleId) = .ok ((increasingIds fs).map .text) := by
  have hall : (fs.map fun f => Scalar.text f.ruleId).mapM Scalar.text? = some (fs.map ruleId) := by
    induction fs with
    | nil => rfl
    | cons f fs ih => rw [List.map_cons, List.mapM_cons, ih]; rfl
  unfold Scalar.increasing
  rw [hall]
  rfl

theorem increasingIds_strict (fs : List Finding) :
    (increasingIds fs).Pairwise fun s t => Text.compare s t = .lt :=
  (Text.increasing_spec _).1

theorem mem_increasingIds {id : Text} : id ∈ increasingIds fs ↔ ∃ f ∈ fs, f.ruleId = id := by
  rw [increasingIds, (Text.increasing_spec _).2, List.mem_map]

theorem increasingIds_nodup (fs : List Finding) : (increasingIds fs).Nodup :=
  (increasingIds_strict fs).imp fun {s t} hlt heq => by
    simp [heq, ReflCmp.compare_self] at hlt

end Finding

end HouseStyle
