import HouseStyle.Proofs.Report.Summary
import Mathlib.Data.List.Induction
import Mathlib.Data.List.Nodup

/-! The formats show the same findings: those of the report in its order, but for the suppressed ones
where these are left out. A listing has them under the names of their files, and since reports are
ordered by file first, no file comes twice. An interchange document has the rules of what it shows by
increasing id, and each of its results refers to its own rule. -/

namespace HouseStyle

open Std

variable {fs : List Finding} {f g : Finding}

/-! ### Files of a listing -/

namespace Listing

/-- Findings by file: no file comes twice, and each has some findings, all of them in that file. -/
structure Grouped (groups : List (Text × List Finding)) (fs : List Finding) : Prop where
  flatten : groups.flatMap Prod.snd = fs
  distinct : (groups.map Prod.fst).Nodup
  inFile : ∀ group ∈ groups, group.2 ≠ [] ∧ ∀ f ∈ group.2, f.filePath = group.1

/-- A group as a listing takes it. -/
def groupRecord (group : Text × List Finding) : Scalar × List FindingRecord :=
  (.text group.1, group.2.map Finding.toRecord)

theorem sameKey_text (s t : Text) : (Scalar.text s).sameKey (.text t) = decide (s = t) := by
  simp [Scalar.sameKey, Scalar.whole?]

theorem insertGroup_append {α : Type} {key : Scalar} {item : α} {before after : List (Scalar × List α)}
    (h : ∀ group ∈ before, group.1.sameKey key = false) :
    insertGroup key item (before ++ after) = before ++ insertGroup key item after := by
  induction before with
  | nil => rfl
  | cons group before ih =>
    obtain ⟨hgroup, hbefore⟩ := List.forall_mem_cons.mp h
    rw [List.cons_append, insertGroup, if_neg (by simp [hgroup]), ih hbefore, List.cons_append]

theorem filePath_isLE (h : (Finding.compareKeys f g).isLE) :
    (Text.compare f.filePath g.filePath).isLE := by
  unfold Finding.compareKeys at h
  cases hcompare : Text.compare f.filePath g.filePath with
  | lt | eq => rfl
  | gt => rw [hcompare] at h; exact h

/-- In report order a file that has been left does not come again. -/
theorem Grouped.left {before : List (Text × List Finding)} {path : Text} {items : List Finding}
    (h : Grouped (before ++ [(path, items)]) fs)
    (hsorted : (fs ++ [f]).Pairwise fun f g => (Finding.compareKeys f g).isLE) :
    ∀ group ∈ before, group.1 ≠ f.filePath := by
  intro group hgroup heq
  obtain ⟨hbefore, hlast⟩ := List.forall_mem_append.mp h.inFile
  obtain ⟨hitems, hpath⟩ := hlast _ (List.mem_singleton_self _)
  have hflatten : before.flatMap Prod.snd ++ items = fs := by simpa using h.flatten
  have hdistinct : (before.map Prod.fst ++ [path]).Nodup := by simpa using h.distinct
  obtain ⟨g, hg⟩ := List.exists_mem_of_ne_nil _ (hbefore group hgroup).1
  obtain ⟨l, hl⟩ := List.exists_mem_of_ne_nil _ hitems
  -- The file of the new finding stands before and behind that of the last group, so it is that file.
  rw [← hflatten] at hsorted
  obtain ⟨hsorted, -, hlast⟩ := List.pairwise_append.mp hsorted
  have hgl := filePath_isLE <|
    (List.pairwise_append.mp hsorted).2.2 g (List.mem_flatMap.mpr ⟨group, hgroup, hg⟩) l hl
  have hlf := filePath_isLE (hlast l (List.mem_append_right _ hl) f (List.mem_singleton_self _))
  rw [(hbefore group hgroup).2 g hg, heq, hpath l hl] at hgl
  rw [hpath l hl] at hlf
  have hsame : path = f.filePath := Text.eq_of_compare (OrientedCmp.isLE_antisymm hlf hgl)
  rw [List.nodup_append] at hdistinct
  exact hdistinct.2.2 _ (List.mem_map_of_mem hgroup) _ (List.mem_singleton_self _)
    (heq.trans hsame.symm)

theorem Grouped.insert {groups : List (Text × List Finding)} (h : Grouped groups fs)
    (hsorted : (fs ++ [f]).Pairwise fun f g => (Finding.compareKeys f g).isLE) :
    ∃ groups', insertGroup (.text f.filePath) f.toRecord (groups.map groupRecord) =
      groups'.map groupRecord ∧ Grouped groups' (fs ++ [f]) := by
  rcases List.eq_nil_or_concat' groups with rfl | ⟨before, ⟨path, items⟩, rfl⟩
  · obtain rfl : [] = fs := h.flatten
    exact ⟨[(f.filePath, [f])], rfl, rfl, List.nodup_singleton _, by simp⟩
  have hleft := h.left hsorted
  obtain ⟨hbefore, hlast⟩ := List.forall_mem_append.mp h.inFile
  obtain ⟨hitems, hpath⟩ := hlast _ (List.mem_singleton_self _)
  have hflatten : before.flatMap Prod.snd ++ items = fs := by simpa using h.flatten
  have hdistinct : (before.map Prod.fst ++ [path]).Nodup := by simpa using h.distinct
  have hskip : ∀ group ∈ before.map groupRecord, group.1.sameKey (.text f.filePath) = false := by
    intro _ hrecord
    obtain ⟨group, hgroup, rfl⟩ := List.mem_map.mp hrecord
    rw [groupRecord, sameKey_text]
    exact decide_eq_false (hleft group hgroup)
  rw [List.map_append, insertGroup_append hskip]
  by_cases hsame : path = f.filePath
  · subst hsame
    refine ⟨before ++ [(f.filePath, items ++ [f])], ?_, ?_, by simpa using hdistinct, ?_⟩
    · simp [insertGroup, groupRecord, sameKey_text]
    · simp [← hflatten]
    · refine List.forall_mem_append.mpr ⟨hbefore, List.forall_mem_singleton.mpr ⟨by simp, ?_⟩⟩
      exact List.forall_mem_append.mpr ⟨hpath, by simp⟩
  · refine ⟨before ++ [(path, items), (f.filePath, [f])], ?_, ?_, ?_, ?_⟩
    · simp [insertGroup, groupRecord, sameKey_text, hsame]
    · simp [← hflatten]
    · rw [List.map_append, List.map_cons, List.map_singleton, List.append_cons]
      refine List.nodup_append.mpr ⟨hdistinct, List.nodup_singleton _, fun name hname other hother => ?_⟩
      obtain rfl := List.mem_singleton.mp hother
      rcases List.mem_append.mp hname with hname | hname
      · obtain ⟨group, hgroup, rfl⟩ := List.mem_map.mp hname
        exact hleft group hgroup
      · rwa [List.mem_singleton.mp hname]
    · exact List.forall_mem_append.mpr ⟨hbefore, by simpa using ⟨hitems, hpath⟩⟩

theorem groups_toRecord (hsorted : fs.Pairwise fun f g => (Finding.compareKeys f g).isLE) :
    ∃ groups, Listing.groups (fs.map Finding.toRecord) = .ok (groups.map groupRecord) ∧
      Grouped groups fs := by
  induction fs using List.reverseRecOn with
  | nil => exact ⟨[], rfl, rfl, List.nodup_nil, by simp⟩
  | append_singleton fs f ih =>
    obtain ⟨groups, hgroups, hgrouped⟩ := ih (List.pairwise_append.mp hsorted).1
    obtain ⟨groups', hinsert, hgrouped'⟩ := hgrouped.insert hsorted
    refine ⟨groups', ?_, hgrouped'⟩
    rw [Listing.groups] at hgroups ⊢
    rw [List.map_append, List.foldlM_append, hgroups, ok_bind, ← hinsert]
    rfl

/-! ### Findings of a listing -/

theorem numbered_ok (line : Int) (distance : Int) (codes : List Text) :
    ∃ lines, numbered (.int line) distance (codes.map .text) = .ok lines := by
  induction codes generalizing distance with
  | nil => exact ⟨[], rfl⟩
  | cons code codes ih =>
    obtain ⟨lines, hlines⟩ := ih (distance + 1)
    have hminus : Value.minus (.int line) (.int (-distance)) = .ok (.int (line - -distance)) := rfl
    rw [List.map_cons, numbered, hminus, ok_bind, hlines]
    exact ⟨_, rfl⟩

theorem snippetLines_ok (s : Snippet) : ∃ lines, snippetLines s.toRecord = .ok lines := by
  have hfirst : Value.minus (.int s.highlightedLine) (.nat (s.before.map Value.text).length) =
      .ok (.int (s.highlightedLine - (s.before.map Value.text).length)) := rfl
  obtain ⟨before, hbefore⟩ :=
    numbered_ok (s.highlightedLine - (s.before.map Value.text).length) 0 s.before
  obtain ⟨after, hafter⟩ := numbered_ok s.highlightedLine 1 s.after
  rw [snippetLines, Snippet.toRecord, hfirst, ok_bind, hbefore, ok_bind, hafter]
  exact ⟨_, rfl⟩

theorem fixLines_ok (fix : Fix) : ∃ lines, fixLines fix.toRecord = .ok lines := by
  unfold fixLines
  split <;> exact ⟨_, rfl⟩

theorem details_ok (f : Finding) : ∃ lines, details f.toRecord = .ok lines := by
  choose snippets hsnippets using snippetLines_ok
  choose fixes hfixes using fixLines_ok
  unfold details
  cases hs : f.snippet <;> cases hf : f.fix <;>
    simp only [Finding.toRecord, hs, hf, Option.map, hsnippets, hfixes] <;> exact ⟨_, rfl⟩

/-- Whatever a finding holds, it has a text. -/
theorem findingLines_ok (verbose : Bool) (f : Finding) :
    ∃ lines, findingLines verbose f.toRecord = .ok lines := by
  obtain ⟨details, hdetails⟩ := details_ok f
  have hheading : ∃ line, heading f.toRecord = .ok line := ⟨_, rfl⟩
  obtain ⟨heading, hheading⟩ := hheading
  rw [findingLines, hheading, ok_bind, hdetails]
  cases verbose <;> exact ⟨_, rfl⟩

/-! ### Listings -/

/-- A listing is what it prints for each file and its findings, one after the other, and a summary. -/
structure Prints (t : Text) (r : ReportRecord) (options : ListingOptions)
    (groups : List (Text × List Finding)) (printed : Finding → Text) : Prop where
  finding : ∀ f : Finding, Listing.finding f.toRecord options = .ok (printed f)
  whole : t = (groups.flatMap fun group =>
      Styled.print options.colour [⟨bold .cyan, group.1⟩] ++ group.2.flatMap printed ++
        [.char '\n']) ++
    (summaryLines r).flatMap (Styled.print options.colour)

theorem report_prints {r : ReportRecord} (hfindings : r.findings = fs.map Finding.toRecord)
    (hsorted : fs.Pairwise fun f g => (Finding.compareKeys f g).isLE) (options : ListingOptions) :
    ∃ t groups printed, report r options = .ok t ∧
      Grouped groups (Finding.shown options.includeSuppressed fs) ∧
      Prints t r options groups printed := by
  obtain ⟨groups, hgroups, hgrouped⟩ := @groups_toRecord
    (Finding.shown options.includeSuppressed fs) (hsorted.filter _)
  choose lines hlines using findingLines_ok options.verbose
  have hfile (group : Text × List Finding) : fileLines options.verbose (groupRecord group) =
      .ok ([⟨bold .cyan, group.1⟩] :: (group.2.map lines).flatten ++ [[]]) := by
    rw [fileLines, groupRecord, mapM_map_eq_ok hlines]
    rfl
  rw [report, reportLines, ReportRecord.visible, hfindings, Finding.visible_toRecord, hgroups, ok_bind,
    mapM_map_eq_ok hfile, ok_bind]
  refine ⟨_, groups, fun f => (lines f).flatMap (Styled.print options.colour), rfl, hgrouped,
    fun f => ?_, ?_⟩
  · rw [Listing.finding, hlines]
    rfl
  · rw [List.flatMap_append, ← List.flatMap_def, List.flatMap_assoc]
    congr 1
    refine List.flatMap_congr fun group _ => ?_
    rw [List.cons_append, List.flatMap_cons, List.flatMap_append, ← List.flatMap_def,
      List.flatMap_assoc, List.append_assoc]
    rfl

end Listing

/-! ### Results -/

namespace Sarif

/-- A result tells a finding, and refers to its rule by the place in a list of ids. -/
structure Tells (ids : List Text) (v : Value) (f : Finding) : Prop where
  rule : v.at? ["ruleId"] = some (.text f.ruleId)
  place : ∃ n, v.at? ["ruleIndex"] = some (.nat n) ∧ ids[n]? = some f.ruleId
  level : v.at? ["level"] = some (level f.severity)
  message : v.at? ["message", "text"] = some (.text f.message)
  location : ∃ place, v.at? ["locations"] = some (.list [place]) ∧
    place.at? ["physicalLocation", "artifactLocation", "uri"] = some (.text f.filePath) ∧
    place.at? ["physicalLocation", "region", "startLine"] = some (.int f.line) ∧
    place.at? ["physicalLocation", "region", "startColumn"] = some (.int f.column) ∧
    place.at? ["physicalLocation", "region", "charOffset"] = some (.nat f.span.start) ∧
    place.at? ["physicalLocation", "region", "charLength"] = some (.nat f.span.length)
  suppressed : (v.at? ["suppressions"]).isSome = f.suppressed
  fixed : (v.at? ["fixes"]).isSome = f.fix.isSome

theorem extent_toRecord (s : Span) :
    extent s.toRecord = .ok [("charOffset", .nat s.start), ("charLength", .nat s.length)] := by
  have hlength : s.toRecord.length = .ok (.int (s.stop - s.start)) := rfl
  rw [extent, hlength, ok_bind, Span.length, Value.nat, Value.nat, Int.ofNat_sub s.start_le_stop]
  rfl

theorem findIdx_sameKey {ids : List Text} {id : Text} (h : id ∈ ids) :
    ids[(ids.map Scalar.text).findIdx (Scalar.text id).sameKey]? = some id := by
  have hsame : (Scalar.text id).sameKey ∘ Scalar.text = fun other => other == id := by
    funext other
    rw [Function.comp, Listing.sameKey_text, Bool.beq_eq_decide_eq]
    exact decide_eq_decide.mpr eq_comm
  rw [List.findIdx_map, hsame]
  exact List.getElem?_idxOf h

theorem region_toRecord (f : Finding) : ∃ v, region f.toRecord = .ok v ∧
    v.at? ["startLine"] = some (.int f.line) ∧ v.at? ["startColumn"] = some (.int f.column) ∧
    v.at? ["charOffset"] = some (.nat f.span.start) ∧
    v.at? ["charLength"] = some (.nat f.span.length) := by
  have hspan : f.toRecord.span = f.span.toRecord := rfl
  rw [region, hspan, extent_toRecord, ok_bind]
  exact ⟨_, rfl, rfl, rfl, rfl, rfl⟩

theorem fixEntry_toRecord (f : Finding) (fix : Fix) :
    ∃ v, fixEntry f.toRecord fix.toRecord = .ok v := by
  have hspan : fix.toRecord.span = fix.span.toRecord := rfl
  rw [fixEntry, replacement, hspan, extent_toRecord]
  exact ⟨_, rfl⟩

/-- A result with these parts. -/
def resultWith (place : Nat) (region : Value) (fixes : List (Text × Value)) (f : Finding) : Value :=
  .record <| List.flatten [
    [("ruleId", .text f.ruleId), ("ruleIndex", .nat place), ("level", level f.severity),
      ("message", message (.text f.message)),
      ("locations", .list [.record [("physicalLocation",
        .record [("artifactLocation", artifact f.toRecord), ("region", region)])]])],
    if f.suppressed then [("suppressions", .list [suppression f.toRecord])] else [],
    fixes]

theorem result_toRecord (ids : List Scalar) {region : Value} {f : Finding}
    (hregion : Sarif.region f.toRecord = .ok region) :
    ∃ fixes : List (Text × Value),
      result ids f.toRecord =
        .ok (resultWith (ids.findIdx (Scalar.text f.ruleId).sameKey) region fixes f) ∧
      (fixes = [] ∧ f.fix = none ∨
        (∃ v, fixes = [(Text.ofString "fixes", v)]) ∧ f.fix.isSome = true) := by
  have hid : f.toRecord.ruleId.keyOrFault = .ok (.text f.ruleId) := rfl
  have hlevel : levelOf f.toRecord.severity = .ok (level f.severity) := rfl
  rw [result, hregion, ok_bind, hid, ok_bind, hlevel, ok_bind]
  cases hf : f.fix with
  | none =>
    have hrecord : f.toRecord.fix = none := by simp [Finding.toRecord, hf]
    simp only [hrecord]
    exact ⟨[], rfl, .inl ⟨rfl, trivial⟩⟩
  | some fix =>
    have hrecord : f.toRecord.fix = some fix.toRecord := by simp [Finding.toRecord, hf]
    obtain ⟨v, hv⟩ := fixEntry_toRecord f fix
    simp only [hrecord, hv]
    exact ⟨_, rfl, .inr ⟨⟨_, rfl⟩, rfl⟩⟩

theorem result_tells {ids : List Text} (f : Finding) (hrule : f.ruleId ∈ ids) :
    ∃ v, result (ids.map .text) f.toRecord = .ok v ∧ Tells ids v f := by
  obtain ⟨region, hregion, hline, hcolumn, hoffset, hlength⟩ := region_toRecord f
  obtain ⟨fixes, hresult, hfixes⟩ := result_toRecord (ids.map .text) hregion
  refine ⟨_, hresult, rfl, ⟨_, rfl, findIdx_sameKey hrule⟩, rfl, rfl,
    ⟨_, rfl, rfl, hline, hcolumn, hoffset, hlength⟩, ?_, ?_⟩
  · rcases hfixes with ⟨rfl, -⟩ | ⟨⟨v, rfl⟩, -⟩ <;> cases hs : f.suppressed <;>
      rw [resultWith, hs] <;> rfl
  · rcases hfixes with ⟨rfl, hf⟩ | ⟨⟨v, rfl⟩, hf⟩ <;> cases hs : f.suppressed <;>
      rw [resultWith, hs, hf] <;> rfl

theorem rule_id (registry : Registry) (id : Text) :
    (rule registry (.text id)).at? ["id"] = some (.text id) := by
  unfold rule
  split <;> rfl

/-- An interchange document has the rules of some findings by increasing id, and a result for each
finding, in their order. -/
def Lists (v : Value) (fs : List Finding) : Prop :=
  ∃ run rules ids results, v.at? ["runs"] = some (.list [run]) ∧
    run.at? ["tool", "driver", "rules"] = some (.list rules) ∧
    rules.map (·.at? ["id"]) = ids.map (fun id => some (.text id)) ∧
    (ids.Pairwise fun s t => Text.compare s t = .lt) ∧ (∀ id, id ∈ ids ↔ ∃ f ∈ fs, f.ruleId = id) ∧
    run.at? ["results"] = some (.list results) ∧ List.Forall₂ (Tells ids) results fs

theorem report_lists {r : ReportRecord} (hfindings : r.findings = fs.map Finding.toRecord)
    (includeSuppressed : Bool) (registry : Registry) :
    ∃ v, report r includeSuppressed registry = .ok v ∧
      Lists v (Finding.shown includeSuppressed fs) := by
  have hvisible : r.visible includeSuppressed =
      (Finding.shown includeSuppressed fs).map Finding.toRecord := by
    rw [ReportRecord.visible, hfindings, Finding.visible_toRecord]
  generalize Finding.shown includeSuppressed fs = shown at hvisible ⊢
  obtain ⟨results, hresults, htells⟩ := exists_mapM_forall₂ fun f hf =>
    result_tells f (Finding.mem_increasingIds.mpr ⟨f, hf, rfl⟩)
  have hmap : (shown.map Finding.toRecord).mapM (result ((Finding.increasingIds shown).map .text)) =
      .ok results := by
    rw [List.mapM_map]
    exact hresults
  have hids : (Except.mapError Fault.order (.ok ((Finding.increasingIds shown).map Scalar.text))) =
      .ok ((Finding.increasingIds shown).map Scalar.text) := rfl
  rw [report, hvisible, Finding.ruleIds_toRecord, ok_bind, Finding.increasing_toRecord, hids, ok_bind,
    hmap]
  refine ⟨_, rfl, _, _, Finding.increasingIds shown, results, rfl, rfl, ?_,
    Finding.increasingIds_strict shown, fun id => Finding.mem_increasingIds, rfl, htells⟩
  rw [List.map_map, List.map_map]
  exact List.map_congr_left fun id _ => rule_id registry id

end Sarif

/-! ### All formats -/

/-- Every format shows the findings of a report in report order, all of them or those that are not
suppressed, whatever they are and whatever else the report holds. -/
theorem formats_agree {r : ReportRecord} (h : ReportRecord.Built fs r) (includeSuppressed : Bool) :
    let shown := Finding.shown includeSuppressed (Finding.sort fs)
    r.findings = (Finding.sort fs).map Finding.toRecord ∧
    (∀ options : ListingOptions, options.includeSuppressed = includeSuppressed →
      ∃ t groups printed, Format.render (.listing options) r = .ok t ∧
        Listing.Grouped groups shown ∧ Listing.Prints t r options groups printed) ∧
    (∀ options : DocumentOptions, options.includeSuppressed = includeSuppressed →
      ∃ v, Document.report r options = .ok v ∧
        Format.render (.document options) r = Format.json options.indent v ∧
        v.at? ["findings"] = some (.list (shown.map Finding.toValue))) ∧
    ∀ registry, ∃ v, Sarif.report r includeSuppressed registry = .ok v ∧
      (registry = .builtin →
        Format.render (.sarif includeSuppressed) r = Format.json (.int 2) v) ∧
      Sarif.Lists v shown := by
  have hfindings := h.findings_eq
  refine ⟨hfindings, ?_, ?_, ?_⟩
  · rintro options rfl
    exact Listing.report_prints hfindings (Finding.sort_pairwise fs) options
  · rintro options rfl
    obtain ⟨v, hv, hshown, -⟩ := Document.report_ok hfindings options
    refine ⟨v, hv, ?_, hshown⟩
    rw [Format.render, hv]
    rfl
  · intro registry
    obtain ⟨v, hv, hlists⟩ := Sarif.report_lists hfindings includeSuppressed registry
    refine ⟨v, hv, ?_, hlists⟩
    rintro rfl
    rw [Format.render, hv]
    rfl

/-- Of two findings, the first of which is suppressed, a report shows the second. -/
theorem formats_agree_suppressed :
    let f : Finding :=
      { ruleId := "b", message := "m", severity := .warning, category := .safety
        location := { filePath := "x", startLine := 1, endLine := 1 }, span := .point 0 }
    let r := (Report.ofFindings [{ f with suppressed := true }, { f with ruleId := "a" }]).toRecord
    ReportRecord.Built [{ f with suppressed := true }, { f with ruleId := "a" }] r ∧
      (∃ v, Document.report r = .ok v ∧
        v.at? ["findings"] = some (.list [Finding.toValue { f with ruleId := "a" }])) ∧
      ∃ v, Sarif.report r = .ok v ∧ Sarif.Lists v [{ f with ruleId := "a" }] := by
  intro f r
  have hbuilt : ReportRecord.Built [{ f with suppressed := true }, { f with ruleId := "a" }] r :=
    .ofRun {}
  obtain ⟨-, -, hdocument, hsarif⟩ := formats_agree hbuilt false
  have hshown : Finding.shown false
      (Finding.sort [{ f with suppressed := true }, { f with ruleId := "a" }]) =
      [{ f with ruleId := "a" }] := by
    rw [Finding.shown, Finding.filter_sort]
    exact List.mergeSort_singleton _
  rw [hshown] at hdocument hsarif
  obtain ⟨v, hv, -, hfindings⟩ := hdocument {} rfl
  obtain ⟨w, hw, -, hlists⟩ := hsarif .builtin
  exact ⟨hbuilt, ⟨v, hv, hfindings⟩, w, hw, hlists⟩

end HouseStyle
