import HouseStyle.Proofs.Report.Order
import HouseStyle.Proofs.Session.FixedFile
import HouseStyle.Proofs.Session.Threshold

/-! What a fixing run leaves on disk. The report on it is about the fixed texts. Where a text was
written, the file holds it, and reads back as it if the terminator holds no stray bytes. Where writing
was refused, the file holds what it held before, and the report is not about that. -/

namespace HouseStyle

open Rule Discovery

/-! ### Runs -/

/-- One entry of a list gives all that is gathered, if the entries with other keys give nothing. -/
theorem flatMap_eq_of_key {α β γ : Type} {xs : List (α × β)} {g : α × β → List γ} {a : α} {b : β}
    (hnodup : (xs.map Prod.fst).Nodup) (hmem : (a, b) ∈ xs)
    (hother : ∀ x ∈ xs, x.1 ≠ a → g x = []) : xs.flatMap g = g (a, b) := by
  obtain ⟨before, after, rfl⟩ := List.append_of_mem hmem
  rw [List.map_append, List.map_cons, List.nodup_middle, List.nodup_cons, ← List.map_append] at hnodup
  have hnone {x : α × β} (hx : x ∈ before ++ after) : g x = [] := by
    have hx' : x ∈ before ++ (a, b) :: after :=
      (List.sublist_cons_self (a, b) after).append_left before |>.subset hx
    exact hother x hx' fun heq => hnodup.1 (List.mem_map.mpr ⟨x, hx, heq⟩)
  rw [List.flatMap_append, List.flatMap_cons,
    List.flatMap_eq_nil_iff.mpr fun x hx => hnone (List.mem_append_left _ hx),
    List.flatMap_eq_nil_iff.mpr fun x hx => hnone (List.mem_append_right _ hx),
    List.nil_append, List.append_nil]

namespace Batch

/-- The files that did not fail, with their outcomes. -/
def finished (outcomes : Outcomes) : List (Text × FileOutcome) :=
  outcomes.filterMap fun (path, outcome) => outcome.toOption.map (path, ·)

variable {work : FileTree → Text → Outcome × FileTree} {tree : FileTree} {files : List Text}
  {outcomes : Outcomes} {path : Text} {outcome : FileOutcome}

theorem mem_finished : (path, outcome) ∈ finished outcomes ↔ (path, .ok outcome) ∈ outcomes := by
  rw [finished, List.mem_filterMap]
  constructor
  · rintro ⟨⟨path', outcome'⟩, hmem, h⟩
    cases outcome' with
    | error fault => cases h
    | ok o =>
      cases h
      exact hmem
  · exact fun h => ⟨_, h, rfl⟩

theorem ofChanges_files (work : FileTree → Text → Outcome × FileTree) (tree : FileTree)
    (files : List Text) : (ofChanges work tree files).1.map Prod.fst = files := by
  induction files generalizing tree with
  | nil => rfl
  | cons path rest ih => exact congrArg (path :: ·) (ih _)

theorem finished_sublist (outcomes : Outcomes) :
    ((finished outcomes).map Prod.fst).Sublist (outcomes.map Prod.fst) := by
  induction outcomes with
  | nil => exact .slnil
  | cons o rest ih =>
    obtain ⟨path, outcome⟩ := o
    cases outcome with
    | error fault => exact ih.cons path
    | ok outcome => exact ih.cons_cons path

theorem lookup_of_mem {o : Outcome} (hnodup : (outcomes.map Prod.fst).Nodup)
    (h : (path, o) ∈ outcomes) : outcomes.lookup path = some o := by
  cases hfound : outcomes.lookup path with
  | none => simpa using List.lookup_eq_none_iff.mp hfound _ h
  | some o' =>
    obtain ⟨before, after, heq, -⟩ := List.lookup_eq_some_iff.mp hfound
    have hmem : (path, o') ∈ outcomes := heq ▸ List.mem_append_right _ List.mem_cons_self
    exact congrArg some (Prod.mk.inj (List.inj_on_of_nodup_map hnodup hmem h rfl)).2

/-- The outcomes are looked up in the order in which they were made. -/
theorem done_eq_finished (hnodup : (outcomes.map Prod.fst).Nodup) :
    done (outcomes.map Prod.fst) outcomes = (finished outcomes).map Prod.snd := by
  rw [done, finished, List.filterMap_map, List.map_filterMap]
  refine List.filterMap_congr fun o ho => ?_
  obtain ⟨path, outcome⟩ := o
  rw [Function.comp, lookup_of_mem hnodup ho]
  cases outcome <;> rfl

end Batch

namespace Engine

variable {e : Engine}

/-- A run over files, each of which is before all that come after it, accounts for each file that
did not fail. -/
theorem ofChanges_accounts (hkinds : ∀ rule ∈ e.rules, rule.kind ∈ builtinKinds)
    (hdry : e.config.dryRun.isTrue = false) (tree : FileTree) {files : List Text}
    (hfiles : files.Pairwise (Before tree.home)) :
    let run := Batch.ofChanges e.fixFile tree files
    (tree.root.wellNamed → run.2.root.wellNamed) ∧
    (∀ path bytes, tree.read path = .ok bytes → (∀ f ∈ files, Before tree.home path f) →
      run.2.read path = .ok bytes) ∧
    ∀ path outcome, (path, .ok outcome) ∈ run.1 →
      ∃ r checked bytes, e.Accounts run.2 path outcome r checked bytes := by
  induction files generalizing tree with
  | nil =>
    exact ⟨id, fun path bytes hread _ => hread, fun path outcome h => absurd h List.not_mem_nil⟩
  | cons file rest ih =>
    obtain ⟨hbefore, hrest⟩ := List.pairwise_cons.mp hfiles
    obtain ⟨hhome, hwell, hkept⟩ := read_fixFile hdry tree file
    rw [← hhome] at hrest
    obtain ⟨hnamed, hlater, haccounts⟩ := ih (e.fixFile tree file).2 hrest
    refine ⟨hnamed ∘ hwell, fun path bytes hread hall => ?_, fun path outcome h => ?_⟩
    · refine hlater path bytes (hkept path bytes hread (hall file List.mem_cons_self)) fun f hf => ?_
      rw [hhome]
      exact hall f (List.mem_cons_of_mem _ hf)
    · rcases List.mem_cons.mp h with h | h
      · obtain ⟨rfl, houtcome⟩ := Prod.mk.inj h
        obtain ⟨r, checked, bytes, h⟩ := fixFile_accounts hkinds hdry houtcome.symm
        have hread := hlater path bytes h.read fun f hf => hhome ▸ hbefore f hf
        exact ⟨r, checked, bytes, { h with read := hread }⟩
      · exact haccounts path outcome h

end Engine

/-! ### Reports -/

/-- What a report says about a file, without the fixes that were skipped. -/
def Report.remaining (report : Report) (path : Text) : List Finding :=
  report.findings.filter fun f => f.filePath = path && f.ruleId ≠ Skipped.ruleId

theorem Skipped.toFinding_ruleId (k : Skipped) : k.toFinding.ruleId = Skipped.ruleId := by
  obtain ⟨p, reason⟩ := k
  cases reason <;> rfl

theorem FixResult.ruleId_of_mem_skippedFindings {r : FixResult} {f : Finding}
    (h : f ∈ r.skippedFindings) : f.ruleId = Skipped.ruleId := by
  obtain ⟨k, -, rfl⟩ := List.mem_map.mp h
  exact k.toFinding_ruleId

theorem builtinKinds_ne_skipped : ∀ kind ∈ builtinKinds, kind.metadata.id ≠ Skipped.ruleId := by
  decide

namespace Engine

variable {e : Engine} {tree : FileTree} {path : Text} {outcome : FileOutcome} {r : FixResult}
  {checked : Checked} {bytes : List UInt8}

/-- What is found in a text is in report order. -/
theorem checkText_sorted {text : Text} (h : e.checkText text path = .ok checked) :
    Finding.sort checked.findings = checked.findings := by
  obtain ⟨context, -, hfound⟩ := checkText_spec h
  refine Finding.sort_eq_of_pairwise ?_
  rw [hfound, List.pairwise_filterMap]
  refine (Finding.sort_pairwise _).imp fun {f g} hle f' hf' g' hg' => ?_
  rcases (screened_spec hf').2 with rfl | rfl <;> rcases (screened_spec hg').2 with rfl | rfl <;>
    exact hle

/-- What an outcome has to say about a file, without the fixes that were skipped: if the outcome is
that of the file, what a check of its text finds, and nothing if it is that of another one. -/
theorem Accounts.remaining (h : e.Accounts tree path outcome r checked bytes)
    (hkinds : ∀ rule ∈ e.rules, rule.kind ∈ builtinKinds) (other : Text) :
    (outcome.findings.filter fun f => f.filePath = other && f.ruleId ≠ Skipped.ruleId) =
      if path = other then checked.findings else [] := by
  have habout := checkText_about h.checked
  have hskipped : (r.skippedFindings.filter
      fun f => f.filePath = other && f.ruleId ≠ Skipped.ruleId) = [] :=
    List.filter_eq_nil_iff.mpr fun f hf => by
      simp [FixResult.ruleId_of_mem_skippedFindings hf]
  rw [h.findings, List.filter_append, hskipped, List.append_nil]
  split_ifs with hpath
  · refine List.filter_eq_self.mpr fun f hf => ?_
    obtain ⟨hfile, rule, hrule, hid⟩ := habout f hf
    have hne : f.ruleId ≠ Skipped.ruleId := hid ▸ builtinKinds_ne_skipped _ (hkinds rule hrule)
    simp [hfile, hpath, hne]
  · refine List.filter_eq_nil_iff.mpr fun f hf => ?_
    simp [(habout f hf).1, hpath]

/-- What a run over files has to say about one of them is what a check of its text finds. -/
theorem Accounts.sort_remaining {finished : List (Text × FileOutcome)}
    (hkinds : ∀ rule ∈ e.rules, rule.kind ∈ builtinKinds)
    (hnodup : (finished.map Prod.fst).Nodup)
    (hall : ∀ x ∈ finished, ∃ r checked bytes, e.Accounts tree x.1 x.2 r checked bytes)
    (hmem : (path, outcome) ∈ finished) (h : e.Accounts tree path outcome r checked bytes) :
    ((Finding.sort (finished.flatMap (·.2.findings))).filter
      fun f => f.filePath = path && f.ruleId ≠ Skipped.ruleId) = checked.findings := by
  rw [Finding.filter_sort, List.filter_flatMap, flatMap_eq_of_key hnodup hmem fun x hx hne => ?_]
  · rw [h.remaining hkinds, if_pos rfl, checkText_sorted h.checked]
  · obtain ⟨_, _, _, hother⟩ := hall x hx
    rw [hother.remaining hkinds, if_neg hne]

end Engine

namespace Session

variable {s : Session} {tree : FileTree} {target : Text} {fixed : Fixed}

/-- What a fixing run is made of. -/
theorem fix_finished (hkinds : ∀ rule ∈ s.engine.rules, rule.kind ∈ builtinKinds)
    (hdry : s.engine.config.dryRun.isTrue = false) (hwell : tree.root.wellNamed)
    (h : s.fix tree target = .ok fixed) :
    fixed.tree.root.wellNamed ∧
    ∃ finished : List (Text × FileOutcome), (finished.map Prod.fst).Nodup ∧
      (∀ x ∈ finished, ∃ r checked bytes,
        s.engine.Accounts fixed.tree x.1 x.2 r checked bytes) ∧
      (∀ x ∈ finished, x.2.errors ⊆ fixed.report.errors) ∧
      fixed.report.findings = Finding.sort (finished.flatMap (·.2.findings)) ∧
      fixed.report.filesChecked = finished.length ∧
      fixed.results = finished.flatMap (·.2.fix.toList) := by
  obtain ⟨⟨files, missing⟩, hfiles, h⟩ := bind_eq_ok.mp h
  obtain ⟨_, -, h⟩ := bind_eq_ok.mp h
  cases h
  have hbefore : files.Pairwise (Before tree.home) := by
    unfold filesOf at hfiles
    split_ifs at hfiles
    · obtain ⟨found, hfound, hfiles⟩ := bind_eq_ok.mp hfiles
      cases hfiles
      exact discover_before hwell hfound
    · cases hfiles
      exact .nil
  have hnodup : files.Nodup := hbefore.imp fun {f g} h => fun heq => h.1 (heq ▸ rfl)
  have hkeys := Batch.ofChanges_files s.engine.fixFile tree files
  obtain ⟨hnamed, -, hrun⟩ := Engine.ofChanges_accounts hkinds hdry tree hbefore
  rw [← hkeys] at hnodup
  have hdone := Batch.done_eq_finished hnodup
  rw [hkeys] at hdone
  have hcollect := Batch.collect_spec files (Batch.ofChanges s.engine.fixFile tree files).1
  rw [hdone, List.flatMap_map, List.flatMap_map, List.length_map] at hcollect
  refine ⟨hnamed hwell, _, (Batch.finished_sublist _).nodup hnodup,
    fun x hx => hrun x.1 x.2 (Batch.mem_finished.mp hx), fun x hx message hmessage => ?_,
    congrArg (fun c : Batch.Collected => Finding.sort c.findings) hcollect,
    congrArg (·.filesChecked) hcollect, congrArg (·.fixes) hcollect⟩
  have hmem := Batch.mem_finished.mp hx
  have hfile : x.1 ∈ files := hkeys ▸ List.mem_map_of_mem (f := Prod.fst) hmem
  refine List.mem_append_right _ ?_
  rw [hcollect]
  refine List.mem_flatMap.mpr ⟨x.1, hfile, ?_⟩
  rw [Batch.errorsOf, Batch.lookup_of_mem hnodup hmem]
  exact hmessage

theorem results_filePath {finished : List (Text × FileOutcome)}
    (h : ∀ x ∈ finished, ∃ r, x.2.fix = some r ∧ r.filePath = x.1) :
    (finished.flatMap (·.2.fix.toList)).map FixResult.filePath = finished.map Prod.fst := by
  induction finished with
  | nil => rfl
  | cons x rest ih =>
    obtain ⟨⟨r, hfix, hpath⟩, hrest⟩ := List.forall_mem_cons.mp h
    simp [hfix, hpath, ih hrest]

/-- The report on a fixing run is about the fixed texts. For each file that was processed it holds,
beside the fixes that were skipped, just what a check finds in the fixed text. Where that text was
written, or is the text from before, the file holds it, and a check of the file finds the same; only
a terminator with stray bytes can make a text that is not read as it was written. Where writing was
refused, the file still holds the text from before, which is another one, and the error is in the
report. -/
theorem fix_on_disk {config : Config} (hengine : Engine.create config = .ok s.engine)
    (hdry : config.dryRun.isTrue = false) (hwell : tree.root.wellNamed)
    (h : s.fix tree target = .ok fixed) :
    fixed.tree.root.wellNamed ∧
    fixed.report.filesChecked = fixed.results.length ∧
    fixed.results.Pairwise (fun r r' => r.filePath ≠ r'.filePath) ∧
    (∀ f ∈ fixed.report.findings,
      f.ruleId = Skipped.ruleId ∨ ∃ r ∈ fixed.results, f.filePath = r.filePath) ∧
    ∀ r ∈ fixed.results,
      let remaining := fixed.report.remaining r.filePath
      ∃ bytes errors, fixed.tree.read r.filePath = .ok bytes ∧
        s.engine.checkText r.text r.filePath = .ok ⟨remaining, errors⟩ ∧
        (r.errorMessage = none → bytes = Text.encode r.text ∧
          ((r.changed = false ∨ ∀ x ∈ Context.endingOf config.terminator, x.isCharacter) →
            s.engine.checkFile fixed.tree r.filePath = .ok { findings := remaining, errors })) ∧
        ∀ message, r.errorMessage = some message →
          message ∈ fixed.report.errors ∧ r.written = false ∧
          Text.decode bytes = r.source ∧ r.text ≠ r.source := by
  obtain ⟨hconfig, hkinds⟩ := Engine.create_kinds hengine
  obtain ⟨hnamed, finished, hnodup, haccounts, herrors, hfindings, hchecked, hresults⟩ :=
    fix_finished hkinds (hconfig ▸ hdry) hwell h
  have hpaths : fixed.results.map FixResult.filePath = finished.map Prod.fst := by
    rw [hresults]
    refine results_filePath fun x hx => ?_
    obtain ⟨r, _, _, haccount⟩ := haccounts x hx
    exact ⟨r, haccount.fix, haccount.filePath⟩
  refine ⟨hnamed, ?_, ?_, fun f hf => ?_, fun r hr => ?_⟩
  · rw [hchecked, ← List.length_map Prod.fst, ← hpaths, List.length_map]
  · rw [← List.pairwise_map, hpaths]
    exact hnodup
  · rw [hfindings, Finding.mem_sort] at hf
    obtain ⟨x, hx, hf⟩ := List.mem_flatMap.mp hf
    obtain ⟨r, checked, bytes, haccount⟩ := haccounts x hx
    rw [haccount.findings] at hf
    rcases List.mem_append.mp hf with hf | hf
    · refine .inr ⟨r, ?_, ?_⟩
      · rw [hresults]
        exact List.mem_flatMap.mpr ⟨x, hx, by rw [haccount.fix]; exact List.mem_singleton.mpr rfl⟩
      · exact (Engine.checkText_about haccount.checked f hf).1.trans haccount.filePath.symm
    · exact .inl (FixResult.ruleId_of_mem_skippedFindings hf)
  · rw [hresults] at hr
    obtain ⟨⟨path, outcome⟩, hx, hr⟩ := List.mem_flatMap.mp hr
    obtain ⟨r', checked, bytes, haccount⟩ :
      ∃ r checked bytes, s.engine.Accounts fixed.tree path outcome r checked bytes :=
        haccounts _ hx
    obtain rfl : r = r' := by simpa [haccount.fix] using hr
    obtain rfl := haccount.filePath
    have hremaining : fixed.report.remaining r.filePath = checked.findings := by
      rw [Report.remaining, hfindings]
      exact haccount.sort_remaining hkinds hnodup haccounts hx
    intro remaining
    have hsame : checked = ⟨remaining, checked.errors⟩ :=
      congrArg (fun fs => Engine.Checked.mk fs checked.errors) hremaining.symm
    refine ⟨bytes, checked.errors, haccount.read, hsame ▸ haccount.checked, fun hnone => ?_,
      fun message hsome => ?_⟩
    · refine ⟨haccount.held.written hnone, fun hend => ?_⟩
      rw [haccount.checkFile hnone (hconfig ▸ hend), ← hremaining]
    · obtain ⟨hunwritten, hchanged, hsource⟩ := haccount.held.refused message hsome
      exact ⟨herrors _ hx (haccount.errors message hsome), hunwritten, hsource,
        by simpa [FixResult.changed] using hchanged⟩

/-- A file without a terminator, with a directory where its copy would be. -/
def blocked : FileTree :=
  (({} : FileTree).put "a.swift" (Text.encode "x")).put "a.swift.bak/k" []

/-- A run under the default configuration on a file that cannot be copied. -/
theorem fix_on_disk_blocked : blocked.root.wellNamed ∧
    ∃ engine fixed r errors, Engine.create {} = .ok engine ∧
      ({ engine } : Session).fix blocked "a.swift" = .ok fixed ∧ fixed.results = [r] ∧
      fixed.tree.read "a.swift" = .ok (Text.encode "x") ∧
      engine.checkText r.text "a.swift" = .ok ⟨fixed.report.remaining "a.swift", errors⟩ := by
  have hwell : blocked.root.wellNamed := by decide +kernel
  have hcontent : Engine.contentOf blocked "a.swift" = .ok "x" :=
    congrArg Except.ok (show Text.decode (Text.encode "x") = "x" by decide +kernel)
  have hcopy (bytes : List UInt8) : blocked.write ("a.swift" ++ copySuffix) bytes =
      .error (.isDirectory "a.swift.bak") := rfl
  obtain ⟨engine, hengine, hdefault⟩ := Engine.create_default
  obtain ⟨outcome, r, hfile, hfix, hpath⟩ :=
    hdefault.fixFile_of_noCopy (by decide +kernel) (by decide +kernel) hcontent hcopy rfl
  have hfiles : ({ engine } : Session).filesOf blocked "a.swift" = .ok (["a.swift"], []) := by
    rw [filesOf, hdefault.config]
    rfl
  have hrun : ∃ fixed, ({ engine } : Session).fix blocked "a.swift" = .ok fixed ∧
      fixed.results = [r] ∧ fixed.tree = blocked := by
    unfold fix
    simp only [hfiles, Batch.ofChanges, hfile, bind, Except.bind]
    refine ⟨_, rfl, ?_, rfl⟩
    rw [Batch.collect_spec]
    simp [Batch.done, hfix, Except.toOption]
  obtain ⟨fixed, hrun, hresults, htree⟩ := hrun
  obtain ⟨-, -, -, -, hall⟩ := fix_on_disk hengine rfl hwell hrun
  obtain ⟨bytes, errors, -, hchecked, -⟩ := hall r (by simp [hresults])
  rw [hpath] at hchecked
  exact ⟨hwell, engine, fixed, r, errors, hengine, hrun, hresults, htree ▸ rfl, hchecked⟩

end Session

end HouseStyle
