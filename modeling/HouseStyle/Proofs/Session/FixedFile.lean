import HouseStyle.Proofs.Edit.Written
import HouseStyle.Proofs.Engine.CodeKept
import HouseStyle.Proofs.Engine.Nesting
import HouseStyle.Proofs.Rule.Apart
import HouseStyle.Session

/-! Fixing a file. What comes of it accounts for what the file holds then: what is reported is what a
check finds in the fixed text, which the file holds unless writing was refused. Under any configuration
whose terminator holds no stray bytes, a fixed text is read again as it is once it is written. -/

namespace HouseStyle

open Rule Discovery

/-! ### Fixed texts that read back as themselves -/

/-- Only texts are put in. -/
theorem texts_of_checkReplacements {vs : List Value} (h : checkReplacements vs = .ok ()) :
    ∀ v ∈ vs, ∃ t, v = .text t := by
  intro v hv
  unfold checkReplacements at h
  split at h
  · cases h
  · cases h
  · next htexts =>
    have := List.findIdx?_eq_none_iff.mp htexts v hv
    unfold Value.isText at this
    split at this
    · exact ⟨_, rfl⟩
    · cases this

namespace Engine

variable {config : Config} {e : Engine} {text filePath : Text} {result : FixResult}
  {checked : Checked}

/-- The rules of an engine are of the kinds that come with the checker. -/
theorem create_kinds (h : create config = .ok e) :
    e.config = config ∧ ∀ rule ∈ e.rules, rule.kind ∈ builtinKinds := by
  obtain ⟨hconfig, preset, made, hmade, hrules⟩ := create_spec h
  refine ⟨hconfig, fun rule hrule => ?_⟩
  rw [hrules] at hrule
  obtain ⟨m, hm, hrule⟩ := List.mem_filterMap.mp hrule
  obtain ⟨kind, hmem, hconfigured⟩ := mem_of_mapM hmade hm
  obtain ⟨⟨rule', autofix⟩, hmade, rfl⟩ := Option.map_eq_some_iff.mp hrule
  obtain ⟨settings, severity, -, rfl⟩ := configured_spec hconfigured hmade
  exact Registry.builtin_kinds_perm.mem_iff.mp hmem

/-- A fixed text reads back as itself if the text before does. -/
theorem isDecoded_of_fixFound (hkinds : ∀ rule ∈ e.rules, rule.kind ∈ builtinKinds)
    (hend : ∀ x ∈ Context.endingOf e.config.terminator, x.isCharacter) (htext : text.IsDecoded)
    (hchecked : e.checkText text filePath = .ok checked)
    (h : e.fixFound text filePath checked = .ok result) : result.text.IsDecoded := by
  obtain ⟨_, hreplacements, h⟩ := bind_eq_ok.mp h
  cases h
  have htexts := texts_of_checkReplacements hreplacements
  obtain ⟨context, hcontext, hfound⟩ := checkText_spec hchecked
  obtain ⟨contextLines, rfl⟩ := contextOf_spec hcontext
  have hcontent : (Context.ofTokens (tokenize text) filePath e.config.lookahead
      e.config.terminator contextLines).content = text := sourceText_tokenize text
  refine isDecoded_splice (accepted_ascending text _) htext fun p hp => ?_
  obtain ⟨edit, hedit, rfl⟩ := mem_applied text _ (List.mem_reverse.mp hp)
  obtain ⟨f, hf, hfix⟩ := exists_of_mem_applied hedit
  have hmem := (List.mem_filter.mp hf).1
  rw [hfound] at hmem
  obtain ⟨g, hg, hscreened⟩ := List.mem_filterMap.mp hmem
  obtain ⟨rule, hrule, rs, hrs, r, hr, hremark⟩ := exists_remark_of_mem_runAll hg
  exact apart_of_mem_remarks hcontent rfl hend htext (hkinds rule hrule) hrs hr
    (hremark.trans ((screened_fix hscreened).symm.trans hfix)) (htexts _ (List.mem_map_of_mem hedit))

end Engine

/-! ### What a fixed file holds -/

namespace Engine

/-- The outcome of a fixed file accounts for what a tree holds at its path. -/
structure Accounts (e : Engine) (tree : FileTree) (path : Text) (outcome : FileOutcome)
    (r : FixResult) (checked : Checked) (bytes : List UInt8) : Prop where
  fix : outcome.fix = some r
  filePath : r.filePath = path
  findings : outcome.findings = checked.findings ++ r.skippedFindings
  errors : ∀ message, r.errorMessage = some message → message ∈ outcome.errors
  checked : e.checkText r.text path = .ok checked
  read : tree.read path = .ok bytes
  held : r.Held bytes
  decoded : (r.changed = false ∨ ∀ x ∈ Context.endingOf e.config.terminator, x.isCharacter) →
    r.text.IsDecoded

variable {e : Engine} {tree tree' : FileTree} {path other : Text} {bytes : List UInt8}
  {checked : Checked} {r : FixResult} {outcome : FileOutcome}

/-- A file that holds the fixed text is checked as that text was. -/
theorem Accounts.checkFile (h : e.Accounts tree path outcome r checked bytes)
    (hnone : r.errorMessage = none)
    (hend : r.changed = false ∨ ∀ x ∈ Context.endingOf e.config.terminator, x.isCharacter) :
    e.checkFile tree path = .ok { findings := checked.findings, errors := checked.errors } := by
  have hcontent : contentOf tree path = .ok r.text := by
    rw [contentOf, h.read, h.held.written hnone]
    exact congrArg Except.ok (h.decoded hend).decode_encode
  rw [Engine.checkFile, hcontent]
  exact congrArg (Except.map fun c : Checked => _) h.checked

theorem fixFound_fresh {text : Text} (h : e.fixFound text path checked = .ok r) :
    r.Fresh path text := by
  obtain ⟨_, -, h⟩ := bind_eq_ok.mp h
  cases h
  exact ⟨rfl, rfl, rfl, rfl⟩

/-- What fixing a file does: nothing if it fails before the fixed text is written. -/
theorem fixFile_cases (hdry : e.config.dryRun.isTrue = false) (tree : FileTree) (path : Text) :
    ((e.fixFile tree path).2 = tree ∧ ∃ fault, (e.fixFile tree path).1 = .error fault) ∨
    ∃ bytes checked r written, tree.read path = .ok bytes ∧
      e.checkText (Text.decode bytes) path = .ok checked ∧
      e.fixFound (Text.decode bytes) path checked = .ok r ∧
      r.Wrote e.config.backup.isTrue tree written (e.fixFile tree path).2 ∧
      (e.fixFile tree path).1 = written.bind (e.outcomeOfFix path checked) := by
  unfold fixFile
  split
  · exact .inl ⟨rfl, _, rfl⟩
  · next r checked hfixed =>
    obtain ⟨text, htext, hfixed⟩ := bind_eq_ok.mp hfixed
    obtain ⟨checked, hchecked, hfixed⟩ := bind_eq_ok.mp hfixed
    obtain ⟨r, hr, hpair⟩ := bind_eq_ok.mp hfixed
    cases hpair
    unfold contentOf at htext
    split at htext
    · next bytes hread =>
      cases htext
      refine .inr ⟨bytes, checked, r, _, hread, hchecked, hr, ?_, rfl⟩
      rw [hdry]
      exact r.wrote _ _
    · cases htext

/-- Other files are read as before, and the tree stays well-named. -/
theorem read_fixFile (hdry : e.config.dryRun.isTrue = false) (tree : FileTree) (other : Text) :
    (e.fixFile tree other).2.home = tree.home ∧
    (tree.root.wellNamed → (e.fixFile tree other).2.root.wellNamed) ∧
    ∀ path bytes, tree.read path = .ok bytes → Before tree.home path other →
      (e.fixFile tree other).2.read path = .ok bytes := by
  rcases fixFile_cases hdry tree other with ⟨hsame, -⟩ | ⟨_, _, r, _, -, -, hr, hwrote, -⟩
  · rw [hsame]
    exact ⟨rfl, id, fun path bytes hread _ => hread⟩
  · obtain rfl := (fixFound_fresh hr).filePath
    exact ⟨hwrote.home, hwrote.wellNamed,
      fun path bytes hread hbefore => hwrote.read_of_before hread hbefore⟩

/-- What is found in a fixed text is what a check of it finds. -/
theorem outcomeOfFix_checked (hchecked : e.checkText r.source path = .ok checked)
    (h : e.outcomeOfFix path checked r = .ok outcome) :
    outcome.fix = some r ∧
    (∀ message, r.errorMessage = some message → message ≠ [] → message ∈ outcome.errors) ∧
    ∃ left, e.checkText r.text path = .ok left ∧
      outcome.findings = left.findings ++ r.skippedFindings := by
  have hmessage (errors more : List Text) (message : Text) (hsome : r.errorMessage = some message)
      (hne : message ≠ []) :
      message ∈ errors ++ (r.errorMessage.toList.filter fun m => !m.isEmpty) ++ more := by
    rw [hsome]
    simp [hne]
  unfold outcomeOfFix at h
  dsimp only at h
  split_ifs at h with hchanged
  · obtain ⟨left, hleft, h⟩ := bind_eq_ok.mp h
    cases h
    exact ⟨rfl, hmessage _ _, left, hleft, rfl⟩
  · cases h
    have htext : r.text = r.source := by simpa [FixResult.changed] using hchanged
    exact ⟨rfl, hmessage _ _, checked, htext ▸ hchecked, rfl⟩

/-- A file that was fixed is accounted for. -/
theorem fixFile_accounts (hkinds : ∀ rule ∈ e.rules, rule.kind ∈ builtinKinds)
    (hdry : e.config.dryRun.isTrue = false) (h : (e.fixFile tree path).1 = .ok outcome) :
    ∃ r checked bytes, e.Accounts (e.fixFile tree path).2 path outcome r checked bytes := by
  rcases fixFile_cases hdry tree path with
    ⟨-, fault, hfault⟩ | ⟨bytes, checked, r, written, hread, hchecked, hr, hwrote, houtcome⟩
  · rw [hfault] at h
    cases h
  · have hfresh := fixFound_fresh hr
    rw [houtcome] at h
    obtain ⟨r', rfl, h⟩ := bind_eq_ok.mp h
    have hbytes : bytes ≠ [] := by
      rintro rfl
      rw [show Text.decode [] = [] by rw [Text.decode]] at hchecked
      cases hchecked
    obtain ⟨⟨message, written, rfl, hmessage⟩, bytes', hread', hheld⟩ :=
      hwrote.held hfresh hread hbytes
    obtain ⟨hfix, herrors, left, hleft, hfindings⟩ :=
      outcomeOfFix_checked (r := { r with errorMessage := message, written })
        (hfresh.source ▸ hchecked) h
    have hdecoded (hend : r.changed = false ∨
        ∀ x ∈ Context.endingOf e.config.terminator, x.isCharacter) : r.text.IsDecoded := by
      rcases hend with hsame | hend
      · have htext : r.text = r.source := by simpa [FixResult.changed] using hsame
        rw [htext, hfresh.source]
        exact Text.isDecoded_decode bytes
      · exact isDecoded_of_fixFound hkinds hend (Text.isDecoded_decode bytes) hchecked hr
    refine ⟨_, left, bytes', hfix, hfresh.filePath, hfindings, fun m hm => herrors m hm ?_, hleft,
      hread', hheld, hdecoded⟩
    rintro rfl
    exact hmessage hm

end Engine

/-! ### Files without a copy -/

namespace Engine.IsDefault

variable {engine : Engine} (h : engine.IsDefault)
include h

theorem outcomeOfFix {r : FixResult} (hne : r.text ≠ []) (path : Text) (checked : Checked) :
    ∃ outcome, engine.outcomeOfFix path checked r = .ok outcome ∧ outcome.fix = some r := by
  unfold Engine.outcomeOfFix
  dsimp only
  split_ifs
  · obtain ⟨left, hleft, -⟩ := h.checkText hne path
    rw [hleft]
    exact ⟨_, rfl, rfl⟩
  · exact ⟨_, rfl, rfl⟩

/-- A file whose copy cannot be written is left as it is, and processed all the same. -/
theorem fixFile_of_noCopy {text path : Text} {tree : FileTree} {e : FileError}
    (hplain : ∀ t ∈ tokenize text, t.isLineComment = false ∧ t.text ≠ [.char '/'] ∧
      t.isGrave = false)
    (hcode : code text ≠ []) (hcontent : Engine.contentOf tree path = .ok text)
    (hcopy : ∀ bytes, tree.write (path ++ copySuffix) bytes = .error e) (he : e.isRefusal) :
    ∃ outcome r, engine.fixFile tree path = (.ok outcome, tree) ∧ outcome.fix = some r ∧
      r.filePath = path := by
  have hne : text ≠ [] := by
    rintro rfl
    exact hcode (by decide +kernel)
  obtain ⟨result, checked, hresult, htext, -, hbuiltin⟩ := h.fixContent hne path
  obtain ⟨checked', -, hpair⟩ := bind_eq_ok.mp hresult
  obtain ⟨result', hfound, hpair⟩ := bind_eq_ok.mp hpair
  cases hpair
  have hpath := (Engine.fixFound_fresh hfound).filePath
  have hne' : result.text ≠ [] := by
    intro hnil
    have hkept := code_applyFixes hbuiltin fun e _ => Fix.spares_of_plain hplain e.proposal.fix
    rw [← htext, hnil] at hkept
    exact hcode (hkept.symm.trans (by decide +kernel))
  have hdry : engine.config.dryRun.isTrue = false := by
    rw [h.config]
    rfl
  have hbackup : engine.config.backup.isTrue = true := by
    rw [h.config]
    rfl
  have hwrite : ∃ message, result.write false true tree =
      (.ok { result with errorMessage := message }, tree) := by
    by_cases hchanged : result.changed
    · refine ⟨some ("Error modifying file: " ++ e.message), ?_⟩
      have hrefused : result.writeBackup true tree = .error e := by
        rw [FixResult.writeBackup, if_pos rfl, FixResult.backupPath, hpath]
        exact hcopy _
      rw [FixResult.write, if_neg (by simp [hchanged]), hrefused]
      simp only [FixResult.failed, he, if_true]
    · refine ⟨result.errorMessage, ?_⟩
      rw [FixResult.write, if_pos (by simp [hchanged])]
  obtain ⟨message, hwrite⟩ := hwrite
  obtain ⟨outcome, houtcome, hfix⟩ :=
    h.outcomeOfFix (r := { result with errorMessage := message }) hne' path checked
  refine ⟨outcome, _, ?_, hfix, hpath⟩
  unfold Engine.fixFile
  simp only [hcontent, hresult, bind, Except.bind, hdry, hbackup, hwrite, houtcome]

end Engine.IsDefault

end HouseStyle
