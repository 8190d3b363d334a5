import HouseStyle.Proofs.Session.FixedFile

/-! What becomes of the bytes of a file. Under the default configuration no byte is lost on the way
through a fix. The fixed text has bytes, and they are read as that text again. Once it is written, the
file holds those bytes, the text that was analysed anew is the one that is read from it, and the copy
holds the bytes of the file as it was. -/

namespace HouseStyle

open Discovery

/-! ### Bytes of a text -/

namespace Text

/-- A text that was read from bytes holds no half of a character. -/
theorem IsDecoded.isHalf_eq_false {t : Text} (h : t.IsDecoded) : ∀ s ∈ t, s.isHalf = false := by
  induction t with
  | nil => simp
  | cons s t ih =>
    have hrest := IsDecoded.of_append_right (s := [s]) h
    intro x hx
    rcases List.mem_cons.mp hx with rfl | hx
    · cases x with
      | char c => rfl
      | stray low => rfl
      | half n => exact absurd h (by simp [IsDecoded])
    · exact ih hrest x hx

/-- A text that was read from bytes has bytes. -/
theorem IsDecoded.encodeWhole {t : Text} (h : t.IsDecoded) : t.encodeWhole = .ok (encode t) := by
  have hwhole : (t.takeWhile fun s => !s.isHalf) = t :=
    List.takeWhile_eq_self_iff.mpr fun s hs => by simp [h.isHalf_eq_false s hs]
  rw [Text.encodeWhole, Unwritable.first?, hwhole, List.drop_length]

end Text

/-! ### Successful writes -/

namespace FixResult

variable {r r' : FixResult} {dryRun backup : Bool} {tree kept tree' : FileTree} {bytes : List UInt8}

/-- A text that was written was changed, and its copy was written before it. -/
theorem write_written (h : r.write dryRun backup tree = (.ok r', tree')) (hfresh : r.written = false)
    (hwritten : r'.written) :
    r.changed ∧ r' = { r with written := true } ∧ ∃ kept,
      r.writeBackup backup tree = .ok kept ∧
        kept.write r.filePath (Text.encode r.text) = .ok tree' := by
  have hfailed {e : FileError} (hr : r.failed e = .ok r') : r'.written = r.written := by
    obtain ⟨message, -, rfl⟩ := failed_spec hr
    rfl
  have hchanged : r.changed := by
    by_contra hsame
    rw [write, if_pos (by simp [hsame])] at h
    cases h
    rw [hfresh] at hwritten
    cases hwritten
  refine ⟨hchanged, ?_⟩
  obtain ⟨rfl, hrun⟩ : dryRun = false ∧ r.write false backup tree = (.ok r', tree') := by
    cases dryRun with
    | false => exact ⟨rfl, h⟩
    | true =>
      cases h
      rw [hfresh] at hwritten
      cases hwritten
  have hwrote := r.wrote backup tree
  rw [hrun] at hwrote
  generalize houtcome : Except.ok r' = outcome at hwrote
  cases hwrote with
  | unchanged hsame =>
    rw [hsame] at hchanged
    cases hchanged
  | noCopy _ hcopy =>
    rw [hfailed houtcome.symm, hfresh] at hwritten
    cases hwritten
  | noFile _ hcopy =>
    rw [hfailed houtcome.symm, hfresh] at hwritten
    cases hwritten
  | whole hcopy hwrite =>
    cases houtcome
    exact ⟨rfl, _, hcopy, hwrite⟩
  | halved hcopy hwrite => cases houtcome

/-- A changed text is written if nothing refuses its copy and its bytes. -/
theorem write_of_accepted (hdecoded : r.text.IsDecoded) (hchanged : r.changed)
    (hcopy : r.writeBackup backup tree = .ok kept)
    (hwrite : kept.write r.filePath (Text.encode r.text) = .ok tree') :
    r.write false backup tree = (.ok { r with written := true }, tree') := by
  rw [write, if_neg (by simp [hchanged]), hcopy]
  simp only [hdecoded.encodeWhole, Except.toOption, Option.getD_some, hwrite]

end FixResult

namespace Engine

variable {e : Engine} {tree tree' : FileTree} {path text : Text} {bytes : List UInt8}
  {checked : Checked} {result r : FixResult}

/-- What a file that was fixed and written holds, and its copy, and what is told about it. -/
structure Rewrites (e : Engine) (path : Text) (bytes : List UInt8) (checked : Checked)
    (result : FixResult) (tree tree' : FileTree) : Prop where
  run : e.fixFile tree path =
    (e.outcomeOfFix path checked { result with written := true }, tree')
  analysed : e.outcomeOfFix path checked { result with written := true } =
    (e.checkText result.text path).map fun left => {
      findings := left.findings ++ result.skippedFindings
      errors := checked.errors ++ left.errors
      fix := some { result with written := true } }
  held : tree'.read path = .ok (Text.encode result.text)
  content : contentOf tree' path = .ok result.text
  copied : tree.root.find? (Path.namesFrom tree.home (path ++ copySuffix)) ≠ some .sink →
    tree'.read (path ++ copySuffix) = .ok bytes

/-- A changed text is analysed anew. -/
theorem outcomeOfFix_changed (hchanged : r.changed) (hnone : r.errorMessage = none) :
    e.outcomeOfFix path checked r = (e.checkText r.text path).map fun left => {
      findings := left.findings ++ r.skippedFindings
      errors := checked.errors ++ left.errors
      fix := some r } := by
  unfold outcomeOfFix
  rw [hnone]
  simp only [hchanged, if_true, Option.toList_none, List.filter_nil, List.append_nil]
  cases e.checkText r.text path with
  | error fault => rfl
  | ok left => rfl

/-- A file whose fixed text was written holds it. -/
theorem rewrites_of_written (hbackup : e.config.backup.isTrue) (hbytes : bytes ≠ [])
    (hread : tree.read path = .ok bytes)
    (hfixed : e.fixContent (Text.decode bytes) path = .ok (result, checked))
    (hdecoded : result.text.IsDecoded)
    (hwrite : result.write e.config.dryRun.isTrue e.config.backup.isTrue tree = (.ok r, tree'))
    (hwritten : r.written) :
    r = { result with written := true } ∧ e.Rewrites path bytes checked result tree tree' := by
  obtain ⟨_, -, hpair⟩ := bind_eq_ok.mp hfixed
  obtain ⟨_, hfound, hpair⟩ := bind_eq_ok.mp hpair
  cases hpair
  obtain ⟨rfl, hsource, hnone, hunwritten⟩ := fixFound_fresh hfound
  obtain ⟨hchanged, rfl, kept, hcopy, hplaced⟩ :=
    FixResult.write_written hwrite hunwritten hwritten
  have hcontent : contentOf tree result.filePath = .ok (Text.decode bytes) := by
    rw [contentOf, hread]
  obtain ⟨n, hlocate, -, hn⟩ := FileTree.read_spec hread
  have hapart : Path.namesFrom tree.home result.backupPath ≠
      Path.namesFrom tree.home result.filePath := by
    refine FileTree.namesFrom_append_ne hlocate ?_ (by decide) (by decide)
    rcases hn with rfl | ⟨rfl, -⟩ <;> rfl
  have hheld := FileTree.read_write_self (FixResult.read_writeBackup hcopy hread hapart.symm)
    hbytes hplaced
  have hanalysed := @outcomeOfFix_changed e result.filePath checked { result with written := true }
    hchanged hnone
  refine ⟨rfl, ?_, hanalysed, hheld, ?_, fun hdevice => ?_⟩
  · unfold fixFile
    simp only [hcontent, bind, Except.bind]
    rw [hfixed]
    simp only [hwrite]
  · rw [contentOf, hheld]
    exact congrArg Except.ok hdecoded.decode_encode
  · have hhome := FixResult.writeBackup_home hcopy
    rw [FixResult.writeBackup, if_pos hbackup, hsource, Text.encode_decode] at hcopy
    exact FileTree.read_write_of_ne (FileTree.read_write hdevice hcopy) (by rw [hhome]; exact hapart)
      hplaced

/-! ### Fixes under the default configuration -/

/-- Every byte survives a fix. Any bytes are written back as they were read. Under the default
configuration fixing what was read gives a text that has bytes and is read from them again, and if it
is written, which happens to any changed text unless something is refused, its file holds it and the
copy of the file holds what was read. -/
theorem bytes_survive_fix {bytes : List UInt8} (hbytes : bytes ≠ []) :
    Text.encode (Text.decode bytes) = bytes ∧
    ∃ engine, Engine.create {} = .ok engine ∧ ∀ path, ∃ result checked,
      engine.fixContent (Text.decode bytes) path = .ok (result, checked) ∧
      Text.encodeWhole result.text = .ok (Text.encode result.text) ∧
      Text.decode (Text.encode result.text) = result.text ∧
      ∀ tree, tree.read path = .ok bytes →
        (∀ r tree', result.write engine.config.dryRun.isTrue engine.config.backup.isTrue tree =
            (.ok r, tree') → r.written →
          r = { result with written := true } ∧
            engine.Rewrites path bytes checked result tree tree') ∧
        (∀ kept tree', result.changed → tree.write (path ++ copySuffix) bytes = .ok kept →
          kept.write path (Text.encode result.text) = .ok tree' →
          result.write engine.config.dryRun.isTrue engine.config.backup.isTrue tree =
            (.ok { result with written := true }, tree')) := by
  refine ⟨Text.encode_decode bytes, ?_⟩
  obtain ⟨engine, hengine, hdefault⟩ := create_default
  have hdry : engine.config.dryRun.isTrue = false := by
    rw [hdefault.config]
    rfl
  have hbackup : engine.config.backup.isTrue := by
    rw [hdefault.config]
    rfl
  have hend : ∀ x ∈ Context.endingOf engine.config.terminator, x.isCharacter := by
    rw [hdefault.config]
    decide
  have hne : Text.decode bytes ≠ [] := by
    intro hnil
    have := Text.encode_decode bytes
    rw [hnil] at this
    exact hbytes this.symm
  refine ⟨engine, hengine, fun path => ?_⟩
  obtain ⟨result, checked, hfixed, -⟩ := hdefault.fixContent hne path
  obtain ⟨checked', hchecked, hpair⟩ := bind_eq_ok.mp hfixed
  obtain ⟨result', hfound, hpair⟩ := bind_eq_ok.mp hpair
  cases hpair
  have hdecoded : result.text.IsDecoded :=
    isDecoded_of_fixFound (create_kinds hengine).2 hend (Text.isDecoded_decode bytes) hchecked hfound
  obtain ⟨hpath, hsource, -, -⟩ := fixFound_fresh hfound
  refine ⟨result, checked, hfixed, hdecoded.encodeWhole, hdecoded.decode_encode,
    fun tree hread => ⟨fun r tree' => rewrites_of_written hbackup hbytes hread hfixed hdecoded,
      fun kept tree' hchanged hcopy hwrite => ?_⟩⟩
  rw [hdry]
  refine @FixResult.write_of_accepted _ _ _ kept _ hdecoded hchanged ?_ (hpath ▸ hwrite)
  rw [FixResult.writeBackup, if_pos hbackup, FixResult.backupPath, hpath, hsource,
    Text.encode_decode]
  exact hcopy

/-- A file that ends in the middle of a character. -/
theorem bytes_survive_fix_cut : ([0x78, 0xC3] : List UInt8) ≠ [] ∧
    ∃ engine result checked, Engine.create {} = .ok engine ∧
      engine.fixContent (Text.decode [0x78, 0xC3]) "a.swift" = .ok (result, checked) ∧
      (result.changed → ∃ done, engine.Rewrites "a.swift" [0x78, 0xC3] checked result
        (({} : FileTree).put "a.swift" [0x78, 0xC3]) done ∧
          done.read "a.swift.bak" = .ok [0x78, 0xC3]) := by
  refine ⟨by decide, ?_⟩
  obtain ⟨-, engine, hengine, hall⟩ := @bytes_survive_fix [0x78, 0xC3] (by decide)
  obtain ⟨result, checked, hfixed, -, -, htree⟩ := hall "a.swift"
  refine ⟨engine, result, checked, hengine, hfixed, fun hchanged => ?_⟩
  obtain ⟨hwritten, haccepted⟩ := htree (({} : FileTree).put "a.swift" [0x78, 0xC3]) rfl
  have hrewrites := (hwritten _ _ (haccepted _ _ hchanged rfl rfl) rfl).2
  exact ⟨_, hrewrites, hrewrites.copied fun h => nomatch h⟩

end Engine

end HouseStyle
