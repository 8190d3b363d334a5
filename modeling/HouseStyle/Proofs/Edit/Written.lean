import HouseStyle.Edit.Report
import HouseStyle.Proofs.Files.Discovered
import HouseStyle.Proofs.Text.Utf8

/-! Writing a fixed text. First a copy of the file is written, then the file. Whatever is refused on
the way, every other file is as before, and the result says what the file holds. -/

namespace HouseStyle

open Discovery

namespace FixResult

/-- What becomes of a result that is written, and of the tree. -/
inductive Wrote (r : FixResult) (backup : Bool) (tree : FileTree) : Try FixResult → FileTree → Prop
  | unchanged (h : r.changed = false) : Wrote r backup tree (.ok r) tree
  | noCopy {e : FileError} (h : r.changed) (hcopy : r.writeBackup backup tree = .error e) :
    Wrote r backup tree (r.failed e) tree
  | noFile {e : FileError} {kept : FileTree} {bytes : List UInt8} (h : r.changed)
    (hcopy : r.writeBackup backup tree = .ok kept)
    (hwrite : kept.write r.filePath bytes = .error e) : Wrote r backup tree (r.failed e) kept
  | whole {kept done : FileTree} (hcopy : r.writeBackup backup tree = .ok kept)
    (hwrite : kept.write r.filePath (Text.encode r.text) = .ok done) :
    Wrote r backup tree (.ok { r with written := true }) done
  | halved {kept done : FileTree} {bytes : List UInt8} {what : Unwritable}
    (hcopy : r.writeBackup backup tree = .ok kept)
    (hwrite : kept.write r.filePath bytes = .ok done) :
    Wrote r backup tree (.error (.unwritable what)) done

variable {r r' : FixResult} {backup : Bool} {tree tree' : FileTree} {outcome : Try FixResult}
  {path : Text} {bytes : List UInt8}

/-- There is no other way, unless the run is a dry one. -/
theorem wrote (r : FixResult) (backup : Bool) (tree : FileTree) :
    Wrote r backup tree (r.write false backup tree).1 (r.write false backup tree).2 := by
  unfold write
  by_cases hchanged : r.changed
  · rw [if_neg (by simp [hchanged])]
    cases hcopy : r.writeBackup backup tree with
    | error e => exact .noCopy hchanged hcopy
    | ok kept =>
      dsimp only
      cases hwrite : kept.write r.filePath ((Text.encodeWhole r.text).toOption.getD []) with
      | error e => exact .noFile hchanged hcopy hwrite
      | ok done =>
        cases hencoded : Text.encodeWhole r.text with
        | error what => exact .halved hcopy hwrite
        | ok encoded =>
          have hbytes : encoded = Text.encode r.text := by
            unfold Text.encodeWhole at hencoded
            split at hencoded <;> cases hencoded
            rfl
          rw [hencoded, hbytes] at hwrite
          exact .whole hcopy hwrite
  · rw [if_pos (by simp [hchanged])]
    exact .unchanged (by simpa using hchanged)

theorem writeBackup_home (h : r.writeBackup backup tree = .ok tree') : tree'.home = tree.home := by
  unfold writeBackup at h
  split_ifs at h
  · exact (FileTree.write_spec h).1
  · cases h
    rfl

theorem read_writeBackup (h : r.writeBackup backup tree = .ok tree')
    (hread : tree.read path = .ok bytes)
    (hne : Path.namesFrom tree.home path ≠ Path.namesFrom tree.home r.backupPath) :
    tree'.read path = .ok bytes := by
  unfold writeBackup at h
  split_ifs at h
  · exact FileTree.read_write_of_ne hread hne h
  · cases h
    exact hread

theorem Wrote.home (h : Wrote r backup tree outcome tree') : tree'.home = tree.home := by
  cases h with
  | unchanged => rfl
  | noCopy => rfl
  | noFile _ hcopy => exact writeBackup_home hcopy
  | whole hcopy hwrite => exact (FileTree.write_spec hwrite).1.trans (writeBackup_home hcopy)
  | halved hcopy hwrite => exact (FileTree.write_spec hwrite).1.trans (writeBackup_home hcopy)

theorem Wrote.wellNamed (h : Wrote r backup tree outcome tree') (hwell : tree.root.wellNamed) :
    tree'.root.wellNamed := by
  have hkept {kept : FileTree} (hcopy : r.writeBackup backup tree = .ok kept) :
      kept.root.wellNamed := by
    unfold writeBackup at hcopy
    split_ifs at hcopy
    · exact FileTree.wellNamed_write hwell hcopy
    · cases hcopy
      exact hwell
  cases h with
  | unchanged => exact hwell
  | noCopy => exact hwell
  | noFile _ hcopy => exact hkept hcopy
  | whole hcopy hwrite => exact FileTree.wellNamed_write (hkept hcopy) hwrite
  | halved hcopy hwrite => exact FileTree.wellNamed_write (hkept hcopy) hwrite

/-- A file that is neither the written one nor its copy is read as before. -/
theorem Wrote.read_of_before (h : Wrote r backup tree outcome tree')
    (hread : tree.read path = .ok bytes) (hbefore : Before tree.home path r.filePath) :
    tree'.read path = .ok bytes := by
  have hafter {kept done : FileTree} {written : List UInt8}
      (hcopy : r.writeBackup backup tree = .ok kept)
      (hwrite : kept.write r.filePath written = .ok done) : done.read path = .ok bytes :=
    FileTree.read_write_of_ne (read_writeBackup hcopy hread hbefore.2)
      (by rw [writeBackup_home hcopy]; exact hbefore.1) hwrite
  cases h with
  | unchanged => exact hread
  | noCopy => exact hread
  | noFile _ hcopy => exact read_writeBackup hcopy hread hbefore.2
  | whole hcopy hwrite => exact hafter hcopy hwrite
  | halved hcopy hwrite => exact hafter hcopy hwrite

/-- A result for a file that is not written yet. -/
structure Fresh (r : FixResult) (path text : Text) : Prop where
  filePath : r.filePath = path
  source : r.source = text
  errorMessage : r.errorMessage = none
  written : r.written = false

/-- What the file of a result holds: the text, or what it held before if writing was refused. -/
structure Held (r : FixResult) (bytes : List UInt8) : Prop where
  written : r.errorMessage = none → bytes = Text.encode r.text
  refused : ∀ message, r.errorMessage = some message →
    r.written = false ∧ r.changed ∧ Text.decode bytes = r.source

theorem failed_spec {e : FileError} (h : r.failed e = .ok r') :
    ∃ message, message ≠ [] ∧ r' = { r with errorMessage := some message } := by
  unfold failed at h
  split_ifs at h
  cases h
  exact ⟨_, List.cons_ne_nil _ _, rfl⟩

/-- After a fresh result was written, the file holds what the result says. -/
theorem Wrote.held (h : Wrote r backup tree (.ok r') tree')
    (hfresh : r.Fresh path (Text.decode bytes)) (hread : tree.read path = .ok bytes)
    (hbytes : bytes ≠ []) :
    (∃ message written, r' = { r with errorMessage := message, written } ∧ message ≠ some []) ∧
      ∃ bytes', tree'.read path = .ok bytes' ∧ r'.Held bytes' := by
  obtain ⟨rfl, hsource, hnone, hunwritten⟩ := hfresh
  obtain ⟨n, hlocate, -, hn⟩ := FileTree.read_spec hread
  have hapart : Path.namesFrom tree.home r.filePath ≠ Path.namesFrom tree.home r.backupPath := by
    refine (FileTree.namesFrom_append_ne hlocate ?_ (by decide) (by decide)).symm
    rcases hn with rfl | ⟨rfl, -⟩ <;> rfl
  have hrefused {e : FileError} (hchanged : r.changed) (hfailed : r.failed e = .ok r') :
      (∃ message written, r' = { r with errorMessage := message, written } ∧ message ≠ some []) ∧
        r'.Held bytes := by
    obtain ⟨message, hne, rfl⟩ := failed_spec hfailed
    exact ⟨⟨some message, r.written, rfl, fun h => hne (Option.some.inj h)⟩,
      { written := fun h => by cases h
        refused := fun _ _ => ⟨hunwritten, hchanged, hsource.symm⟩ }⟩
  generalize houtcome : Except.ok r' = outcome at h
  cases h with
  | unchanged hsame =>
    cases houtcome
    have htext : r.text = r.source := by simpa [changed] using hsame
    refine ⟨⟨none, false, by rw [← hnone, ← hunwritten], by simp⟩, bytes, hread, ?_, ?_⟩
    · exact fun _ => by rw [htext, hsource, Text.encode_decode]
    · exact fun message hmessage => absurd (hnone.symm.trans hmessage) (by simp)
  | noCopy hchanged hcopy =>
    obtain ⟨hsame, hheld⟩ := hrefused hchanged houtcome.symm
    exact ⟨hsame, bytes, hread, hheld⟩
  | noFile hchanged hcopy hwrite =>
    obtain ⟨hsame, hheld⟩ := hrefused hchanged houtcome.symm
    exact ⟨hsame, bytes, read_writeBackup hcopy hread hapart, hheld⟩
  | whole hcopy hwrite =>
    cases houtcome
    refine ⟨⟨none, true, by rw [← hnone], by simp⟩, Text.encode r.text,
      FileTree.read_write_self (read_writeBackup hcopy hread hapart) hbytes hwrite,
      fun _ => rfl, ?_⟩
    exact fun message hmessage => absurd (hnone.symm.trans hmessage) (by simp)
  | halved hcopy hwrite => cases houtcome

end FixResult

end HouseStyle
