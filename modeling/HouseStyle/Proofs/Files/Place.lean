import HouseStyle.Files.Tree
import HouseStyle.Proofs.Engine.Checked
import HouseStyle.Proofs.Files.Path

/-! Places in a tree. A path leads to the place along its names, whatever the tree holds there. What is
written to a path is read from it, and every file at another place is read as before. -/

namespace HouseStyle

/-! ### Nodes -/

namespace FileNode

variable {n m new : FileNode} {p q : List Text}

theorem lookup_cons_eq (k : Text) (n : FileNode) (rest : List (Text × FileNode)) (name : Text) :
    ((k, n) :: rest).lookup name = if name = k then some n else rest.lookup name := by
  rw [List.lookup_cons]
  by_cases h : name = k
  · simp [h]
  · simp [h, beq_false_of_ne h]

theorem lookup_insertEntry (name : Text) (n : FileNode) (entries : List (Text × FileNode))
    (other : Text) :
    (insertEntry name n entries).lookup other =
      if other = name then some n else entries.lookup other := by
  induction entries with
  | nil => rw [insertEntry, lookup_cons_eq]
  | cons entry rest ih =>
    obtain ⟨k, old⟩ := entry
    rw [insertEntry, lookup_cons_eq]
    by_cases hk : k = name
    · rw [if_pos hk, lookup_cons_eq, hk]
      split_ifs <;> rfl
    · rw [if_neg hk, lookup_cons_eq, ih]
      by_cases hother : other = k
      · rw [if_pos hother, if_neg fun h => hk (hother.symm.trans h), if_pos hother]
      · rw [if_neg hother, if_neg hother]

theorem entries_eq_nil (h : n.isDirectory = false) : n.entries = [] := by
  cases n with
  | directory entries => cases h
  | file bytes => rfl
  | sink => rfl

theorem find?_append (n : FileNode) (p q : List Text) :
    n.find? (p ++ q) = (n.find? p).bind fun m => m.find? q := by
  induction p generalizing n with
  | nil => rfl
  | cons name p ih =>
    rw [List.cons_append, find?, find?, Option.bind_assoc]
    exact congrArg _ (funext fun below => ih below)

/-- Nothing is below what is no directory. -/
theorem eq_nil_of_find? (hn : n.isDirectory = false) (h : n.find? p = some m) : p = [] := by
  cases p with
  | nil => rfl
  | cons name p =>
    rw [find?, entries_eq_nil hn] at h
    cases h

/-- What has something below it is a directory. -/
theorem isDirectory_dropLast (hp : p ≠ []) (h : n.find? p = some m) :
    ∃ d, n.find? p.dropLast = some d ∧ d.isDirectory := by
  rw [← List.dropLast_append_getLast hp, find?_append] at h
  obtain ⟨d, hd, hm⟩ := Option.bind_eq_some_iff.mp h
  refine ⟨d, hd, ?_⟩
  by_contra hfile
  exact List.cons_ne_nil _ _ (eq_nil_of_find? (by simpa using hfile) hm)

theorem insert_cons (n new : FileNode) (name : Text) (p : List Text) :
    n.insert new (name :: p) =
      directory (insertEntry name (((n.entries.lookup name).getD (directory [])).insert new p)
        n.entries) := rfl

@[simp] theorem find?_insert_self (n new : FileNode) (p : List Text) :
    (n.insert new p).find? p = some new := by
  induction p generalizing n with
  | nil => rfl
  | cons name p ih =>
    rw [insert_cons, find?, entries, lookup_insertEntry, if_pos rfl]
    exact ih _

/-- What is neither on the way nor below stays as it is. -/
theorem find?_insert_of_apart (hpq : ¬p <+: q) (hqp : ¬q <+: p) :
    (n.insert new p).find? q = n.find? q := by
  induction p generalizing n q with
  | nil => exact absurd List.nil_prefix hpq
  | cons a p ih =>
    cases q with
    | nil => exact absurd List.nil_prefix hqp
    | cons b q =>
      rw [insert_cons, find?, entries, lookup_insertEntry, find?]
      split_ifs with hb
      · subst hb
        rw [List.cons_prefix_cons, not_and] at hpq hqp
        rw [Option.bind_some, ih (hpq rfl) (hqp rfl)]
        cases hlookup : n.entries.lookup b with
        | some below => rfl
        | none =>
          -- Below a directory that is made on the way there is nothing else.
          cases q with
          | nil => exact absurd List.nil_prefix (hqp rfl)
          | cons c q => rfl
      · rfl

/-- A file at another place is still there. -/
theorem find?_insert_of_ne {above : List Text} {name : Text} (hm : m.isDirectory = false)
    (hq : n.find? q = some m)
    (hp : ∀ x, n.find? (above ++ [name]) = some x → x.isDirectory = false)
    (habove : ∃ d, n.find? above = some d ∧ d.isDirectory) (hne : above ++ [name] ≠ q) :
    (n.insert new (above ++ [name])).find? q = some m := by
  rw [find?_insert_of_apart, hq]
  · rintro ⟨more, rfl⟩
    rw [find?_append] at hq
    obtain ⟨x, hx, hmore⟩ := Option.bind_eq_some_iff.mp hq
    exact hne (by rw [eq_nil_of_find? (hp x hx) hmore, List.append_nil])
  · intro hprefix
    obtain ⟨d, hd, hdirectory⟩ := habove
    rcases List.prefix_concat_iff.mp hprefix with heq | ⟨more, rfl⟩
    · exact hne heq.symm
    · rw [find?_append, hq] at hd
      obtain rfl : more = [] := eq_nil_of_find? hm hd
      cases hd
      rw [hm] at hdirectory
      cases hdirectory

/-- A directory is still one after a file was put somewhere. -/
theorem isDirectory_insert (hp : ∀ x, n.find? p = some x → x.isDirectory = false)
    (hq : ∃ d, n.find? q = some d ∧ d.isDirectory) :
    ∃ d, (n.insert new p).find? q = some d ∧ d.isDirectory := by
  obtain ⟨d, hd, hdirectory⟩ := hq
  induction p generalizing n q with
  | nil =>
    have hn := hp n rfl
    obtain rfl := eq_nil_of_find? hn hd
    cases hd
    rw [hn] at hdirectory
    cases hdirectory
  | cons a p ih =>
    cases q with
    | nil => exact ⟨_, rfl, rfl⟩
    | cons b q =>
      rw [insert_cons, find?, entries, lookup_insertEntry]
      rw [find?] at hd
      obtain ⟨below, hbelow, hd⟩ := Option.bind_eq_some_iff.mp hd
      split_ifs with hb
      · subst hb
        rw [hbelow]
        refine ih (fun x hx => hp x ?_) hd
        rw [find?, hbelow]
        exact hx
      · exact ⟨d, by rw [hbelow]; exact hd, hdirectory⟩

end FileNode

namespace FileTree

variable {t t' : FileTree} {path other : Text} {names place : List Text} {parts : List Text}
  {n : FileNode} {bytes : List UInt8}

/-! ### Following a path -/

theorem directoryAt_eq_ok :
    t.directoryAt path names = .ok () ↔ ∃ d, t.root.find? names = some d ∧ d.isDirectory := by
  unfold directoryAt
  cases t.root.find? names with
  | none => simp
  | some d => cases hd : d.isDirectory <;> simp [hd]

theorem follow_cons {part : Text}
    (h : t.follow path names (part :: parts) = .ok (place, n)) :
    (∃ d, t.root.find? names = some d ∧ d.isDirectory) ∧
      if part.isEmpty || part = Path.dot then t.follow path names parts = .ok (place, n)
      else isTooLong longestName part = false ∧
        t.follow path (Path.step names part) parts = .ok (place, n) := by
  rw [follow] at h
  obtain ⟨_, hdirectory, h⟩ := bind_eq_ok.mp h
  refine ⟨directoryAt_eq_ok.mp hdirectory, ?_⟩
  split_ifs at h ⊢ with hpart hlong
  · exact h
  · exact ⟨by simpa using hlong, h⟩

/-- A path leads along its names. -/
theorem follow_spec (h : t.follow path names parts = .ok (place, n)) :
    place = (parts.filter fun p => !(p.isEmpty || p = Path.dot)).foldl Path.step names ∧
      t.root.find? place = some n := by
  induction parts generalizing names with
  | nil =>
    rw [follow] at h
    split at h
    · next hfind =>
      cases h
      exact ⟨rfl, hfind⟩
    · cases h
  | cons part parts ih =>
    have hstep := (follow_cons h).2
    split_ifs at hstep with hpart
    · rw [List.filter_cons_of_neg (by simp [hpart])]
      exact ih hstep
    · rw [List.filter_cons_of_pos (by simp [hpart]), List.foldl_cons]
      exact ih hstep.2

theorem locate_spec (h : t.locate path = .ok (place, n)) :
    place = Path.namesFrom t.home path ∧ t.root.find? place = some n := by
  obtain ⟨_, -, h⟩ := bind_eq_ok.mp h
  exact follow_spec h

/-- A path leads the same way in a tree in which no directory is missing. -/
theorem follow_of_directories
    (hkept : ∀ names, (∃ d, t.root.find? names = some d ∧ d.isDirectory) →
      ∃ d, t'.root.find? names = some d ∧ d.isDirectory)
    (h : t.follow path names parts = .ok (place, n)) {m : FileNode}
    (hm : t'.root.find? place = some m) : t'.follow path names parts = .ok (place, m) := by
  induction parts generalizing names with
  | nil =>
    obtain ⟨rfl, -⟩ := follow_spec h
    rw [follow]
    simp only [hm]
  | cons part parts ih =>
    obtain ⟨hdirectory, hstep⟩ := follow_cons h
    rw [follow, directoryAt_eq_ok.mpr (hkept names hdirectory)]
    simp only [bind, Except.bind]
    split_ifs at hstep ⊢ with hpart hlong
    · exact ih hstep
    · rw [hlong] at hstep
      cases hstep.1
    · exact ih hstep.2

theorem locate_of_directories (hhome : t'.home = t.home)
    (hkept : ∀ names, (∃ d, t.root.find? names = some d ∧ d.isDirectory) →
      ∃ d, t'.root.find? names = some d ∧ d.isDirectory)
    (h : t.locate path = .ok (place, n)) {m : FileNode} (hm : t'.root.find? place = some m) :
    t'.locate path = .ok (place, m) := by
  obtain ⟨_, hcheck, h⟩ := bind_eq_ok.mp h
  unfold locate
  rw [hcheck, start, hhome]
  exact follow_of_directories hkept h hm

/-- A path that goes on is followed from where its first parts lead. -/
theorem follow_append {above : List Text} (h : t.follow path names above = .ok (place, n))
    (parts : List Text) : t.follow path names (above ++ parts) = t.follow path place parts := by
  induction above generalizing names with
  | nil => rw [List.nil_append, (follow_spec h).1, List.filter_nil, List.foldl_nil]
  | cons part above ih =>
    obtain ⟨hdirectory, hstep⟩ := follow_cons h
    rw [List.cons_append, follow, directoryAt_eq_ok.mpr hdirectory]
    simp only [bind, Except.bind]
    split_ifs at hstep ⊢ with hpart hlong
    · exact ih hstep
    · rw [hlong] at hstep
      cases hstep.1
    · exact ih hstep.2

/-- A path that leads to no directory ends with a name. -/
theorem last_of_follow (h : t.follow path names parts = .ok (place, n))
    (hn : n.isDirectory = false) (hnames : ∃ d, t.root.find? names = some d ∧ d.isDirectory)
    (hslash : ∀ part ∈ parts, Path.slash ∉ part) :
    ∃ above name, parts = above ++ [name] ∧ Path.isName name := by
  induction parts generalizing names with
  | nil =>
    obtain ⟨hplace, hfind⟩ := follow_spec h
    obtain ⟨d, hd, hdirectory⟩ := hnames
    rw [hplace, List.filter_nil, List.foldl_nil, hd] at hfind
    cases hfind
    rw [hn] at hdirectory
    cases hdirectory
  | cons part parts ih =>
    have hrest := fun p hp => hslash p (List.mem_cons_of_mem part hp)
    have hstep := (follow_cons h).2
    have hlonger : (∃ above name, parts = above ++ [name] ∧ Path.isName name) →
        ∃ above name, part :: parts = above ++ [name] ∧ Path.isName name := by
      rintro ⟨above, name, rfl, hname⟩
      exact ⟨part :: above, name, rfl, hname⟩
    split_ifs at hstep with hpart
    · exact hlonger (ih hstep hnames hrest)
    · cases parts with
      | cons next parts => exact hlonger (ih hstep.2 (follow_cons hstep.2).1 hrest)
      | nil =>
        by_cases hup : part = Path.dotDot
        · -- Above a directory there is a directory.
          refine hlonger (ih hstep.2 ?_ hrest)
          rw [Path.step, if_pos hup]
          obtain ⟨d, hd, hdirectory⟩ := hnames
          by_cases hnil : names = []
          · exact ⟨d, by rw [hnil, List.dropLast_nil, ← hnil, hd], hdirectory⟩
          · exact FileNode.isDirectory_dropLast hnil hd
        · refine ⟨[], part, rfl, ?_⟩
          have hpart' : (part.isEmpty || part = Path.dot) = false := by simpa using hpart
          have hslash' := hslash part List.mem_cons_self
          simp only [Path.isName, hpart', hup, Bool.not_eq_true',
            decide_false, Bool.or_false, Bool.false_or]
          simpa using hslash'

/-- What is put behind a path to a file leads elsewhere. -/
theorem namesFrom_append_ne (h : t.locate path = .ok (place, n)) (hn : n.isDirectory = false)
    {more : Text} (hslash : Path.slash ∉ more) (hlength : 1 < more.length) :
    Path.namesFrom t.home (path ++ more) ≠ Path.namesFrom t.home path := by
  obtain ⟨_, -, h⟩ := bind_eq_ok.mp h
  have hstart : ∃ d, t.root.find? (t.start path) = some d ∧ d.isDirectory := by
    obtain ⟨part, rest, hparts⟩ :=
      List.exists_cons_of_ne_nil (Text.splitOn_ne_nil Path.slash path)
    rw [Path.parts, hparts] at h
    exact (follow_cons h).1
  obtain ⟨above, name, hparts, hname⟩ :=
    last_of_follow h hn hstart fun part => Text.notMem_of_mem_splitOn
  obtain ⟨names, hnames, hlonger⟩ := Path.namesFrom_append hparts hname hslash hlength
  rw [hnames, hlonger]
  intro heq
  have hsame : name ++ more = name := by simpa using heq
  rw [List.append_right_eq_self] at hsame
  rw [hsame] at hlength
  cases hlength

/-! ### Writing -/

theorem parts_of_splitPath {above : List Text} {name : Text}
    (h : splitPath path = (above, name, false)) :
    Path.parts path = above ++ [name] ∧ name.isEmpty = false := by
  have hne : Path.parts path ≠ [] := Text.splitOn_ne_nil _ _
  obtain ⟨front, last, hparts⟩ := (List.eq_nil_or_concat' (Path.parts path)).resolve_left hne
  simp only [splitPath, hparts, List.reverse_append, List.reverse_singleton,
    List.singleton_append, List.head?_cons, Option.map_some, Option.getD_some] at h
  cases hlast : last.isEmpty with
  | true =>
    rw [hlast] at h
    split at h <;> simp at h
  | false =>
    rw [List.dropWhile_cons_of_neg (by simp [hlast])] at h
    simp only [List.reverse_reverse, Prod.mk.injEq] at h
    obtain ⟨rfl, rfl, -⟩ := h
    exact ⟨hparts, hlast⟩

/-- A file can be written where the last part of its path is a name and the parts before it lead to
a directory. -/
theorem placeToWrite_parts (h : t.placeToWrite path = .ok place) :
    checkPath path = .ok () ∧ ∃ above name names n, Path.parts path = above ++ [name] ∧
      Path.isName name ∧ isTooLong longestName name = false ∧
      t.follow path (t.start path) above = .ok (names, n) ∧
      (∃ d, t.root.find? names = some d ∧ d.isDirectory) ∧ place = names ++ [name] := by
  unfold placeToWrite at h
  obtain ⟨_, hcheck, h⟩ := bind_eq_ok.mp h
  refine ⟨hcheck, ?_⟩
  cases hsplit : splitPath path with
  | mk above rest =>
    obtain ⟨name, slashed⟩ := rest
    rw [hsplit] at h
    obtain ⟨⟨names, n⟩, hfollow, h⟩ := bind_eq_ok.mp h
    obtain ⟨_, hdirectory, h⟩ := bind_eq_ok.mp h
    dsimp only at h
    by_cases hlast : (slashed || name = Path.dot || name = Path.dotDot) = true
    · rw [if_pos hlast] at h
      cases h
    rw [if_neg hlast] at h
    by_cases hlong : isTooLong longestName name
    · rw [if_pos hlong] at h
      cases h
    rw [if_neg hlong] at h
    cases h
    simp only [Bool.or_eq_true, decide_eq_true_eq, not_or, Bool.not_eq_true] at hlast
    obtain ⟨⟨rfl, hdot⟩, hup⟩ := hlast
    obtain ⟨hparts, hempty⟩ := parts_of_splitPath hsplit
    have hslash : Path.slash ∉ name :=
      Text.notMem_of_mem_splitOn (show name ∈ Path.parts path by simp [hparts])
    exact ⟨above, name, names, n, hparts, by simp [Path.isName, hempty, hdot, hup, hslash],
      by simpa using hlong, hfollow, directoryAt_eq_ok.mp hdirectory, rfl⟩

/-- A file is put where its path leads, into a directory. -/
theorem placeToWrite_spec (h : t.placeToWrite path = .ok place) :
    place = Path.namesFrom t.home path ∧ ∃ above name, place = above ++ [name] ∧
      Path.isName name ∧ ∃ d, t.root.find? above = some d ∧ d.isDirectory := by
  obtain ⟨-, above, name, names, n, hparts, hname, -, hfollow, hdirectory, rfl⟩ :=
    placeToWrite_parts h
  refine ⟨?_, names, name, rfl, hname, hdirectory⟩
  obtain ⟨rfl, -⟩ := follow_spec hfollow
  rw [Path.namesFrom, Path.steps, hparts, List.filter_append, Path.filter_of_isName hname,
    List.foldl_append]
  exact (Path.step_of_isName hname _).symm

/-- What is written is put at its place, or a device takes it. -/
theorem write_spec (h : t.write path bytes = .ok t') :
    t'.home = t.home ∧
    (t' = t ∧ t.root.find? (Path.namesFrom t.home path) = some .sink ∨
      t'.root = t.root.insert (.file bytes) (Path.namesFrom t.home path) ∧
      (∀ x, t.root.find? (Path.namesFrom t.home path) = some x → x.isDirectory = false) ∧
      ∃ above name, Path.namesFrom t.home path = above ++ [name] ∧ Path.isName name ∧
        ∃ d, t.root.find? above = some d ∧ d.isDirectory) := by
  obtain ⟨place, hplace, h⟩ := bind_eq_ok.mp h
  obtain ⟨rfl, habove⟩ := placeToWrite_spec hplace
  split at h
  · cases h
  · next hsink =>
    cases h
    exact ⟨rfl, .inl ⟨rfl, hsink⟩⟩
  · next hdirectory _ =>
    split_ifs at h
    cases h
    refine ⟨rfl, .inr ⟨rfl, fun x hx => ?_, habove⟩⟩
    cases x with
    | directory entries => exact absurd hx (hdirectory entries)
    | file _ => rfl
    | sink => rfl

theorem isDirectory_write (h : t.write path bytes = .ok t') (names : List Text)
    (hnames : ∃ d, t.root.find? names = some d ∧ d.isDirectory) :
    ∃ d, t'.root.find? names = some d ∧ d.isDirectory := by
  obtain ⟨-, ⟨rfl, -⟩ | ⟨hroot, hplace, -⟩⟩ := write_spec h
  · exact hnames
  · rw [hroot]
    exact FileNode.isDirectory_insert hplace hnames

/-! ### Reading -/

theorem read_spec (h : t.read path = .ok bytes) :
    ∃ n, t.locate path = .ok (Path.namesFrom t.home path, n) ∧
      t.root.find? (Path.namesFrom t.home path) = some n ∧
      (n = .file bytes ∨ n = .sink ∧ bytes = []) := by
  unfold read at h
  split at h
  · next place content hlocate =>
    cases h
    obtain ⟨rfl, hfind⟩ := locate_spec hlocate
    exact ⟨_, hlocate, hfind, .inl rfl⟩
  · next place hlocate =>
    cases h
    obtain ⟨rfl, hfind⟩ := locate_spec hlocate
    exact ⟨_, hlocate, hfind, .inr ⟨rfl, rfl⟩⟩
  · cases h
  · cases h

/-- Wherever a file can be written, its path leads to what was put there. -/
theorem locate_of_placeToWrite (hplace : t.placeToWrite path = .ok place) (hhome : t'.home = t.home)
    (hkept : ∀ names, (∃ d, t.root.find? names = some d ∧ d.isDirectory) →
      ∃ d, t'.root.find? names = some d ∧ d.isDirectory)
    (hn : t'.root.find? place = some n) : t'.locate path = .ok (place, n) := by
  obtain ⟨hcheck, above, name, names, m, hparts, hname, hlong, hfollow, hdirectory, rfl⟩ :=
    placeToWrite_parts hplace
  obtain ⟨d, hd, hisDirectory⟩ := hkept names hdirectory
  have hfollow' := follow_append (follow_of_directories hkept hfollow hd) [name]
  have hpart : (name.isEmpty || name = Path.dot) = false := by
    simp only [Path.isName, Bool.not_eq_true', Bool.or_eq_false_iff] at hname
    simp [hname]
  unfold locate
  rw [hcheck, start, hhome, hparts]
  simp only [bind, Except.bind]
  refine hfollow'.trans ?_
  rw [follow, directoryAt_eq_ok.mpr ⟨d, hd, hisDirectory⟩, hpart, hlong,
    Path.step_of_isName hname]
  simp only [bind, Except.bind, Bool.false_eq_true, if_false]
  rw [follow]
  simp only [hn]

/-- What is written where no device stands is read. -/
theorem read_write (hdevice : t.root.find? (Path.namesFrom t.home path) ≠ some .sink)
    (h : t.write path bytes = .ok t') : t'.read path = .ok bytes := by
  obtain ⟨hhome, ⟨-, hsink⟩ | ⟨hroot, -, -⟩⟩ := write_spec h
  · exact absurd hsink hdevice
  obtain ⟨place, hplace, -⟩ := bind_eq_ok.mp h
  have hnew : t'.root.find? place = some (.file bytes) := by
    rw [hroot, ← (placeToWrite_spec hplace).1, FileNode.find?_insert_self]
  rw [read, locate_of_placeToWrite hplace hhome (isDirectory_write h) hnew]

/-- No device stands where something is read. -/
theorem ne_sink_of_read (hread : t.read path = .ok bytes) (hbytes : bytes ≠ []) :
    t.root.find? (Path.namesFrom t.home path) ≠ some .sink := by
  obtain ⟨n, -, hfind, hn⟩ := read_spec hread
  intro hsink
  rw [hfind] at hsink
  cases hsink
  rcases hn with hn | ⟨-, hnil⟩
  · cases hn
  · exact hbytes hnil

/-- A file that is written over is read as what was written. -/
theorem read_write_self {old : List UInt8} (hread : t.read path = .ok old) (hold : old ≠ [])
    (h : t.write path bytes = .ok t') : t'.read path = .ok bytes :=
  read_write (ne_sink_of_read hread hold) h

/-- A file at another place is read as before. -/
theorem read_write_of_ne {old : List UInt8} (hread : t.read path = .ok old)
    (hne : Path.namesFrom t.home path ≠ Path.namesFrom t.home other)
    (h : t.write other bytes = .ok t') : t'.read path = .ok old := by
  obtain ⟨n, hlocate, hfind, hn⟩ := read_spec hread
  have hfile : n.isDirectory = false := by
    rcases hn with rfl | ⟨rfl, -⟩
    · rfl
    · rfl
  obtain ⟨hhome, ⟨rfl, -⟩ | ⟨hroot, hplace, habove⟩⟩ := write_spec h
  · exact hread
  · have hkept : t'.root.find? (Path.namesFrom t.home path) = some n := by
      obtain ⟨above, name, hnames, -, habove⟩ := habove
      rw [hnames] at hplace hroot
      rw [hroot]
      exact FileNode.find?_insert_of_ne hfile hfind hplace habove fun heq =>
        hne (heq.symm.trans hnames.symm)
    rw [read, locate_of_directories hhome (isDirectory_write h) hlocate hkept]
    rcases hn with rfl | ⟨rfl, rfl⟩
    · rfl
    · rfl

end FileTree

end HouseStyle
