import HouseStyle.Proofs.Files.Covered
import Mathlib.Data.List.Sort

/-! Runs on directories. With settings of the right kinds a run on a directory always gives its
files: the covered ones, each of them once, in the order of files. More patterns to exclude leave some
of them out and move no other. -/

namespace HouseStyle

namespace Discovery

/-! ### Usable settings -/

/-- Whether the settings that select files are of the kinds that they are meant to be. -/
structure Usable (config : Config) : Prop where
  extensions : ∃ ts : List Text, config.extensions.items? = some (ts.map .text)
  exclude : ∃ ts : List Text, config.excludePatterns.items? = some (ts.map .text)
  include_ : config.includePatterns.isTrue →
    ∃ ts : List Text, config.includePatterns.items? = some (ts.map .text)
  size : ∃ n, config.maxFileSize = .int n

variable {config : Config} {tree : FileTree} {base path name shown : Text} {extensions : List Text}
  {place names : List Text} {bytes : List UInt8}

section

variable (husable : Usable config)

include husable

theorem extensions_ok : ∃ extensions, Discovery.extensions config = .ok extensions := by
  obtain ⟨ts, hts⟩ := husable.extensions
  rw [Discovery.extensions, itemsOrFault_of_texts hts, ok_bind]
  simp only [bind_eq_ok]
  rw [exists_comm]
  refine Exists.imp (fun lowered h => ⟨lowered.flatten, h, rfl⟩) (exists_mapM_eq_ok fun v hv => ?_)
  obtain ⟨t, -, rfl⟩ := List.mem_map.mp hv
  exact ⟨_, rfl⟩

theorem covers_ok (hname : Path.isName name)
    (hpath : Path.namesFrom tree.home path = Path.namesFrom tree.home base ++ place) :
    ∃ b, covers config tree base extensions (Path.join path name) bytes = .ok b := by
  obtain ⟨excludes, hexcludes⟩ := husable.exclude
  obtain ⟨ignored, hignored⟩ := matchesAny_of_texts (way (place ++ [name])) name excludes
  have hignores : ignoresFile config tree (Path.join path name) base = .ok ignored := by
    rw [ignoresFile, relative_join hname hpath, ok_bind, itemsOrFault_of_texts hexcludes, ok_bind,
      Path.baseName_join hname, hignored]
  obtain ⟨included, hincludes⟩ : ∃ included,
      includesFile config tree (Path.join path name) base = .ok included := by
    unfold includesFile
    split_ifs with hgiven
    · obtain ⟨includes, hincludes⟩ := husable.include_ hgiven
      rw [relative_join hname hpath, ok_bind, itemsOrFault_of_texts hincludes, ok_bind]
      exact matchesAny_of_texts _ _ includes
    · exact ⟨true, rfl⟩
  obtain ⟨n, hn⟩ := husable.size
  have hsize : config.maxFileSize.exceededBy bytes.length = .ok (decide (n < bytes.length)) := by
    rw [hn]
    rfl
  unfold covers
  rw [hignores, hincludes, hsize]
  simp only [ok_bind]
  split_ifs <;> exact ⟨_, rfl⟩

theorem filesIn_ok {entries : List (Text × FileNode)} (heach : FileNode.wellNamedEach entries)
    (hpath : Path.namesFrom tree.home path = Path.namesFrom tree.home base ++ place) :
    ∃ found, filesIn config tree base extensions path entries = .ok found := by
  induction entries with
  | nil => exact ⟨[], rfl⟩
  | cons entry rest ih =>
    obtain ⟨k, n⟩ := entry
    simp only [FileNode.wellNamedEach, Bool.and_eq_true] at heach
    obtain ⟨⟨hname, -⟩, hrest⟩ := heach
    obtain ⟨others, hothers⟩ := ih hrest
    cases n with
    | file bytes =>
      obtain ⟨covered, hcovered⟩ :
          ∃ b, covers config tree base extensions (Path.join path k) bytes = .ok b :=
        covers_ok husable hname hpath
      rw [filesIn, hcovered, ok_bind, hothers]
      exact ⟨_, rfl⟩
    | directory _ => exact ⟨others, hothers⟩
    | sink => exact ⟨others, hothers⟩

theorem ignoresDirectory_ok (hname : Path.isName name)
    (hpath : Path.namesFrom tree.home path = Path.namesFrom tree.home base ++ place) :
    ∃ b, ignoresDirectory config tree (Path.join path name) base = .ok b := by
  obtain ⟨excludes, hexcludes⟩ := husable.exclude
  rw [ignoresDirectory, relative_join hname hpath, ok_bind, itemsOrFault_of_texts hexcludes, ok_bind]
  exact matchesAny_of_texts _ _ excludes

end

mutual

theorem below_ok (husable : Usable config) (n : FileNode) (hn : n.wellNamed) (path : Text)
    (place : List Text)
    (hpath : Path.namesFrom tree.home path = Path.namesFrom tree.home base ++ place) :
    ∃ found, below config tree base extensions path n = .ok found := by
  cases n with
  | file bytes => exact ⟨[], rfl⟩
  | sink => exact ⟨[], rfl⟩
  | directory entries =>
    simp only [FileNode.wellNamed, Bool.and_eq_true] at hn
    obtain ⟨inside, hinside⟩ := belowEach_ok husable entries hn.2 path place hpath
    obtain ⟨here, hhere⟩ : ∃ here, filesIn config tree base extensions path entries = .ok here :=
      filesIn_ok husable hn.2 hpath
    rw [below, hinside, ok_bind, hhere]
    exact ⟨_, rfl⟩

theorem belowEach_ok (husable : Usable config) (entries : List (Text × FileNode))
    (hentries : FileNode.wellNamedEach entries) (path : Text) (place : List Text)
    (hpath : Path.namesFrom tree.home path = Path.namesFrom tree.home base ++ place) :
    ∃ found, belowEach config tree base extensions path entries = .ok found := by
  cases entries with
  | nil => exact ⟨[], rfl⟩
  | cons entry rest =>
    obtain ⟨k, n⟩ := entry
    simp only [FileNode.wellNamedEach, Bool.and_eq_true] at hentries
    obtain ⟨⟨hname, hn⟩, hrest⟩ := hentries
    obtain ⟨others, hothers⟩ := belowEach_ok husable rest hrest path place hpath
    cases n with
    | file bytes => exact ⟨others, hothers⟩
    | sink => exact ⟨others, hothers⟩
    | directory entries =>
      have hplace : Path.namesFrom tree.home (Path.join path k) =
          Path.namesFrom tree.home base ++ (place ++ [k]) := by
        rw [Path.namesFrom_join hname, hpath, List.append_assoc]
      obtain ⟨fs, hfs⟩ :=
        below_ok husable (.directory entries) hn (Path.join path k) (place ++ [k]) hplace
      obtain ⟨ignored, hignored⟩ := ignoresDirectory_ok husable hname hpath
      rw [belowEach, hignored, ok_bind, hothers, ok_bind, hfs]
      cases ignored <;> exact ⟨_, rfl⟩

end

/-! ### More patterns -/

theorem Matched.mono {patterns others : List Text} (hsubset : patterns ⊆ others)
    (h : Matched patterns shown name) : Matched others shown name := by
  obtain ⟨p, hp, hmatches⟩ := h
  exact ⟨p, hsubset hp, hmatches⟩

/-- What is covered with more patterns to exclude is covered with fewer. -/
theorem Covers.of_exclude {exclude : Value}
    (hmore : textsOf config.excludePatterns ⊆ textsOf exclude)
    (h : Covers { config with excludePatterns := exclude } place names bytes) :
    Covers config place names bytes := by
  obtain ⟨above, name, hnames, hway, haccepts⟩ := h
  exact ⟨above, name, hnames, fun outer directory inner h hprunes =>
    hway outer directory inner h (hprunes.mono hmore),
    { extension := haccepts.extension
      not_excluded := fun hmatched => haccepts.not_excluded (hmatched.mono hmore)
      included := haccepts.included
      size := haccepts.size
      not_binary := haccepts.not_binary }⟩

end Discovery

/-! ### Runs on directories -/

section

variable {config : Config} {tree : FileTree} {target : Text} {n : FileNode}
  (hnode : tree.node? (Path.tidy target) = .ok (some n)) (hdirectory : n.isDirectory)

include hnode hdirectory

theorem discover_eq : discover config tree target = Discovery.extensions config >>= fun extensions =>
    Discovery.below config tree target extensions (Path.tidy target) n := by
  rw [discover]
  simp only [hnode]
  cases n with
  | file bytes => cases hdirectory
  | sink => cases hdirectory
  | directory entries => rfl

theorem discover_ways (hwell : n.wellNamed) {found : List Text}
    (h : discover config tree target = .ok found) :
    ∃ ways, found = ways.map (Path.along (Path.tidy target)) ∧ Discovery.Ways config [] n ways := by
  rw [discover_eq hnode hdirectory] at h
  obtain ⟨extensions, hextensions, h⟩ := bind_eq_ok.mp h
  refine Discovery.below_ways (Discovery.extensions_spec hextensions) n hwell _ [] ?_ found h
  rw [Path.namesFrom_tidy, List.append_nil]

/-- A run on a directory covers exactly the files that the configuration covers by the names that lead
to them, each of them once, in the order of files. With settings of the right kinds there is such a
run; and with more patterns to exclude it covers some of the files, in the same order. -/
theorem discover_covers (hwell : n.wellNamed) :
    (Discovery.Usable config → ∃ found, discover config tree target = .ok found) ∧
    ∀ found, discover config tree target = .ok found →
      found.Nodup ∧
      (∃ ways : List (List Text), found = ways.map (Path.along (Path.tidy target)) ∧
        ways.Pairwise Discovery.Precedes ∧ ∀ names, names ∈ ways ↔
          ∃ bytes, n.find? names = some (.file bytes) ∧ Discovery.Covers config [] names bytes) ∧
      ∀ exclude fewer,
        Discovery.textsOf config.excludePatterns ⊆ Discovery.textsOf exclude →
        discover { config with excludePatterns := exclude } tree target = .ok fewer →
        fewer.Sublist found := by
  refine ⟨fun husable => ?_, fun found h => ?_⟩
  · obtain ⟨extensions, hextensions⟩ := Discovery.extensions_ok husable
    rw [discover_eq hnode hdirectory, hextensions, ok_bind]
    refine Discovery.below_ok husable n hwell _ [] ?_
    rw [Path.namesFrom_tidy, List.append_nil]
  obtain ⟨ways, rfl, hsorted, hmem⟩ := discover_ways hnode hdirectory hwell h
  refine ⟨List.Nodup.map_on (fun names hnames more hmore heq => ?_) hsorted.nodup,
    ⟨ways, rfl, hsorted, hmem⟩, fun exclude fewer hmore hfewer => ?_⟩
  · obtain ⟨_, hfind, -⟩ := (hmem names).mp hnames
    obtain ⟨_, hfind', -⟩ := (hmem more).mp hmore
    have hplaces := congrArg (Path.namesFrom tree.home) heq
    rw [Path.namesFrom_along (FileNode.isName_of_find? hwell hfind),
      Path.namesFrom_along (FileNode.isName_of_find? hwell hfind')] at hplaces
    exact List.append_cancel_left hplaces
  · obtain ⟨ways', rfl, hsorted', hmem'⟩ := discover_ways hnode hdirectory hwell hfewer
    refine List.Sublist.map _ (List.sublist_of_subperm_of_pairwise ?_ hsorted' hsorted)
    refine hsorted'.nodup.subperm fun names hnames => ?_
    obtain ⟨bytes, hfind, hcovers⟩ := (hmem' names).mp hnames
    exact (hmem names).mpr ⟨bytes, hfind, hcovers.of_exclude hmore⟩

end

/-- A tree in which one directory is excluded, and then some files of another one. -/
theorem discover_covers_pruned :
    let swift : FileNode := .file [0x78]
    let n : FileNode := .directory [("src", .directory [("b.swift", swift), ("a.SWIFT", swift)]),
      ("build", .directory [("c.swift", swift)]), ("z.swift", swift), ("notes.txt", swift)]
    let tree := FileTree.ofHome ["home"] n
    let config : Config := { excludePatterns := .texts ["build/**"] }
    let exclude : Value := .texts ["src/b*", "build/**"]
    (tree.node? (Path.tidy ".") = .ok (some n) ∧ n.isDirectory ∧ n.wellNamed ∧
      Discovery.Usable config ∧
      Discovery.textsOf config.excludePatterns ⊆ Discovery.textsOf exclude) ∧
    ∃ found fewer, discover config tree "." = .ok found ∧
      discover { config with excludePatterns := exclude } tree "." = .ok fewer ∧
      Text.ofString "./src/a.SWIFT" ∈ found ∧ found.Nodup ∧ fewer.Sublist found := by
  intro swift n tree config exclude
  have hnode : tree.node? (Path.tidy ".") = .ok (some n) := rfl
  have hwell : n.wellNamed := by decide
  have husable (patterns : List Text) :
      Discovery.Usable { config with excludePatterns := .texts patterns } :=
    ⟨⟨[".swift"], rfl⟩, ⟨patterns, rfl⟩, fun h => (by cases h), ⟨10485760, rfl⟩⟩
  have hmore : Discovery.textsOf config.excludePatterns ⊆ Discovery.textsOf exclude := by decide
  obtain ⟨found, hfound⟩ := (discover_covers hnode rfl hwell).1 (husable _)
  obtain ⟨fewer, hfewer⟩ := (discover_covers hnode rfl hwell).1 (husable ["src/b*", "build/**"])
  obtain ⟨hnodup, ⟨ways, hways, -, hmem⟩, hsublist⟩ :=
    (discover_covers hnode rfl hwell).2 found hfound
  have hexclude : Discovery.textsOf config.excludePatterns = ["build/**"] := rfl
  have hunmatched (shown name : Text) (hmatches : (Glob.matches_ "build/**" shown ||
      Glob.matches_ "build/**" name) = false) :
      ¬Discovery.Matched (Discovery.textsOf config.excludePatterns) shown name := by
    simpa [Discovery.Matched, hexclude] using hmatches
  have hcovers : Discovery.Covers config [] ["src", "a.SWIFT"] [0x78] := by
    refine ⟨["src"], "a.SWIFT", rfl, fun outer directory inner h => ?_,
      { extension := by decide +kernel
        not_excluded := hunmatched _ _ (by decide +kernel)
        included := fun h => by cases h
        size := rfl
        not_binary := by decide +kernel }⟩
    cases outer with
    | nil =>
      obtain ⟨rfl, -⟩ := List.cons.inj h
      exact hunmatched _ _ (by decide +kernel)
    | cons first outer => simp at h
  refine ⟨⟨hnode, rfl, hwell, husable _, hmore⟩, found, fewer, hfound, hfewer, ?_, hnodup,
    hsublist exclude fewer hmore hfewer⟩
  rw [hways]
  exact List.mem_map.mpr ⟨_, (hmem _).mpr ⟨_, rfl, hcovers⟩, by decide +kernel⟩

end HouseStyle
