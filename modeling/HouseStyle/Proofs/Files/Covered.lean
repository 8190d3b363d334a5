import HouseStyle.Proofs.Files.Discovered

/-! Which files are covered, and in which order. What a run covers below a directory is known by the
names that lead there: no directory on the way is excluded, and the file itself is accepted. Files come
in one order, in which those of a directory are before those of its directories, so leaving some out
never moves the others. -/

namespace HouseStyle

open Std

/-- The text that a value is. -/
def Value.text? : Value → Option Text
  | .text t => some t
  | _ => none

namespace FileNode

variable {entries : List (Text × FileNode)} {name : Text} {n : FileNode}

/-- Where each entry has a name of its own, it is the one that is found under its name. -/
theorem lookup_eq_some_iff_mem (h : (entries.map Prod.fst).Nodup) :
    entries.lookup name = some n ↔ (name, n) ∈ entries := by
  induction entries with
  | nil => simp
  | cons entry rest ih =>
    obtain ⟨k, m⟩ := entry
    rw [List.map_cons, List.nodup_cons] at h
    rw [lookup_cons_eq]
    by_cases hk : name = k
    · subst hk
      have hrest : (name, n) ∉ rest := fun hmem =>
        h.1 (List.mem_map.mpr ⟨(name, n), hmem, rfl⟩)
      simp [hrest, eq_comm]
    · simp [hk, ih h.2]

/-- What some names lead to from a directory. -/
theorem find?_cons_eq_some {m : FileNode} {names : List Text} (h : (entries.map Prod.fst).Nodup) :
    (directory entries).find? (name :: names) = some m ↔
      ∃ n, (name, n) ∈ entries ∧ n.find? names = some m := by
  rw [find?, Option.bind_eq_some_iff]
  exact exists_congr fun n => and_congr_left fun _ => lookup_eq_some_iff_mem h

end FileNode

namespace Discovery

/-! ### What is covered -/

/-- The texts among the items of a value. -/
def textsOf (v : Value) : List Text := (v.items?.getD []).filterMap Value.text?

/-- The way along some names. -/
def way (names : List Text) : Text := Text.joinWith [Path.slash] names

/-- Whether one of some patterns matches the way to something, or its name. -/
def Matched (patterns : List Text) (way name : Text) : Prop :=
  ∃ p ∈ patterns, Glob.matches_ p way ∨ Glob.matches_ p name

variable (config : Config)

/-- Whether a directory in a place below the target is excluded. Patterns match directories with a
slash at the end. -/
def Prunes (place : List Text) (name : Text) : Prop :=
  Matched (textsOf config.excludePatterns) (way (place ++ [name]) ++ [Path.slash])
    (name ++ [Path.slash])

/-- Whether a file in a place below the target is accepted: by its extension, by the patterns and by
what it holds. -/
structure Accepts (place : List Text) (name : Text) (bytes : List UInt8) : Prop where
  extension : Text.lower (Path.extension_ name) ∈ (textsOf config.extensions).map Text.lower
  not_excluded : ¬Matched (textsOf config.excludePatterns) (way (place ++ [name])) name
  included : config.includePatterns.isTrue →
    Matched (textsOf config.includePatterns) (way (place ++ [name])) name
  size : config.maxFileSize.exceededBy bytes.length = .ok false
  not_binary : isBinary bytes = false

/-- Whether the file that some names lead to from a place is covered: no directory on the way is
excluded, and the file is accepted. -/
def Covers (place names : List Text) (bytes : List UInt8) : Prop :=
  ∃ above name, names = above ++ [name] ∧
    (∀ outer directory inner, above = outer ++ directory :: inner →
      ¬Prunes config (place ++ outer) directory) ∧
    Accepts config (place ++ above) name bytes

/-- The order of files by the names that lead to them: by name in each directory, and all of them
before those of the directories in it, which are in the order of their names. -/
inductive Precedes : List Text → List Text → Prop
  | files {name other : Text} : Text.compare name other = .lt → Precedes [name] [other]
  | fileFirst (name directory : Text) {rest : List Text} : rest ≠ [] →
    Precedes [name] (directory :: rest)
  | directories {directory other : Text} {rest more : List Text} : rest ≠ [] → more ≠ [] →
    Text.compare directory other = .lt → Precedes (directory :: rest) (other :: more)
  | within (directory : Text) {rest more : List Text} : Precedes rest more →
    Precedes (directory :: rest) (directory :: more)

variable {config} {tree : FileTree} {base path name shown : Text} {extensions : List Text}
  {place names rest more : List Text} {bytes : List UInt8}

/-! ### The order of files -/

theorem Precedes.ne_nil (h : Precedes names more) : names ≠ [] ∧ more ≠ [] := by
  cases h <;> exact ⟨List.cons_ne_nil _ _, List.cons_ne_nil _ _⟩

theorem Precedes.asymm (h : Precedes names more) : ¬Precedes more names := by
  have hirrefl (t : Text) : Text.compare t t ≠ .lt := by simp [ReflCmp.compare_self]
  have hswap {s t : Text} (hlt : Text.compare s t = .lt) : Text.compare t s ≠ .lt := by
    have hflip : Text.compare t s = (Text.compare s t).swap := OrientedCmp.eq_swap
    rw [hflip, hlt]
    decide
  induction h with
  | files hlt =>
    rintro (hgt | ⟨_, _, hne⟩ | ⟨hne, _, _⟩ | ⟨_, hsame⟩)
    · exact hswap hlt hgt
    · exact hne rfl
    · exact hne rfl
    · exact hsame.ne_nil.1 rfl
  | fileFirst name directory hne =>
    rintro (_ | _ | ⟨_, hnil, _⟩ | ⟨_, hsame⟩)
    · exact hne rfl
    · exact hne rfl
    · exact hnil rfl
    · exact hsame.ne_nil.2 rfl
  | directories hrest hmore hlt =>
    rintro (_ | _ | ⟨_, _, hgt⟩ | ⟨_, hsame⟩)
    · exact hmore rfl
    · exact hmore rfl
    · exact hswap hlt hgt
    · exact hirrefl _ hlt
  | within directory hrest ih =>
    rintro (hgt | ⟨_, _, hne⟩ | ⟨_, _, hgt⟩ | ⟨_, hsame⟩)
    · exact hrest.ne_nil.1 rfl
    · exact hrest.ne_nil.2 rfl
    · exact hirrefl _ hgt
    · exact ih hsame

instance Precedes.instIrrefl : Irrefl Precedes := ⟨fun _ h => h.asymm h⟩

instance Precedes.instAntisymm : Antisymm Precedes := ⟨fun _ _ h h' => absurd h' h.asymm⟩

/-! ### Patterns -/

theorem matchesOne_spec {pattern : Value} {b : Bool} (h : matchesOne pattern shown name = .ok b) :
    ∃ p, pattern.text? = some p ∧ b = (Glob.matches_ p shown || Glob.matches_ p name) := by
  unfold matchesOne at h
  split at h
  · next p =>
    cases h
    exact ⟨p, rfl, rfl⟩
  · cases h
  · cases h

/-- Something matches where a text among the patterns does. -/
theorem matchesAny_spec {patterns : List Value} {b : Bool}
    (h : matchesAny shown name patterns = .ok b) :
    b = true ↔ Matched (patterns.filterMap Value.text?) shown name := by
  induction patterns with
  | nil =>
    cases h
    simp [Matched]
  | cons pattern patterns ih =>
    obtain ⟨first, hfirst, h⟩ := bind_eq_ok.mp h
    obtain ⟨p, hp, rfl⟩ := matchesOne_spec hfirst
    rw [List.filterMap_cons, hp]
    dsimp only at h ⊢
    split_ifs at h with hmatch
    · cases h
      exact iff_of_true rfl ⟨p, List.mem_cons_self, by simpa using hmatch⟩
    · rw [ih h, Matched, Matched, List.exists_mem_cons_iff, or_iff_right]
      simpa using hmatch

theorem matchesAny_of_texts (shown name : Text) (ts : List Text) :
    ∃ b, matchesAny shown name (ts.map .text) = .ok b := by
  induction ts with
  | nil => exact ⟨false, rfl⟩
  | cons t ts ih =>
    cases hmatch : Glob.matches_ t shown || Glob.matches_ t name with
    | true => exact ⟨true, by simp [matchesAny, matchesOne, hmatch, ok_bind, pure, Except.pure]⟩
    | false =>
      obtain ⟨b, hb⟩ := ih
      exact ⟨b, by simp [matchesAny, matchesOne, hmatch, ok_bind, hb]⟩

theorem itemsOrFault_spec {v : Value} {items : List Value} (h : v.itemsOrFault = .ok items) :
    textsOf v = items.filterMap Value.text? := by
  unfold Value.itemsOrFault at h
  split at h
  · next found hfound =>
    cases h
    rw [textsOf, hfound, Option.getD_some]
  · cases h

theorem itemsOrFault_of_texts {v : Value} {ts : List Text} (h : v.items? = some (ts.map .text)) :
    v.itemsOrFault = .ok (ts.map .text) := by
  rw [Value.itemsOrFault, h]

/-! ### Single files and directories -/

section

variable (hname : Path.isName name)
  (hpath : Path.namesFrom tree.home path = Path.namesFrom tree.home base ++ place)

include hname hpath

/-- The way from the target to a name in a place below it. -/
theorem relative_join : relative tree (Path.join path name) base = .ok (way (place ++ [name])) := by
  have hjoin : Path.namesFrom tree.home (Path.join path name) =
      Path.namesFrom tree.home base ++ (place ++ [name]) := by
    rw [Path.namesFrom_join hname, hpath, List.append_assoc]
  rw [relative, if_neg (by simpa using Path.join_ne_nil hname path),
    Path.relative_of_namesFrom hjoin (by simp)]
  rfl

theorem ignoresDirectory_spec {b : Bool}
    (h : ignoresDirectory config tree (Path.join path name) base = .ok b) :
    b = true ↔ Prunes config place name := by
  unfold ignoresDirectory at h
  rw [relative_join hname hpath, ok_bind, Path.baseName_join hname] at h
  obtain ⟨items, hitems, h⟩ := bind_eq_ok.mp h
  rw [matchesAny_spec h, Prunes, itemsOrFault_spec hitems]

theorem ignoresFile_spec {b : Bool}
    (h : ignoresFile config tree (Path.join path name) base = .ok b) :
    b = true ↔ Matched (textsOf config.excludePatterns) (way (place ++ [name])) name := by
  unfold ignoresFile at h
  rw [relative_join hname hpath, ok_bind, Path.baseName_join hname] at h
  obtain ⟨items, hitems, h⟩ := bind_eq_ok.mp h
  rw [matchesAny_spec h, itemsOrFault_spec hitems]

theorem includesFile_spec {b : Bool}
    (h : includesFile config tree (Path.join path name) base = .ok b) :
    b = true ↔ (config.includePatterns.isTrue →
      Matched (textsOf config.includePatterns) (way (place ++ [name])) name) := by
  unfold includesFile at h
  split_ifs at h with hgiven
  · rw [relative_join hname hpath, ok_bind, Path.baseName_join hname] at h
    obtain ⟨items, hitems, h⟩ := bind_eq_ok.mp h
    rw [matchesAny_spec h, itemsOrFault_spec hitems, forall_prop_of_true hgiven]
  · cases h
    exact iff_of_true rfl fun h => absurd h hgiven

theorem covers_spec (hextensions : extensions = (textsOf config.extensions).map Text.lower)
    {b : Bool} (h : covers config tree base extensions (Path.join path name) bytes = .ok b) :
    b = true ↔ Accepts config place name bytes := by
  unfold covers at h
  rw [Path.baseName_join hname] at h
  split_ifs at h with hextension
  · cases h
    refine iff_of_false (by decide) fun haccepts => ?_
    have hmem := haccepts.extension
    rw [← hextensions] at hmem
    simp [hmem] at hextension
  obtain ⟨ignored, hignored, h⟩ := bind_eq_ok.mp h
  have hignores := ignoresFile_spec hname hpath hignored
  split_ifs at h with hig
  · cases h
    exact iff_of_false (by decide) fun haccepts => haccepts.not_excluded (hignores.mp hig)
  obtain ⟨included, hincluded, h⟩ := bind_eq_ok.mp h
  have hincludes := includesFile_spec hname hpath hincluded
  split_ifs at h with hin
  · cases h
    refine iff_of_false (by decide) fun haccepts => ?_
    rw [hincludes.mpr haccepts.included] at hin
    cases hin
  obtain ⟨large, hlarge, h⟩ := bind_eq_ok.mp h
  split_ifs at h with hsize
  · cases h
    refine iff_of_false (by decide) fun haccepts => ?_
    have hfits := haccepts.size
    rw [hlarge, hsize] at hfits
    cases hfits
  · cases h
    rw [Bool.not_eq_true']
    refine ⟨fun hbinary => ?_, fun haccepts => haccepts.not_binary⟩
    exact
      { extension := by simpa [← hextensions] using hextension
        not_excluded := fun hmatched => hig (hignores.mpr hmatched)
        included := hincludes.mp (by simpa using hin)
        size := by simpa [hsize] using hlarge
        not_binary := hbinary }

end

theorem extensions_spec (h : Discovery.extensions config = .ok extensions) :
    extensions = (textsOf config.extensions).map Text.lower := by
  obtain ⟨items, hitems, h⟩ := bind_eq_ok.mp h
  obtain ⟨lowered, hlowered, h⟩ := bind_eq_ok.mp h
  obtain rfl : lowered.flatten = extensions := Except.ok.inj h
  rw [itemsOrFault_spec hitems]
  clear * - hlowered
  induction items generalizing lowered with
  | nil =>
    cases hlowered
    rfl
  | cons item items ih =>
    rw [List.mapM_cons] at hlowered
    obtain ⟨first, hfirst, hlowered⟩ := bind_eq_ok.mp hlowered
    obtain ⟨others, hothers, hlowered⟩ := bind_eq_ok.mp hlowered
    cases hlowered
    rw [List.flatten_cons, ih others hothers, List.filterMap_cons]
    split at hfirst
    · cases hfirst
      rfl
    · cases hfirst
      rfl
    · cases hfirst

/-! ### Names on the way -/

theorem Covers.ne_nil (h : Covers config place names bytes) : names ≠ [] := by
  obtain ⟨above, name, rfl, -⟩ := h
  simp

theorem covers_singleton : Covers config place [name] bytes ↔ Accepts config place name bytes := by
  constructor
  · rintro ⟨above, last, heq, -, haccepts⟩
    obtain ⟨rfl, hlast⟩ := List.append_inj' (show [] ++ [name] = above ++ [last] from heq) rfl
    obtain rfl := (List.cons.inj hlast).1
    rwa [List.append_nil] at haccepts
  · intro haccepts
    exact ⟨[], name, rfl, fun outer directory inner h => by simp at h, by rwa [List.append_nil]⟩

/-- What some names lead to from a place is covered where the first directory is not excluded and it
is covered from there. -/
theorem covers_cons (hrest : rest ≠ []) : Covers config place (name :: rest) bytes ↔
    ¬Prunes config place name ∧ Covers config (place ++ [name]) rest bytes := by
  constructor
  · rintro ⟨above, last, heq, hway, haccepts⟩
    cases above with
    | nil => exact absurd (List.cons.inj heq).2 hrest
    | cons first above =>
      obtain ⟨rfl, rfl⟩ := List.cons.inj heq
      refine ⟨by simpa using hway [] name above rfl, above, last, rfl, fun outer d inner h => ?_, ?_⟩
      · have := hway (name :: outer) d inner (by rw [h, List.cons_append])
        rwa [List.append_assoc]
      · rwa [List.append_assoc]
  · rintro ⟨hfirst, above, last, rfl, hway, haccepts⟩
    refine ⟨name :: above, last, rfl, fun outer d inner h => ?_, by rwa [List.append_assoc] at haccepts⟩
    cases outer with
    | nil =>
      obtain ⟨rfl, rfl⟩ := List.cons.inj h
      rwa [List.append_nil]
    | cons first outer =>
      obtain ⟨rfl, rfl⟩ := List.cons.inj h
      have := hway outer d inner rfl
      rwa [List.append_assoc] at this

/-! ### Files below a directory -/

theorem byName_map {α β : Type} {f : Text × α → Text × β} (hf : ∀ x, (f x).1 = x.1)
    (xs : List (Text × α)) : byName (xs.map f) = (byName xs).map f := by
  refine (List.map_mergeSort fun x _ y _ => ?_).symm
  rw [hf, hf]

/-- The paths of the files inside a directory of a path. -/
def pathsInside (path : Text) (x : Text × List (List Text)) : Text × List Text :=
  (x.1, x.2.map (Path.along (Path.join path x.1)))

/-- The ways to the files of a directory, from those of its own and from those inside its
directories. -/
def walk (here : List (Text × Text)) (inside : List (Text × List (List Text))) :
    List (List Text) :=
  (byName here).map (fun x => [x.1]) ++ ((byName inside).map fun x => x.2.map (x.1 :: ·)).flatten

section

variable {here : List (Text × Text)} {inside : List (Text × List (List Text))}

theorem mem_walk : names ∈ walk here inside ↔
    (∃ name ∈ here.map Prod.fst, names = [name]) ∨
      ∃ x ∈ inside, ∃ rest ∈ x.2, names = x.1 :: rest := by
  simp only [walk, List.mem_append, List.mem_map, List.mem_flatten, mem_byName]
  constructor
  · rintro (⟨x, hx, rfl⟩ | ⟨_, ⟨x, hx, rfl⟩, hnames⟩)
    · exact .inl ⟨x.1, ⟨x, hx, rfl⟩, rfl⟩
    · obtain ⟨rest, hrest, rfl⟩ := List.mem_map.mp hnames
      exact .inr ⟨x, hx, rest, hrest, rfl⟩
  · rintro (⟨_, ⟨x, hx, rfl⟩, rfl⟩ | ⟨x, hx, rest, hrest, rfl⟩)
    · exact .inl ⟨x, hx, rfl⟩
    · exact .inr ⟨_, ⟨x, hx, rfl⟩, List.mem_map_of_mem hrest⟩

theorem walk_sorted (hhere : (here.map Prod.fst).Nodup) (hinside : (inside.map Prod.fst).Nodup)
    (hsorted : ∀ x ∈ inside, x.2.Pairwise Precedes) (hne : ∀ x ∈ inside, [] ∉ x.2) :
    (walk here inside).Pairwise Precedes := by
  have hbelow {x : Text × List (List Text)} {rest : List Text} (hx : x ∈ byName inside)
      (hrest : rest ∈ x.2) : rest ≠ [] := fun hnil => hne x (mem_byName.mp hx) (hnil ▸ hrest)
  rw [walk, List.pairwise_append, List.pairwise_map, List.pairwise_flatten, List.pairwise_map]
  refine ⟨(byName_sorted hhere).imp .files, ⟨fun paths hpaths => ?_, ?_⟩, ?_⟩
  · obtain ⟨x, hx, rfl⟩ := List.mem_map.mp hpaths
    rw [List.pairwise_map]
    exact (hsorted x (mem_byName.mp hx)).imp (.within x.1)
  · refine (byName_sorted hinside).imp_of_mem fun {x y} hx hy hlt => ?_
    intro names hnames more hmore
    obtain ⟨rest, hrest, rfl⟩ := List.mem_map.mp hnames
    obtain ⟨rest', hrest', rfl⟩ := List.mem_map.mp hmore
    exact .directories (hbelow hx hrest) (hbelow hy hrest') hlt
  · intro names hnames more hmore
    obtain ⟨x, -, rfl⟩ := List.mem_map.mp hnames
    obtain ⟨paths, hpaths, hmore⟩ := List.mem_flatten.mp hmore
    obtain ⟨y, hy, rfl⟩ := List.mem_map.mp hpaths
    obtain ⟨rest, hrest, rfl⟩ := List.mem_map.mp hmore
    exact .fileFirst x.1 y.1 (hbelow hy hrest)

/-- The files that a walk finds are at the paths along its ways. -/
theorem map_along_walk (hpaths : ∀ x ∈ here, x.2 = Path.join path x.1) :
    (walk here inside).map (Path.along path) = (byName here).map Prod.snd ++
      ((byName (inside.map (pathsInside path))).map Prod.snd).flatten := by
  rw [byName_map (f := pathsInside path) (fun _ => rfl), walk, List.map_append, List.map_map,
    List.map_flatten, List.map_map, List.map_map]
  congr 1
  · refine List.map_congr_left fun x hx => ?_
    exact (hpaths x (mem_byName.mp hx)).symm
  · congr 1
    refine List.map_congr_left fun x _ => ?_
    simp only [Function.comp, List.map_map, pathsInside]
    exact List.map_congr_left fun _ _ => rfl

end

/-- The files of a directory are its accepted ones. -/
theorem filesIn_accepts (hextensions : extensions = (textsOf config.extensions).map Text.lower)
    (hpath : Path.namesFrom tree.home path = Path.namesFrom tree.home base ++ place)
    {entries : List (Text × FileNode)} (heach : FileNode.wellNamedEach entries)
    {found : List (Text × Text)}
    (h : filesIn config tree base extensions path entries = .ok found) :
    name ∈ found.map Prod.fst ↔
      ∃ bytes, (name, .file bytes) ∈ entries ∧ Accepts config place name bytes := by
  induction entries generalizing found with
  | nil =>
    cases h
    simp
  | cons entry rest ih =>
    obtain ⟨k, n⟩ := entry
    simp only [FileNode.wellNamedEach, Bool.and_eq_true] at heach
    obtain ⟨⟨hk, -⟩, hrest⟩ := heach
    cases n with
    | file bytes =>
      obtain ⟨covered, hcovered, h⟩ := bind_eq_ok.mp h
      obtain ⟨others, hothers, h⟩ := bind_eq_ok.mp h
      have hcovers := covers_spec hk hpath hextensions hcovered
      have ih := ih hrest hothers
      cases h
      by_cases hname : name = k
      · subst hname
        cases covered <;> simp [ih, ← hcovers]
      · cases covered <;> simp [ih, hname]
    | directory _ =>
      rw [ih hrest h]
      simp
    | sink =>
      rw [ih hrest h]
      simp

/-- The ways to the covered files below something in a place, in the order of files. -/
structure Ways (config : Config) (place : List Text) (n : FileNode) (ways : List (List Text)) :
    Prop where
  sorted : ways.Pairwise Precedes
  mem : ∀ names, names ∈ ways ↔
    ∃ bytes, n.find? names = some (.file bytes) ∧ Covers config place names bytes

/-- The ways to the covered files inside the directories of a place, of those that are not
excluded. -/
structure InnerWays (config : Config) (place : List Text) (entries : List (Text × FileNode))
    (inside : List (Text × List (List Text))) : Prop where
  names : (inside.map Prod.fst).Sublist (entries.map Prod.fst)
  sorted : ∀ x ∈ inside, x.2.Pairwise Precedes
  mem : ∀ name names, (∃ ways, (name, ways) ∈ inside ∧ names ∈ ways) ↔
    ∃ n bytes, (name, n) ∈ entries ∧ n.isDirectory ∧ ¬Prunes config place name ∧
      n.find? names = some (.file bytes) ∧ Covers config (place ++ [name]) names bytes

section

variable {n : FileNode} {ways : List (List Text)} {entries : List (Text × FileNode)}
  {inside : List (Text × List (List Text))} {here : List (Text × Text)}

theorem Ways.of_not_directory (h : n.isDirectory = false) : Ways config place n [] :=
  { sorted := .nil
    mem := fun names => by
      refine iff_of_false List.not_mem_nil ?_
      rintro ⟨bytes, hfind, hcovers⟩
      exact hcovers.ne_nil (FileNode.eq_nil_of_find? h hfind) }

theorem InnerWays.nil : InnerWays config place [] [] :=
  { names := .slnil
    sorted := fun _ hx => absurd hx List.not_mem_nil
    mem := by simp }

/-- An entry that is not entered adds nothing. -/
theorem InnerWays.skip (h : InnerWays config place entries inside)
    (hn : n.isDirectory = false ∨ Prunes config place name) :
    InnerWays config place ((name, n) :: entries) inside :=
  { names := h.names.cons name
    sorted := h.sorted
    mem := fun other names => by
      rw [h.mem]
      refine exists_congr fun m => exists_congr fun bytes => ?_
      rw [List.mem_cons, or_and_right, or_iff_right]
      rintro ⟨heq, hdirectory, hprunes, -⟩
      cases heq
      rcases hn with hn | hn
      · rw [hn] at hdirectory
        cases hdirectory
      · exact hprunes hn }

/-- A directory that is entered adds its own files. -/
theorem InnerWays.enter (h : InnerWays config place entries inside) (hn : n.isDirectory)
    (hprunes : ¬Prunes config place name) (hways : Ways config (place ++ [name]) n ways) :
    InnerWays config place ((name, n) :: entries) ((name, ways) :: inside) :=
  { names := h.names.cons_cons name
    sorted := List.forall_mem_cons.mpr ⟨hways.sorted, h.sorted⟩
    mem := fun other names => by
      constructor
      · rintro ⟨found, hfound, hnames⟩
        rcases List.mem_cons.mp hfound with heq | hfound
        · cases heq
          obtain ⟨bytes, hfind, hcovers⟩ := (hways.mem names).mp hnames
          exact ⟨n, bytes, List.mem_cons_self, hn, hprunes, hfind, hcovers⟩
        · obtain ⟨m, bytes, hm, hcovered⟩ := (h.mem other names).mp ⟨found, hfound, hnames⟩
          exact ⟨m, bytes, List.mem_cons_of_mem _ hm, hcovered⟩
      · rintro ⟨m, bytes, hm, hcovered⟩
        rcases List.mem_cons.mp hm with heq | hm
        · cases heq
          exact ⟨ways, List.mem_cons_self, (hways.mem names).mpr ⟨bytes, hcovered.2.2⟩⟩
        · obtain ⟨found, hfound, hnames⟩ := (h.mem other names).mpr ⟨m, bytes, hm, hcovered⟩
          exact ⟨found, List.mem_cons_of_mem _ hfound, hnames⟩ }

theorem InnerWays.notMem_nil (h : InnerWays config place entries inside) :
    ∀ x ∈ inside, [] ∉ x.2 := by
  intro x hx hnil
  obtain ⟨_, _, -, -, -, -, hcovers⟩ := (h.mem x.1 []).mp ⟨x.2, hx, hnil⟩
  exact hcovers.ne_nil rfl

theorem mem_walk_cons : name :: rest ∈ walk here inside ↔
    name ∈ here.map Prod.fst ∧ rest = [] ∨ ∃ ways, (name, ways) ∈ inside ∧ rest ∈ ways := by
  rw [mem_walk]
  refine or_congr (by simp) ⟨?_, fun ⟨ways, hx, hrest⟩ => ⟨_, hx, rest, hrest, rfl⟩⟩
  rintro ⟨⟨k, ways⟩, hx, more, hmore, heq⟩
  obtain ⟨rfl, rfl⟩ := List.cons.inj heq
  exact ⟨ways, hx, hmore⟩

/-- The files of a directory are its own accepted ones and those inside its directories. -/
theorem InnerWays.walk (h : InnerWays config place entries inside)
    (hnodup : (entries.map Prod.fst).Nodup)
    (hnames : (here.map Prod.fst).Sublist (entries.map Prod.fst))
    (haccepts : ∀ name, name ∈ here.map Prod.fst ↔
      ∃ bytes, (name, .file bytes) ∈ entries ∧ Accepts config place name bytes) :
    Ways config place (.directory entries) (walk here inside) where
  sorted := walk_sorted (hnames.nodup hnodup) (h.names.nodup hnodup) h.sorted h.notMem_nil
  mem := by
    intro names
    cases names with
    | nil =>
      refine iff_of_false (fun hmem => ?_) fun ⟨bytes, hfind, hcovers⟩ => hcovers.ne_nil rfl
      rcases mem_walk.mp hmem with ⟨name, -, heq⟩ | ⟨x, -, rest, -, heq⟩ <;> cases heq
    | cons name rest =>
      simp only [FileNode.find?_cons_eq_some hnodup]
      rw [mem_walk_cons, haccepts, h.mem]
      constructor
      · rintro (⟨⟨bytes, hmem, haccepts⟩, rfl⟩ | ⟨n, bytes, hmem, -, hprunes, hfind, hcovers⟩)
        · exact ⟨bytes, ⟨_, hmem, rfl⟩, covers_singleton.mpr haccepts⟩
        · exact ⟨bytes, ⟨n, hmem, hfind⟩, (covers_cons hcovers.ne_nil).mpr ⟨hprunes, hcovers⟩⟩
      · rintro ⟨bytes, ⟨n, hmem, hfind⟩, hcovers⟩
        by_cases hrest : rest = []
        · subst hrest
          obtain rfl := Option.some.inj hfind
          exact .inl ⟨⟨bytes, hmem, covers_singleton.mp hcovers⟩, rfl⟩
        · obtain ⟨hprunes, hcovers⟩ := (covers_cons hrest).mp hcovers
          refine .inr ⟨n, bytes, hmem, ?_, hprunes, hfind, hcovers⟩
          by_contra hfile
          exact hrest (FileNode.eq_nil_of_find? (by simpa using hfile) hfind)

end

mutual

/-- The covered files below a directory are known by the names that lead to them. -/
theorem below_ways (hextensions : extensions = (textsOf config.extensions).map Text.lower)
    (n : FileNode) (hn : n.wellNamed) (path : Text) (place : List Text)
    (hpath : Path.namesFrom tree.home path = Path.namesFrom tree.home base ++ place)
    (found : List Text) (h : below config tree base extensions path n = .ok found) :
    ∃ ways, found = ways.map (Path.along path) ∧ Ways config place n ways := by
  cases n with
  | file bytes =>
    cases h
    exact ⟨[], rfl, .of_not_directory rfl⟩
  | sink =>
    cases h
    exact ⟨[], rfl, .of_not_directory rfl⟩
  | directory entries =>
    simp only [FileNode.wellNamed, Bool.and_eq_true, decide_eq_true_eq] at hn
    obtain ⟨hnodup, heach⟩ := hn
    obtain ⟨inside, hinside, h⟩ := bind_eq_ok.mp h
    obtain ⟨here, hhere, h⟩ := bind_eq_ok.mp h
    cases h
    obtain ⟨hnames, hpaths⟩ := filesIn_spec hhere
    obtain ⟨inside, rfl, hinner⟩ :=
      belowEach_ways hextensions entries heach path place hpath inside hinside
    exact ⟨walk here inside, (map_along_walk hpaths).symm,
      hinner.walk hnodup hnames fun _ => filesIn_accepts hextensions hpath heach hhere⟩

theorem belowEach_ways (hextensions : extensions = (textsOf config.extensions).map Text.lower)
    (entries : List (Text × FileNode)) (hentries : FileNode.wellNamedEach entries) (path : Text)
    (place : List Text)
    (hpath : Path.namesFrom tree.home path = Path.namesFrom tree.home base ++ place)
    (found : List (Text × List Text))
    (h : belowEach config tree base extensions path entries = .ok found) :
    ∃ inside, found = inside.map (pathsInside path) ∧ InnerWays config place entries inside := by
  cases entries with
  | nil =>
    cases h
    exact ⟨[], rfl, .nil⟩
  | cons entry rest =>
    obtain ⟨k, n⟩ := entry
    simp only [FileNode.wellNamedEach, Bool.and_eq_true] at hentries
    obtain ⟨⟨hname, hn⟩, hrest⟩ := hentries
    have hothers := belowEach_ways hextensions rest hrest path place hpath
    cases n with
    | file bytes =>
      obtain ⟨inside, rfl, hinner⟩ := hothers found h
      exact ⟨inside, rfl, hinner.skip (.inl rfl)⟩
    | sink =>
      obtain ⟨inside, rfl, hinner⟩ := hothers found h
      exact ⟨inside, rfl, hinner.skip (.inl rfl)⟩
    | directory entries =>
      obtain ⟨ignored, hignored, h⟩ := bind_eq_ok.mp h
      obtain ⟨others, heach, h⟩ := bind_eq_ok.mp h
      obtain ⟨inside, rfl, hinner⟩ := hothers others heach
      have hprunes := ignoresDirectory_spec hname hpath hignored
      cases ignored with
      | true =>
        cases h
        exact ⟨inside, rfl, hinner.skip (.inr (hprunes.mp rfl))⟩
      | false =>
        obtain ⟨fs, hfs, h⟩ := bind_eq_ok.mp h
        cases h
        have hplace : Path.namesFrom tree.home (Path.join path k) =
            Path.namesFrom tree.home base ++ (place ++ [k]) := by
          rw [Path.namesFrom_join hname, hpath, List.append_assoc]
        obtain ⟨ways, rfl, hways⟩ :=
          below_ways hextensions (.directory entries) hn (Path.join path k) (place ++ [k]) hplace
            fs hfs
        have hentered : ¬Prunes config place k := fun h => absurd (hprunes.mpr h) (by decide)
        exact ⟨(k, ways) :: inside, rfl, hinner.enter rfl hentered hways⟩

end

end Discovery

end HouseStyle
