import HouseStyle.Files.Discovery
import HouseStyle.Proofs.Files.Place
import HouseStyle.Proofs.Text.Order

/-! The order in which files are covered. Each file that a run covers is at a place of its own. A copy
is kept under the longer name, and a file with that name comes later: what is worked on first is not
written again when the others are worked on. -/

namespace HouseStyle

/-! ### Names in order -/

theorem Text.compare_append_ne_isLE {s t : Text} (ht : t ≠ []) :
    (Text.compare (s ++ t) s).isLE = false := by
  induction s with
  | nil =>
    cases t with
    | nil => exact absurd rfl ht
    | cons a t => rfl
  | cons a s ih =>
    rw [List.cons_append, Text.compare, if_neg (Nat.lt_irrefl _), if_neg (Nat.lt_irrefl _)]
    exact ih

/-! ### Well-named trees -/

namespace FileNode

mutual

/-- Whether each directory below a node gives its entries names of their own, that paths can use. -/
def wellNamed : FileNode → Bool
  | file _ | sink => true
  | directory entries => decide (entries.map Prod.fst).Nodup && wellNamedEach entries

def wellNamedEach : List (Text × FileNode) → Bool
  | [] => true
  | (name, n) :: rest => Path.isName name && wellNamed n && wellNamedEach rest

end

variable {n m : FileNode} {name : Text} {names : List Text} {entries : List (Text × FileNode)}

theorem wellNamed_of_mem (h : wellNamedEach entries) (hmem : (name, n) ∈ entries) :
    Path.isName name ∧ n.wellNamed := by
  induction entries with
  | nil => cases hmem
  | cons entry rest ih =>
    obtain ⟨k, old⟩ := entry
    simp only [wellNamedEach, Bool.and_eq_true] at h
    rcases List.mem_cons.mp hmem with heq | hrest
    · cases heq
      exact h.1
    · exact ih h.2 hrest

theorem isName_of_mem (h : wellNamedEach entries) (hmem : name ∈ entries.map Prod.fst) :
    Path.isName name := by
  obtain ⟨⟨k, n⟩, hentry, rfl⟩ := List.mem_map.mp hmem
  exact (wellNamed_of_mem h hentry).1

theorem wellNamed_of_lookup (h : n.wellNamed) (hm : n.entries.lookup name = some m) :
    Path.isName name ∧ m.wellNamed := by
  cases n with
  | file bytes => cases hm
  | sink => cases hm
  | directory entries =>
    obtain ⟨before, after, hentries, -⟩ := List.lookup_eq_some_iff.mp hm
    simp only [wellNamed, Bool.and_eq_true] at h
    refine wellNamed_of_mem h.2 ?_
    rw [show entries = _ from hentries]
    simp

/-- What is in a well-named tree is well-named. -/
theorem wellNamed_of_find? (h : n.wellNamed) (hm : n.find? names = some m) : m.wellNamed := by
  induction names generalizing n with
  | nil =>
    cases hm
    exact h
  | cons name names ih =>
    obtain ⟨below, hbelow, hm⟩ := Option.bind_eq_some_iff.mp hm
    exact ih (wellNamed_of_lookup h hbelow).2 hm

/-- What leads to something in a well-named tree are names that paths can use. -/
theorem isName_of_find? (h : n.wellNamed) (hm : n.find? names = some m) :
    ∀ name ∈ names, Path.isName name := by
  induction names generalizing n with
  | nil => exact fun name hname => absurd hname List.not_mem_nil
  | cons name names ih =>
    obtain ⟨below, hbelow, hm⟩ := Option.bind_eq_some_iff.mp hm
    obtain ⟨hname, hwell⟩ := wellNamed_of_lookup h hbelow
    exact List.forall_mem_cons.mpr ⟨hname, ih hwell hm⟩

theorem names_insertEntry (name : Text) (n : FileNode) (entries : List (Text × FileNode)) :
    (insertEntry name n entries).map Prod.fst =
      if name ∈ entries.map Prod.fst then entries.map Prod.fst
      else entries.map Prod.fst ++ [name] := by
  induction entries with
  | nil => rfl
  | cons entry rest ih =>
    obtain ⟨k, old⟩ := entry
    rw [insertEntry]
    by_cases hk : k = name
    · simp [hk]
    · have hmem : name ∈ ((k, old) :: rest).map Prod.fst ↔ name ∈ rest.map Prod.fst := by
        rw [List.map_cons, List.mem_cons]
        exact or_iff_right (Ne.symm hk)
      rw [if_neg hk, List.map_cons, ih, if_congr hmem rfl rfl]
      split_ifs <;> rfl

theorem wellNamedEach_insertEntry (hname : Path.isName name) (hn : n.wellNamed)
    (h : wellNamedEach entries) : wellNamedEach (insertEntry name n entries) := by
  induction entries with
  | nil => simp [insertEntry, wellNamedEach, hname, hn]
  | cons entry rest ih =>
    obtain ⟨k, old⟩ := entry
    simp only [wellNamedEach, Bool.and_eq_true] at h
    rw [insertEntry]
    split_ifs with hk
    · simp [wellNamedEach, hk, hname, hn, h.2]
    · simp [wellNamedEach, h.1, ih h.2]

theorem wellNamed_entries (h : n.wellNamed) :
    (n.entries.map Prod.fst).Nodup ∧ wellNamedEach n.entries := by
  cases n with
  | file bytes => exact ⟨List.nodup_nil, rfl⟩
  | sink => exact ⟨List.nodup_nil, rfl⟩
  | directory entries =>
    rwa [wellNamed, Bool.and_eq_true, decide_eq_true_eq] at h

/-- A tree stays well-named when something is put along such names. -/
theorem wellNamed_insert {new : FileNode} (hnew : new.wellNamed) (h : n.wellNamed)
    (hnames : ∀ name ∈ names, Path.isName name) : (n.insert new names).wellNamed := by
  induction names generalizing n with
  | nil => exact hnew
  | cons name names ih =>
    obtain ⟨hname, hrest⟩ := List.forall_mem_cons.mp hnames
    obtain ⟨hnodup, heach⟩ := wellNamed_entries h
    have hbelow : ((n.entries.lookup name).getD (directory [])).wellNamed := by
      cases hlookup : n.entries.lookup name with
      | none => rfl
      | some below => exact (wellNamed_of_lookup h hlookup).2
    rw [insert_cons, wellNamed, Bool.and_eq_true, decide_eq_true_eq, names_insertEntry]
    refine ⟨?_, wellNamedEach_insertEntry hname (ih hbelow hrest) heach⟩
    split_ifs with hold
    · exact hnodup
    · rw [← List.concat_eq_append]
      exact (List.nodup_concat _ _).mpr ⟨hold, hnodup⟩

end FileNode

/-- A tree stays well-named whatever is written. -/
theorem FileTree.wellNamed_write {t t' : FileTree} {path : Text} {bytes : List UInt8}
    (h : t.root.wellNamed) (hwrite : t.write path bytes = .ok t') : t'.root.wellNamed := by
  obtain ⟨-, ⟨rfl, -⟩ | ⟨hroot, -, above, name, hnames, hname, d, hd, -⟩⟩ := write_spec hwrite
  · exact h
  · rw [hroot, hnames]
    refine FileNode.wellNamed_insert rfl h fun k hk => ?_
    rcases List.mem_append.mp hk with hk | hk
    · exact FileNode.isName_of_find? h hd k hk
    · rwa [List.mem_singleton.mp hk]

/-! ### Files below a directory -/

namespace Discovery

/-- What is put behind the path of a file for the copy of it. -/
def copySuffix : Text := ".bak"

/-- Whether the place of a file is neither the place of another one, nor of a copy of that. -/
def Before (home : List Text) (f g : Text) : Prop :=
  Path.namesFrom home f ≠ Path.namesFrom home g ∧
    Path.namesFrom home f ≠ Path.namesFrom home (g ++ copySuffix)

/-- Whether a file, and a copy of it, are together in some directory below a place. -/
def Under (home place : List Text) (f : Text) : Prop :=
  ∃ above name, Path.namesFrom home f = place ++ above ++ [name] ∧
    Path.namesFrom home (f ++ copySuffix) = place ++ above ++ [name ++ copySuffix]

variable {config : Config} {tree : FileTree} {base : Text} {extensions : List Text}
  {home place : List Text} {path name : Text} {entries : List (Text × FileNode)}

theorem namesFrom_join_copy (h : Path.isName name) :
    Path.namesFrom home (Path.join path name ++ copySuffix) =
      Path.namesFrom home path ++ [name ++ copySuffix] := by
  rw [Path.join_append, Path.namesFrom_join (Path.isName_append h (by decide) (by decide))]

/-- The files of a directory have the names of entries, in the order of the entries. -/
theorem filesIn_spec {found : List (Text × Text)}
    (h : filesIn config tree base extensions path entries = .ok found) :
    (found.map Prod.fst).Sublist (entries.map Prod.fst) ∧
      ∀ x ∈ found, x.2 = Path.join path x.1 := by
  induction entries generalizing found with
  | nil =>
    cases h
    exact ⟨.slnil, fun x hx => absurd hx List.not_mem_nil⟩
  | cons entry rest ih =>
    obtain ⟨k, n⟩ := entry
    cases n with
    | file bytes =>
      obtain ⟨covered, -, h⟩ := bind_eq_ok.mp h
      obtain ⟨others, hothers, h⟩ := bind_eq_ok.mp h
      cases h
      obtain ⟨hnames, hpaths⟩ := ih hothers
      cases covered with
      | false => exact ⟨hnames.cons k, hpaths⟩
      | true => exact ⟨hnames.cons_cons k, List.forall_mem_cons.mpr ⟨rfl, hpaths⟩⟩
    | directory _ => exact ⟨(ih h).1.cons k, (ih h).2⟩
    | sink => exact ⟨(ih h).1.cons k, (ih h).2⟩

theorem mem_byName {α : Type} {xs : List (Text × α)} {x : Text × α} : x ∈ byName xs ↔ x ∈ xs :=
  List.mem_mergeSort

theorem byName_distinct {α : Type} {xs : List (Text × α)} (h : (xs.map Prod.fst).Nodup) :
    (byName xs).Pairwise fun x y => x.1 ≠ y.1 := by
  rw [← List.pairwise_map, ← List.nodup_iff_pairwise_ne]
  exact ((List.mergeSort_perm xs _).map Prod.fst).nodup_iff.mpr h

/-- By name, entries with names of their own are in strict order. -/
theorem byName_sorted {α : Type} {xs : List (Text × α)} (h : (xs.map Prod.fst).Nodup) :
    (byName xs).Pairwise fun x y => Text.compare x.1 y.1 = .lt := by
  have hsorted : (byName xs).Pairwise fun x y => (Text.compare x.1 y.1).isLE :=
    @pairwise_mergeSort_of_transCmp _ (fun x y : Text × α => Text.compare x.1 y.1) _ xs
  exact ((byName_distinct h).and hsorted).imp fun ⟨hne, hle⟩ => Text.compare_eq_lt hle hne

/-- By name, no file of a directory is before one whose copy has its name. -/
theorem pairwise_filesIn {found : List (Text × Text)}
    (hnames : (found.map Prod.fst).Nodup) (hwell : ∀ x ∈ found, Path.isName x.1)
    (hpaths : ∀ x ∈ found, x.2 = Path.join path x.1) :
    ((byName found).map Prod.snd).Pairwise (Before home) := by
  rw [List.pairwise_map]
  refine (byName_sorted hnames).imp_of_mem fun {x y} hx hy hlt => ?_
  rw [mem_byName] at hx hy
  have hx' := hwell x hx
  have hy' := hwell y hy
  rw [hpaths x hx, hpaths y hy, Before, Path.namesFrom_join hx',
    Path.namesFrom_join hy', namesFrom_join_copy hy']
  refine ⟨fun heq => ?_, fun heq => ?_⟩
  · have hsame : x.1 = y.1 := by simpa using heq
    simp [hsame, Std.ReflCmp.compare_self] at hlt
  · have hlonger : x.1 = y.1 ++ copySuffix := by simpa using heq
    have hnot : (Text.compare (y.1 ++ copySuffix) y.1).isLE = false :=
      Text.compare_append_ne_isLE (by decide)
    rw [← hlonger, hlt] at hnot
    cases hnot

theorem Under.of_step {dname : Text} {f : Text} (h : Under home (place ++ [dname]) f) :
    Under home place f := by
  obtain ⟨above, name, hnames, hcopy⟩ := h
  exact ⟨dname :: above, name, by simp [hnames], by simp [hcopy]⟩

/-- Files of different directories are apart. -/
theorem Under.before {d e f g : Text} (hf : Under home (place ++ [d]) f)
    (hg : Under home (place ++ [e]) g) (hne : d ≠ e) : Before home f g := by
  obtain ⟨above, name, hnames, -⟩ := hf
  obtain ⟨above', name', hnames', hcopy'⟩ := hg
  rw [Before, hnames, hnames', hcopy']
  exact ⟨fun heq => hne (by simp at heq; exact heq.1), fun heq => hne (by simp at heq; exact heq.1)⟩

/-- By name, the files of the directories in a directory are apart. -/
theorem pairwise_belowEach {found : List (Text × List Text)} (hnames : (found.map Prod.fst).Nodup)
    (hfiles : ∀ x ∈ found, (∀ f ∈ x.2, Under home (place ++ [x.1]) f) ∧
      x.2.Pairwise (Before home)) :
    ((byName found).map Prod.snd).flatten.Pairwise (Before home) := by
  rw [List.pairwise_flatten, List.pairwise_map]
  refine ⟨fun fs hfs => ?_, (byName_distinct hnames).imp_of_mem fun {x y} hx hy hne f hf g hg => ?_⟩
  · obtain ⟨x, hx, rfl⟩ := List.mem_map.mp hfs
    exact (hfiles x (mem_byName.mp hx)).2
  · rw [mem_byName] at hx hy
    exact ((hfiles x hx).1 f hf).before ((hfiles y hy).1 g hg) hne

/-- A file of a directory is before all files below it. -/
theorem Under.before_of_step {d f g : Text} (hf : Path.namesFrom home f = place ++ [name])
    (hg : Under home (place ++ [d]) g) : Before home f g := by
  obtain ⟨above', name', hnames', hcopy'⟩ := hg
  rw [Before, hf, hnames', hcopy']
  refine ⟨fun heq => ?_, fun heq => ?_⟩
  all_goals
    have hlength := congrArg List.length heq
    simp only [List.length_append, List.length_cons, List.length_nil] at hlength
    omega

mutual

/-- The files below a directory are under it, and each is before all that come after it. -/
theorem below_spec (n : FileNode) (hn : n.wellNamed) (path : Text) (found : List Text)
    (h : below config tree base extensions path n = .ok found) :
    (∀ f ∈ found, Under home (Path.namesFrom home path) f) ∧ found.Pairwise (Before home) := by
  cases n with
  | file bytes =>
    cases h
    exact ⟨fun f hf => absurd hf List.not_mem_nil, .nil⟩
  | sink =>
    cases h
    exact ⟨fun f hf => absurd hf List.not_mem_nil, .nil⟩
  | directory entries =>
    simp only [FileNode.wellNamed, Bool.and_eq_true, decide_eq_true_eq] at hn
    obtain ⟨hnodup, heach⟩ := hn
    obtain ⟨inside, hinside, h⟩ := bind_eq_ok.mp h
    obtain ⟨here, hhere, h⟩ := bind_eq_ok.mp h
    cases h
    obtain ⟨hhereNames, hherePaths⟩ := filesIn_spec hhere
    obtain ⟨hinsideNames, hinsideFiles⟩ := belowEach_spec entries heach path inside hinside
    have hname {x : Text × Text} (hx : x ∈ here) : Path.isName x.1 :=
      FileNode.isName_of_mem heach (hhereNames.subset (List.mem_map_of_mem hx))
    have hfile {f : Text} (hf : f ∈ (byName here).map Prod.snd) :
        ∃ x ∈ here, f = Path.join path x.1 := by
      obtain ⟨x, hx, rfl⟩ := List.mem_map.mp hf
      exact ⟨x, mem_byName.mp hx, hherePaths x (mem_byName.mp hx)⟩
    have hdirectory {f : Text} (hf : f ∈ ((byName inside).map Prod.snd).flatten) :
        ∃ x ∈ inside, f ∈ x.2 := by
      obtain ⟨fs, hfs, hf⟩ := List.mem_flatten.mp hf
      obtain ⟨x, hx, rfl⟩ := List.mem_map.mp hfs
      exact ⟨x, mem_byName.mp hx, hf⟩
    refine ⟨fun f hf => ?_, List.pairwise_append.mpr ⟨?_, ?_, ?_⟩⟩
    · rcases List.mem_append.mp hf with hf | hf
      · obtain ⟨x, hx, rfl⟩ := hfile hf
        exact ⟨[], x.1, by rw [Path.namesFrom_join (hname hx), List.append_nil],
          by rw [namesFrom_join_copy (hname hx), List.append_nil]⟩
      · obtain ⟨x, hx, hf⟩ := hdirectory hf
        exact ((hinsideFiles x hx).1 f hf).of_step
    · exact pairwise_filesIn (hhereNames.nodup hnodup) (fun x hx => hname hx) hherePaths
    · exact pairwise_belowEach (hinsideNames.nodup hnodup) hinsideFiles
    · intro f hf g hg
      obtain ⟨x, hx, rfl⟩ := hfile hf
      obtain ⟨y, hy, hg⟩ := hdirectory hg
      exact Under.before_of_step (Path.namesFrom_join (hname hx) home path)
        ((hinsideFiles y hy).1 g hg)

theorem belowEach_spec (entries : List (Text × FileNode))
    (hentries : FileNode.wellNamedEach entries) (path : Text) (found : List (Text × List Text))
    (h : belowEach config tree base extensions path entries = .ok found) :
    (found.map Prod.fst).Sublist (entries.map Prod.fst) ∧ ∀ x ∈ found,
      (∀ f ∈ x.2, Under home (Path.namesFrom home path ++ [x.1]) f) ∧
        x.2.Pairwise (Before home) := by
  cases entries with
  | nil =>
    cases h
    exact ⟨.slnil, fun x hx => absurd hx List.not_mem_nil⟩
  | cons entry rest =>
    obtain ⟨k, n⟩ := entry
    simp only [FileNode.wellNamedEach, Bool.and_eq_true] at hentries
    obtain ⟨⟨hname, hn⟩, hrest⟩ := hentries
    cases n with
    | file bytes =>
      obtain ⟨hnames, hfound⟩ := belowEach_spec rest hrest path found h
      exact ⟨hnames.cons k, hfound⟩
    | sink =>
      obtain ⟨hnames, hfound⟩ := belowEach_spec rest hrest path found h
      exact ⟨hnames.cons k, hfound⟩
    | directory entries =>
      obtain ⟨ignored, -, h⟩ := bind_eq_ok.mp h
      obtain ⟨others, hothers, h⟩ := bind_eq_ok.mp h
      obtain ⟨hnames, hfound⟩ := belowEach_spec rest hrest path others hothers
      cases ignored with
      | true =>
        cases h
        exact ⟨hnames.cons k, hfound⟩
      | false =>
        obtain ⟨fs, hfs, h⟩ := bind_eq_ok.mp h
        cases h
        have hbelow := below_spec (.directory entries) hn (Path.join path k) fs hfs
        rw [Path.namesFrom_join hname] at hbelow
        exact ⟨hnames.cons_cons k, List.forall_mem_cons.mpr ⟨hbelow, hfound⟩⟩

end

end Discovery

/-- The files of a target are worked on in an order in which none is written again. -/
theorem discover_before {config : Config} {tree : FileTree} {target : Text} {files : List Text}
    (hwell : tree.root.wellNamed) (h : discover config tree target = .ok files) :
    files.Pairwise (Discovery.Before tree.home) := by
  unfold discover at h
  dsimp only at h
  split at h
  · cases h
  · cases h
    exact List.pairwise_singleton _ _
  · next n _ hnode =>
    obtain ⟨extensions, -, h⟩ := bind_eq_ok.mp h
    refine (Discovery.below_spec n ?_ _ files h).2
    unfold FileTree.node? at hnode
    split at hnode
    · next hlocate =>
      cases hnode
      exact FileNode.wellNamed_of_find? hwell (FileTree.locate_spec hlocate).2
    · cases hnode
    · cases hnode
  · obtain ⟨_, -, h⟩ := bind_eq_ok.mp h
    split_ifs at h
    cases h
    exact .nil

end HouseStyle
