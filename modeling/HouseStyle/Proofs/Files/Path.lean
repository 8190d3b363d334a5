import HouseStyle.Files.Path
import Mathlib.Data.List.Basic
import Mathlib.Tactic.SplitIfs

/-! Names and paths. A path is its parts, with a slash between any two of them. A name put behind a
path leads one step further. What is put behind the last name of a path changes that name only. A tidy
path leads where the path leads, and the way from a path to what is below it is the names in between. -/

namespace HouseStyle

/-! ### Parts -/

namespace Text

variable {sep : Sym} {s t : Text}

theorem splitOn_ne_nil (sep : Sym) (t : Text) : t.splitOn sep ≠ [] := by
  cases t with
  | nil => exact List.cons_ne_nil _ _
  | cons c t =>
    rw [splitOn]
    split
    · exact List.cons_ne_nil _ _
    · split_ifs <;> exact List.cons_ne_nil _ _

theorem splitOn_cons {c : Sym} {part : Text} {rest : List Text} (h : t.splitOn sep = part :: rest) :
    splitOn sep (c :: t) = if c = sep then [] :: part :: rest else (c :: part) :: rest := by
  rw [splitOn, h]

theorem splitOn_eq_singleton (h : sep ∉ t) : t.splitOn sep = [t] := by
  induction t with
  | nil => rfl
  | cons c t ih =>
    rw [splitOn_cons (ih fun hmem => h (List.mem_cons_of_mem _ hmem)), if_neg]
    exact fun heq => h (heq ▸ List.mem_cons_self)

theorem notMem_of_mem_splitOn {part : Text} (h : part ∈ t.splitOn sep) : sep ∉ part := by
  induction t generalizing part with
  | nil =>
    obtain rfl := List.mem_singleton.mp h
    exact List.not_mem_nil
  | cons c t ih =>
    obtain ⟨first, rest, hsplit⟩ := List.exists_cons_of_ne_nil (splitOn_ne_nil sep t)
    rw [splitOn_cons hsplit] at h
    rw [hsplit] at ih
    split_ifs at h with hc
    · rcases List.mem_cons.mp h with rfl | h
      · exact List.not_mem_nil
      · exact ih h
    · rcases List.mem_cons.mp h with rfl | h
      · exact List.not_mem_cons_of_ne_of_not_mem (Ne.symm hc) (ih List.mem_cons_self)
      · exact ih (List.mem_cons_of_mem _ h)

/-- A separator parts what stands before it from what stands behind. -/
theorem splitOn_append_sep (s t : Text) :
    (s ++ sep :: t).splitOn sep = s.splitOn sep ++ t.splitOn sep := by
  induction s with
  | nil =>
    obtain ⟨part, rest, hsplit⟩ := List.exists_cons_of_ne_nil (splitOn_ne_nil sep t)
    rw [List.nil_append, splitOn_cons hsplit, if_pos rfl, hsplit]
    rfl
  | cons c s ih =>
    obtain ⟨part, rest, hsplit⟩ := List.exists_cons_of_ne_nil (splitOn_ne_nil sep s)
    rw [hsplit, List.cons_append] at ih
    rw [List.cons_append, splitOn_cons ih, splitOn_cons hsplit]
    split_ifs <;> rfl

/-- What is put behind a text without a separator in it goes to the last part. -/
theorem splitOn_append (ht : sep ∉ t) {above : List Text} {last : Text}
    (h : s.splitOn sep = above ++ [last]) : (s ++ t).splitOn sep = above ++ [last ++ t] := by
  by_cases hs : sep ∈ s
  · obtain ⟨back, front, hreverse, hback⟩ :=
      List.eq_append_cons_of_mem (List.mem_reverse.mpr hs)
    obtain rfl : s = front.reverse ++ sep :: back.reverse := by
      rw [← List.reverse_reverse s, hreverse]
      simp
    have hlast : sep ∉ back.reverse := fun hmem => hback (List.mem_reverse.mp hmem)
    rw [splitOn_append_sep, splitOn_eq_singleton hlast] at h
    obtain ⟨rfl, hsame⟩ := List.append_inj' h rfl
    obtain rfl := (List.cons.inj hsame).1
    have hlonger : sep ∉ back.reverse ++ t := fun hmem =>
      (List.mem_append.mp hmem).elim hlast ht
    rw [List.append_assoc, List.cons_append, splitOn_append_sep, splitOn_eq_singleton hlonger]
  · rw [splitOn_eq_singleton hs] at h
    obtain ⟨rfl, hsame⟩ := List.append_inj' (show [] ++ [s] = above ++ [last] from h) rfl
    obtain rfl := (List.cons.inj hsame).1
    exact splitOn_eq_singleton fun hmem => (List.mem_append.mp hmem).elim hs ht

/-- Parts without a separator in them are read back from what they join to. -/
theorem splitOn_joinWith {parts : List Text} (hne : parts ≠ []) (h : ∀ part ∈ parts, sep ∉ part) :
    splitOn sep (joinWith [sep] parts) = parts := by
  induction parts with
  | nil => exact absurd rfl hne
  | cons part parts ih =>
    obtain ⟨hpart, hparts⟩ := List.forall_mem_cons.mp h
    cases parts with
    | nil => exact splitOn_eq_singleton hpart
    | cons next parts =>
      rw [joinWith, List.append_assoc, List.singleton_append, splitOn_append_sep,
        splitOn_eq_singleton hpart, ih (List.cons_ne_nil _ _) hparts, List.singleton_append]
      simp

end Text

namespace Path

/-! ### Names -/

/-- Whether a part of a path leads into a directory, and to nothing else. -/
def isName (part : Text) : Bool :=
  !(part.isEmpty || part = dot || part = dotDot || part.contains slash)

variable {home names : List Text} {path base name : Text}

theorem slash_notMem (h : isName name) : slash ∉ name := by
  simp only [isName, Bool.not_eq_true', Bool.or_eq_false_iff] at h
  simpa using h.2

theorem step_of_isName (h : isName name) (names : List Text) :
    step names name = names ++ [name] := by
  simp only [isName, Bool.not_eq_true', Bool.or_eq_false_iff, decide_eq_false_iff_not] at h
  rw [step, if_neg h.1.2]

theorem filter_of_isName (h : isName name) :
    [name].filter (fun p => !(p.isEmpty || p = dot)) = [name] := by
  simp only [isName, Bool.not_eq_true', Bool.or_eq_false_iff, decide_eq_false_iff_not] at h
  rw [List.filter_cons_of_pos (by simp [h.1.1.1, h.1.1.2]), List.filter_nil]

theorem steps_join (h : isName name) (path : Text) :
    steps (join path name) = steps path ++ [name] := by
  have hname := Text.splitOn_eq_singleton (slash_notMem h)
  unfold join
  split_ifs with hbare
  · -- The last part of the path is empty, so the name takes its place.
    rw [Bool.or_eq_true, List.isEmpty_iff, decide_eq_true_eq] at hbare
    obtain ⟨above, hparts⟩ : ∃ above, parts path = above ++ [[]] := by
      rcases hbare with rfl | hlast
      · exact ⟨[], rfl⟩
      · obtain ⟨front, rfl⟩ := List.getLast?_eq_some_iff.mp hlast
        exact ⟨parts front, Text.splitOn_append_sep front []⟩
    have hjoined : parts (path ++ name) = above ++ [name] :=
      Text.splitOn_append (slash_notMem h) hparts
    rw [steps, steps, hparts, hjoined, List.filter_append, List.filter_append, filter_of_isName h]
    simp
  · have hjoined : parts (path ++ slash :: name) = parts path ++ [name] := by
      rw [parts, Text.splitOn_append_sep, hname]
      rfl
    rw [steps, steps, hjoined, List.filter_append, filter_of_isName h]

theorem isAbsolute_join (h : isName name) (path : Text) :
    isAbsolute (join path name) = isAbsolute path := by
  unfold join isAbsolute
  cases path with
  | nil =>
    have hhead : name.head? ≠ some slash := fun hhead => slash_notMem h (List.mem_of_head? hhead)
    simpa using hhead
  | cons s path => split_ifs <;> simp

/-- A name behind a path leads one step further. -/
theorem namesFrom_join (h : isName name) (home : List Text) (path : Text) :
    namesFrom home (join path name) = namesFrom home path ++ [name] := by
  rw [namesFrom, steps_join h, isAbsolute_join h, List.foldl_append]
  exact step_of_isName h _

/-! ### Suffixes -/

/-- What is put behind a name makes a longer one. -/
theorem isName_append (h : isName name) {t : Text} (ht : slash ∉ t) (hlength : 1 < t.length) :
    isName (name ++ t) := by
  have hslash := slash_notMem h
  simp only [isName, Bool.not_eq_true', Bool.or_eq_false_iff, decide_eq_false_iff_not] at h ⊢
  obtain ⟨⟨⟨hne, -⟩, -⟩, -⟩ := h
  have hpos : 0 < name.length := List.length_pos_of_ne_nil fun hnil => by simp [hnil] at hne
  have hlong (short : Text) (hshort : short.length ≤ 2) : name ++ t ≠ short := by
    rintro rfl
    rw [List.length_append] at hshort
    omega
  refine ⟨⟨⟨?_, hlong dot (by decide)⟩, hlong dotDot (by decide)⟩, ?_⟩
  · simpa using fun hnil => absurd hnil (List.ne_nil_of_length_pos hpos)
  · simp [hslash, ht]

theorem join_append (path name t : Text) : join path name ++ t = join path (name ++ t) := by
  unfold join
  split_ifs <;> simp

/-- What is put behind a path makes its last name longer. -/
theorem namesFrom_append {above : List Text} (hparts : parts path = above ++ [name])
    (h : isName name) {t : Text} (ht : slash ∉ t) (hlength : 1 < t.length) :
    ∃ names, namesFrom home path = names ++ [name] ∧
      namesFrom home (path ++ t) = names ++ [name ++ t] := by
  have hlonger := isName_append h ht hlength
  have hparts' : parts (path ++ t) = above ++ [name ++ t] := Text.splitOn_append ht hparts
  have habsolute : isAbsolute (path ++ t) = isAbsolute path := by
    cases path with
    | nil =>
      have hsingle : [[]] = above ++ [name] := hparts
      have hname : name = [] := by
        have := congrArg List.getLast? hsingle
        simpa using this.symm
      subst hname
      cases h
    | cons s path => rfl
  refine ⟨(above.filter fun p => !(p.isEmpty || p = dot)).foldl step
    (if isAbsolute path then [] else home), ?_, ?_⟩
  · rw [namesFrom, steps, hparts, List.filter_append, filter_of_isName h, List.foldl_append]
    exact step_of_isName h _
  · rw [namesFrom, steps, hparts', List.filter_append, filter_of_isName hlonger, List.foldl_append,
      habsolute]
    exact step_of_isName hlonger _

/-! ### Tidy paths -/

/-- The parts that lead anywhere, behind some slashes, are those of a path. -/
theorem steps_rooted {root : Text} (hroot : root = [] ∨ root = [slash] ∨ root = [slash, slash])
    (path : Text) : steps (root ++ Text.joinWith [slash] (steps path)) = steps path := by
  have hslash : ∀ part ∈ steps path, slash ∉ part := fun part hpart =>
    Text.notMem_of_mem_splitOn (List.mem_filter.mp hpart).1
  have hjoined : steps (Text.joinWith [slash] (steps path)) = steps path := by
    by_cases hnil : steps path = []
    · rw [hnil]
      rfl
    · rw [steps, parts, Text.splitOn_joinWith hnil hslash, steps, List.filter_filter]
      simp
  have hsep (t : Text) : steps (slash :: t) = steps t := by
    have hparts : parts (slash :: t) = [[]] ++ parts t := Text.splitOn_append_sep [] t
    rw [steps, hparts, List.filter_append]
    rfl
  rcases hroot with rfl | rfl | rfl
  · exact hjoined
  · exact (hsep _).trans hjoined
  · exact (hsep _).trans ((hsep _).trans hjoined)

/-- No path that starts with what leads anywhere starts at the root. -/
theorem isAbsolute_joinWith_steps (path : Text) :
    isAbsolute (Text.joinWith [slash] (steps path)) = false := by
  cases hsteps : steps path with
  | nil => rfl
  | cons part rest =>
    have hpart : part ∈ steps path := hsteps ▸ List.mem_cons_self
    obtain ⟨hmem, hleads⟩ := List.mem_filter.mp hpart
    cases part with
    | nil => cases hleads
    | cons s part =>
      have hs : s ≠ slash := fun h => Text.notMem_of_mem_splitOn hmem (h ▸ List.mem_cons_self)
      cases rest <;> simpa [isAbsolute, Text.joinWith] using hs

theorem isAbsolute_iff_takeWhile :
    isAbsolute path = false ↔ (path.takeWhile (· = slash)).length = 0 := by
  cases path with
  | nil => simp [isAbsolute]
  | cons s path =>
    by_cases hs : s = slash
    · simp [isAbsolute, hs]
    · simp [isAbsolute, hs]

/-- A tidy path has the same parts and the same beginning. -/
theorem tidy_spec (path : Text) :
    steps (tidy path) = steps path ∧ isAbsolute (tidy path) = isAbsolute path := by
  cases habsolute : isAbsolute path with
  | false =>
    have hnone := isAbsolute_iff_takeWhile.mp habsolute
    have htidy : tidy path = if (Text.joinWith [slash] (steps path)).isEmpty then dot
        else Text.joinWith [slash] (steps path) := by
      simp only [tidy, hnone, if_pos]
      rfl
    rw [htidy]
    split_ifs with hempty
    · have hsteps := steps_rooted (.inl rfl) path
      rw [List.isEmpty_iff.mp hempty] at hsteps
      exact ⟨hsteps, rfl⟩
    · exact ⟨steps_rooted (.inl rfl) path, isAbsolute_joinWith_steps path⟩
  | true =>
    have hsome : (path.takeWhile (· = slash)).length ≠ 0 := fun h => by
      rw [isAbsolute_iff_takeWhile.mpr h] at habsolute
      cases habsolute
    obtain ⟨root, hroot, hhead, htidy⟩ : ∃ root : Text, (root = [slash] ∨ root = [slash, slash]) ∧
        root.head? = some slash ∧ tidy path = root ++ Text.joinWith [slash] (steps path) := by
      by_cases htwo : (path.takeWhile (· = slash)).length = 2
      · exact ⟨[slash, slash], .inr rfl, rfl, by simp [tidy, htwo]⟩
      · exact ⟨[slash], .inl rfl, rfl, by simp [tidy, hsome, htwo]⟩
    rw [htidy]
    exact ⟨steps_rooted (.inr hroot) path, by simp [isAbsolute, List.head?_append, hhead]⟩

/-- A tidy path leads to where the path leads. -/
theorem namesFrom_tidy (home : List Text) (path : Text) :
    namesFrom home (tidy path) = namesFrom home path := by
  rw [namesFrom, namesFrom, (tidy_spec path).1, (tidy_spec path).2]

/-! ### Below a path -/

/-- The path along some names below a path. -/
def along (path : Text) (names : List Text) : Text := names.foldl join path

theorem namesFrom_along (h : ∀ name ∈ names, isName name) (home : List Text) (path : Text) :
    namesFrom home (along path names) = namesFrom home path ++ names := by
  induction names generalizing path with
  | nil => rw [along, List.foldl_nil, List.append_nil]
  | cons name names ih =>
    obtain ⟨hname, hnames⟩ := List.forall_mem_cons.mp h
    rw [along, List.foldl_cons, ← along, ih hnames, namesFrom_join hname, List.append_assoc,
      List.singleton_append]

theorem baseName_join (h : isName name) (path : Text) : baseName (join path name) = name := by
  have hname : ∀ s ∈ name.reverse, s ≠ slash := fun s hs heq =>
    slash_notMem h (heq ▸ List.mem_reverse.mp hs)
  unfold baseName join
  split_ifs with hbare
  · rw [List.reverse_append, List.takeWhile_append_of_pos fun s hs => by simpa using hname s hs]
    rw [Bool.or_eq_true, List.isEmpty_iff, decide_eq_true_eq] at hbare
    rcases hbare with rfl | hlast
    · simp
    · obtain ⟨front, rfl⟩ := List.getLast?_eq_some_iff.mp hlast
      simp
  · rw [List.reverse_append, List.reverse_cons, List.append_assoc,
      List.takeWhile_append_of_pos fun s hs => by simpa using hname s hs]
    simp

theorem join_ne_nil (h : isName name) (path : Text) : join path name ≠ [] := by
  intro hnil
  have hbase := baseName_join h path
  rw [hnil] at hbase
  subst hbase
  cases h

theorem dropCommon_append (names more : List Text) : dropCommon (names ++ more) names = (more, []) := by
  induction names with
  | nil => cases more <;> rfl
  | cons name names ih => rw [List.cons_append, dropCommon, if_pos rfl, ih]

/-- What is below a place is named by the names on the way. -/
theorem relative_of_namesFrom (hpath : namesFrom home path = namesFrom home base ++ names)
    (hne : names ≠ []) : relative home path base = Text.joinWith [slash] names := by
  rw [relative, hpath, dropCommon_append]
  simp [hne]

end Path

end HouseStyle
