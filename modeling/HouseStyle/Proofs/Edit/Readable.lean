import HouseStyle.Proofs.Edit.Patch
import HouseStyle.Proofs.Text.Lines

/-! The text of a diff. It has the lines of the diff one behind the other, without anything between
them, so it can be read where each line but the last brings its own ending. An old line without an
ending does not, if a new line follows it. -/

namespace HouseStyle.Diff

open Text

variable {old new : Array Text} {i j i' j' : Nat} {s : Stretch} {hunk stretches : List Stretch}

/-! ### Lines of a diff -/

/-- The lines of some text: each is one line, and each but the last has its ending. -/
def OfText (lines : Array Text) : Prop :=
  ∀ k line, lines[k]? = some line → keptLines line = [line] ∧ (k + 1 < lines.size → line.IsEnded)

theorem ofText_keptLines (t : Text) : OfText t.keptLines.toArray := by
  intro k line hline
  rw [List.getElem?_toArray] at hline
  refine ⟨keptLines_of_mem (List.mem_of_getElem? hline), fun hk => ?_⟩
  rw [List.size_toArray] at hk
  have hmem : line ∈ t.keptLines.dropLast := by
    refine List.mem_of_getElem? (i := k) ?_
    rw [List.getElem?_dropLast, if_pos (by omega), hline]
  exact isEnded_of_mem_dropLast hmem

theorem isLineEnd_of_mem_ofNat {n : Nat} : ∀ s ∈ Text.ofNat n, isLineEnd s = false := by
  intro s hs
  rw [Text.ofNat, Text.ofString, Nat.toList_repr] at hs
  obtain ⟨c, hc, rfl⟩ := List.mem_map.mp hs
  have hdigit := Nat.isDigit_of_mem_toDigits (by decide) (by decide) hc
  simp only [Char.isDigit, Bool.and_eq_true, decide_eq_true_eq, ge_iff_le, UInt32.le_iff_toNat_le]
    at hdigit
  have hlow : 48 ≤ c.toNat := hdigit.1
  have hhigh : c.toNat ≤ 57 := hdigit.2
  simp only [isLineEnd, Bool.or_eq_false_iff, Bool.and_eq_false_iff, decide_eq_false_iff_not]
  omega

theorem isLineEnd_of_mem_rangeText {low high : Nat} :
    ∀ s ∈ rangeText low high, isLineEnd s = false := by
  unfold rangeText
  dsimp only
  split_ifs
  · exact isLineEnd_of_mem_ofNat
  all_goals
    refine List.forall_mem_append.mpr ⟨List.forall_mem_append.mpr ⟨isLineEnd_of_mem_ofNat, ?_⟩,
      isLineEnd_of_mem_ofNat⟩
    decide

theorem keptLines_header (i i' j j' : Nat) :
    keptLines (header i i' j j') = [header i i' j j'] := by
  have hinner : ∀ s ∈ ("@@ -" ++ rangeText i i' ++ " +" ++ rangeText j j' ++ " @@" : Text),
      isLineEnd s = false := by
    simp only [List.forall_mem_append]
    exact ⟨⟨⟨⟨by decide, isLineEnd_of_mem_rangeText⟩, by decide⟩, isLineEnd_of_mem_rangeText⟩,
      by decide⟩
  have hheader : header i i' j j' =
      ("@@ -" ++ rangeText i i' ++ " +" ++ rangeText j j' ++ " @@" : Text) ++ [.char '\n'] := by
    simp only [header, List.append_assoc]
    rfl
  rw [hheader]
  exact (keptLines_append_of_inner hinner (by simp)).mpr (by decide)

theorem keptLines_stretchLines (hold : OfText old) (hnew : OfText new) :
    ∀ line ∈ stretchLines old new s, keptLines line = [line] := by
  have hmarked {lines : Array Text} (h : OfText lines) {mark : Char}
      (hmark : isLineEnd (.char mark) = false) {low high : Nat} :
      ∀ line ∈ linesOf lines mark low high, keptLines line = [line] := by
    intro line hline
    obtain ⟨rest, hrest, rfl⟩ := List.mem_map.mp hline
    obtain ⟨k, -, -, hk⟩ := mem_slice.mp hrest
    exact keptLines_cons_of_line hmark (h k rest hk).1
  unfold stretchLines
  split_ifs
  · exact hmarked hold (by decide)
  · exact List.forall_mem_append.mpr ⟨hmarked hold (by decide), hmarked hnew (by decide)⟩

/-! ### Endings -/

theorem IsEnded.cons {line : Text} (h : line.IsEnded) (mark : Sym) : IsEnded (mark :: line) := by
  refine (isEnded_cons ?_).mpr h
  rintro rfl
  obtain ⟨s, hs, -⟩ := h
  cases hs

theorem isEnded_of_mem_linesOf {lines : Array Text} (h : OfText lines) {mark : Char} {low high : Nat}
    (hhigh : high < lines.size) : ∀ line ∈ linesOf lines mark low high, line.IsEnded := by
  intro line hline
  obtain ⟨rest, hrest, rfl⟩ := List.mem_map.mp hline
  obtain ⟨k, -, hk, hline⟩ := mem_slice.mp hrest
  exact IsEnded.cons ((h k rest hline).2 (by omega)) _

theorem isEnded_of_mem_dropLast_linesOf {lines : Array Text} (h : OfText lines) {mark : Char}
    {low high : Nat} (hhigh : high ≤ lines.size) :
    ∀ line ∈ (linesOf lines mark low high).dropLast, line.IsEnded := by
  intro line hline
  obtain ⟨k, hk⟩ := List.mem_iff_getElem?.mp hline
  rw [linesOf, ← slice, List.getElem?_dropLast, List.length_map, length_slice hhigh] at hk
  split_ifs at hk with hlt
  rw [List.getElem?_map, Option.map_eq_some_iff] at hk
  obtain ⟨rest, hrest, rfl⟩ := hk
  rw [slice_eq, List.getElem?_take, if_pos (by omega), List.getElem?_drop, Array.getElem?_toList] at hrest
  exact IsEnded.cons ((h (low + k) rest hrest).2 (by omega)) _

/-- Stretches that end before the last line of both lists have lines with endings only. -/
theorem Tiles.isEnded (hold : OfText old) (hnew : OfText new)
    (h : Tiles old new i j i' j' stretches) (hi : i' < old.size) (hj : j' < new.size) :
    ∀ line ∈ stretches.flatMap (stretchLines old new), line.IsEnded := by
  induction stretches generalizing i j with
  | nil => simp
  | cons s rest ih =>
    obtain ⟨-, -, hfits, -, hrest⟩ := h
    have hle := hrest.le
    rw [List.flatMap_cons]
    refine List.forall_mem_append.mpr ⟨?_, ih hrest⟩
    unfold stretchLines
    split_ifs
    · exact isEnded_of_mem_linesOf hold (by omega)
    · exact List.forall_mem_append.mpr
        ⟨isEnded_of_mem_linesOf hold (by omega), isEnded_of_mem_linesOf hnew (by omega)⟩

/-- A stretch takes away the last old line and puts others in its place, only if that line has its
ending. -/
def ReplacesEnded (old : Array Text) (s : Stretch) : Prop :=
  s.equal = false → s.aLow < s.aHigh → s.bLow < s.bHigh →
    ∀ line, old[s.aHigh - 1]? = some line → line.IsEnded

theorem mem_dropLast_append {α : Type} {a : α} {xs ys : List α} (h : a ∈ (xs ++ ys).dropLast) :
    a ∈ xs ∨ a ∈ ys.dropLast := by
  by_cases hys : ys = []
  · rw [hys, List.append_nil] at h
    exact .inl (List.dropLast_subset _ h)
  · rwa [List.dropLast_append_of_ne_nil hys, List.mem_append] at h

/-- The lines of a change but the last have their endings. -/
theorem isEnded_stretchLines (hold : OfText old) (hnew : OfText new) (hfits : s.Fits old new)
    (hi : s.aHigh ≤ old.size) (hj : s.bHigh ≤ new.size) (hreplaces : ReplacesEnded old s) :
    ∀ line ∈ (stretchLines old new s).dropLast, line.IsEnded := by
  unfold stretchLines
  split_ifs with hs
  · exact isEnded_of_mem_dropLast_linesOf hold hi
  · rcases Nat.eq_or_lt_of_le hfits.b_le with hb | hb
    · have hnil : linesOf new '+' s.bLow s.bHigh = [] := by
        rw [linesOf, ← slice, hb, slice_self, List.map_nil]
      rw [hnil, List.append_nil]
      exact isEnded_of_mem_dropLast_linesOf hold hi
    · intro line hline
      rcases mem_dropLast_append hline with hline | hline
      · obtain ⟨rest, hrest, rfl⟩ := List.mem_map.mp hline
        obtain ⟨k, hlow, hhigh, hk⟩ := mem_slice.mp hrest
        refine IsEnded.cons ?_ _
        by_cases hlast : k + 1 < old.size
        · exact (hold k rest hk).2 hlast
        · refine hreplaces (Bool.eq_false_iff.mpr hs) (by omega) hb rest ?_
          rwa [show s.aHigh - 1 = k by omega]
      · exact isEnded_of_mem_dropLast_linesOf hnew hj line hline

/-- The lines of a stretch before another one all have their endings: behind an equal stretch there are
more old or new lines, which are equal there, and behind a change there are more of both. -/
theorem isEnded_of_next {t : Stretch} (hold : OfText old) (hnew : OfText new)
    (hfits : s.Fits old new) (ht : t.Fits old new) (hnext : s.equal = false → t.equal = true)
    (ha : s.aHigh = t.aLow) (hb : s.bHigh = t.bLow) (hi : t.aHigh ≤ old.size)
    (hj : t.bHigh ≤ new.size) : ∀ line ∈ stretchLines old new s, line.IsEnded := by
  have hale := ht.a_le
  have hble := ht.b_le
  intro line hline
  unfold stretchLines at hline
  split_ifs at hline with hequal
  · obtain ⟨haLow, hbHigh, hsame⟩ := hfits.same hequal
    have hslice := hsame.slice_eq
    rw [Nat.add_sub_cancel' hfits.a_le, ← hbHigh] at hslice
    have hlines : linesOf old ' ' s.aLow s.aHigh = linesOf new ' ' s.bLow s.bHigh := by
      rw [linesOf, linesOf]
      exact congrArg (List.map _) hslice
    have hroom : s.aHigh < old.size ∨ s.bHigh < new.size := by
      cases htequal : t.equal with
      | true =>
        have := (ht.same htequal).1
        omega
      | false =>
        have := ht.change htequal
        omega
    rcases hroom with hroom | hroom
    · exact isEnded_of_mem_linesOf hold hroom line hline
    · exact isEnded_of_mem_linesOf hnew hroom line (hlines ▸ hline)
  · obtain ⟨haLow, hbHigh, -⟩ := ht.same (hnext (Bool.eq_false_iff.mpr hequal))
    rcases List.mem_append.mp hline with hline | hline
    · exact isEnded_of_mem_linesOf hold (by omega) line hline
    · exact isEnded_of_mem_linesOf hnew (by omega) line hline

/-- Of stretches side by side no line but the last lacks its ending. -/
theorem Tiles.isEnded_dropLast (hold : OfText old) (hnew : OfText new)
    (h : Tiles old new i j i' j' stretches) (hi : i' ≤ old.size) (hj : j' ≤ new.size)
    (hreplaces : ∀ s ∈ stretches, ReplacesEnded old s) :
    ∀ line ∈ (stretches.flatMap (stretchLines old new)).dropLast, line.IsEnded := by
  induction stretches generalizing i j with
  | nil => simp
  | cons s rest ih =>
    obtain ⟨-, -, hfits, hnext, hrest⟩ := h
    obtain ⟨hs, hreplaces⟩ := List.forall_mem_cons.mp hreplaces
    have hle := hrest.le
    rw [List.flatMap_cons]
    cases rest with
    | nil =>
      rw [List.flatMap_nil, List.append_nil]
      exact isEnded_stretchLines hold hnew hfits (by omega) (by omega) hs
    | cons t rest =>
      have hmore := ih hrest hreplaces
      obtain ⟨hta, htb, htfits, -, htrest⟩ := hrest
      have htle := htrest.le
      intro line hline
      rcases mem_dropLast_append hline with hline | hline
      · exact isEnded_of_next hold hnew hfits htfits (fun hs => hnext hs t rfl) hta.symm htb.symm
          (by omega) (by omega) line hline
      · exact hmore line hline

theorem isEnded_header (i i' j j' : Nat) : IsEnded (header i i' j j') := by
  refine ⟨.char '\n', ?_, by decide⟩
  rw [header, List.getLast?_append]
  rfl

/-- Of hunks no line but the last lacks its ending. -/
theorem Parted.isEnded_dropLast {hunks : List (List Stretch)} (hold : OfText old) (hnew : OfText new)
    (h : Parted old new i j hunks) (hne : ∀ hunk ∈ hunks, hunk ≠ [])
    (hreplaces : ∀ hunk ∈ hunks, ∀ s ∈ hunk, ReplacesEnded old s) :
    ∀ line ∈ (hunks.flatMap (hunkLines old new)).dropLast, line.IsEnded := by
  induction hunks generalizing i j with
  | nil => simp
  | cons hunk rest ih =>
    obtain ⟨n, i', j', -, htiles, hend, hrest⟩ := h
    obtain ⟨hhunk, hne⟩ := List.forall_mem_cons.mp hne
    obtain ⟨hs, hreplaces⟩ := List.forall_mem_cons.mp hreplaces
    rw [List.flatMap_cons, hunkLines_tiles htiles hhunk]
    intro line hline
    rcases hend with rfl | hroom
    · rw [List.flatMap_nil, List.append_nil] at hline
      rcases mem_dropLast_cons.mp hline with ⟨rfl, -⟩ | hline
      · exact isEnded_header _ _ _ _
      · exact htiles.isEnded_dropLast hold hnew hrest.le.1 hrest.le.2 hs line hline
    · rcases mem_dropLast_append hline with hline | hline
      · rcases List.mem_cons.mp hline with rfl | hline
        · exact isEnded_header _ _ _ _
        · exact htiles.isEnded hold hnew hroom.1 hroom.2 line hline
      · exact ih hrest hne hreplaces line hline

/-! ### Glued lines -/

/-- A line that is taken away has no ending, and a line that is put follows it at once. -/
def Glues (lines : List Text) : Prop :=
  ∃ (before : List Text) (removed added : Text) (behind : List Text),
    lines = before ++ (.char '-' :: removed) :: (.char '+' :: added) :: behind ∧ ¬removed.IsEnded

theorem Glues.append {lines : List Text} (h : Glues lines) (before behind : List Text) :
    Glues (before ++ lines ++ behind) := by
  obtain ⟨before', removed, added, behind', rfl, hopen⟩ := h
  exact ⟨before ++ before', removed, added, behind' ++ behind, by simp, hopen⟩

theorem Glues.flatMap {α : Type} {a : α} {xs : List α} {f : α → List Text} (h : Glues (f a))
    (ha : a ∈ xs) : Glues (xs.flatMap f) := by
  obtain ⟨before, behind, rfl⟩ := List.append_of_mem ha
  rw [List.flatMap_append, List.flatMap_cons, ← List.append_assoc]
  exact h.append _ _

/-- Lines that each but the last have an ending are not glued. -/
theorem not_glues_of_isEnded {lines : List Text} (h : ∀ line ∈ lines.dropLast, line.IsEnded) :
    ¬Glues lines := by
  rintro ⟨before, removed, added, behind, rfl, hopen⟩
  have hended : IsEnded (.char '-' :: removed) := h _ (by simp)
  cases removed with
  | nil =>
    obtain ⟨s, hs, hend⟩ := hended
    obtain rfl := Option.some.inj hs
    exact absurd hend (by decide)
  | cons s removed => exact hopen ((isEnded_cons (List.cons_ne_nil _ _)).mp hended)

theorem slice_single {lines : Array Text} {k : Nat} {line : Text} (h : lines[k]? = some line) :
    slice lines k (k + 1) = [line] := by
  rw [← Array.getElem?_toList] at h
  obtain ⟨hk, rfl⟩ := List.getElem?_eq_some_iff.mp h
  rw [slice_eq, Nat.add_sub_cancel_left, List.drop_eq_getElem_cons hk]
  rfl

/-- A stretch with other lines in the place of a last old line without an ending is glued. -/
theorem glues_stretchLines (hj : s.bHigh ≤ new.size) (h : ¬ReplacesEnded old s) :
    Glues (stretchLines old new s) := by
  simp only [ReplacesEnded, not_forall] at h
  obtain ⟨hs, ha, hb, line, hline, hopen⟩ := h
  have hnew : new[s.bLow]? = some new[s.bLow] := Array.getElem?_eq_getElem (by omega)
  have hold : slice old s.aLow s.aHigh = slice old s.aLow (s.aHigh - 1) ++ [line] := by
    have hsingle := slice_single hline
    rw [Nat.sub_add_cancel (by omega)] at hsingle
    have hcut : s.aLow ≤ s.aHigh - 1 := by omega
    rw [← hsingle, slice_append hcut (Nat.sub_le _ _)]
  have hput : slice new s.bLow s.bHigh = new[s.bLow] :: slice new (s.bLow + 1) s.bHigh := by
    have hcut : slice new s.bLow (s.bLow + 1) ++ slice new (s.bLow + 1) s.bHigh =
        slice new s.bLow s.bHigh := slice_append (Nat.le_succ _) hb
    rw [← hcut, slice_single hnew]
    rfl
  refine ⟨(slice old s.aLow (s.aHigh - 1)).map (.char '-' :: ·), line, new[s.bLow],
    (slice new (s.bLow + 1) s.bHigh).map (.char '+' :: ·), ?_, hopen⟩
  rw [stretchLines, if_neg (by simp [hs]), linesOf, linesOf, ← slice, ← slice, hold, hput]
  simp

/-! ### The text of a diff -/

section

variable {path : Text}

/-- The hunks of two lists of lines. -/
def hunksOf (old new : Array Text) : List (List Stretch) :=
  hunks (stretchesFrom 0 0 old.size new.size (commonBlocks old new))

theorem unifiedLines_eq (old new : Array Text) (path : Text) :
    unifiedLines old new path = [] ∨ unifiedLines old new path =
      ("--- a/" ++ path ++ "\n") :: ("+++ b/" ++ path ++ "\n") ::
        (hunksOf old new).flatMap (hunkLines old new) := by
  rw [unifiedLines]
  generalize hbody : (hunks _).flatMap (hunkLines old new) = body
  split_ifs
  · exact .inl rfl
  · exact .inr (by rw [← hbody, hunksOf])

theorem mem_hunkLines {line : Text} (h : line ∈ hunkLines old new hunk) :
    (∃ i i' j j', line = header i i' j j') ∨ ∃ s ∈ hunk, line ∈ stretchLines old new s := by
  unfold hunkLines at h
  split at h
  · rcases List.mem_cons.mp h with rfl | h
    · exact .inl ⟨_, _, _, _, rfl⟩
    · exact .inr (List.mem_flatMap.mp h)
  · cases h

/-- The diff can be read if the path is on one line, and no last old line without an ending gives way
to others. -/
theorem keptLines_flatten_unifiedLines (hold : OfText old) (hnew : OfText new)
    (hpath : keptLines (path ++ "\n") = [path ++ "\n"])
    (hreplaces : ∀ hunk ∈ hunksOf old new, ∀ s ∈ hunk, ReplacesEnded old s) :
    keptLines (unifiedLines old new path).flatten = unifiedLines old new path := by
  rcases unifiedLines_eq old new path with hnil | hlines
  · rw [hnil]
    rfl
  have hname {mark : Text} (hmark : ∀ s ∈ mark, isLineEnd s = false) :
      keptLines (mark ++ path ++ "\n") = [mark ++ path ++ "\n"] ∧
        IsEnded (mark ++ path ++ "\n") := by
    refine ⟨?_, .char '\n', ?_, by decide⟩
    · rw [List.append_assoc]
      exact (keptLines_append_of_inner hmark (by simp [Text.ofString])).mpr hpath
    · rw [List.getLast?_append]
      rfl
  obtain ⟨hfrom, hfromEnded⟩ := @hname "--- a/" (by decide)
  obtain ⟨hto, htoEnded⟩ := @hname "+++ b/" (by decide)
  have hbody : ∀ line ∈ (hunksOf old new).flatMap (hunkLines old new),
      keptLines line = [line] ∧ line.head? ≠ some (.char '\n') := by
    intro line hline
    obtain ⟨hunk, -, hline⟩ := List.mem_flatMap.mp hline
    rcases mem_hunkLines hline with ⟨i, i', j, j', rfl⟩ | ⟨s, -, hline⟩
    · exact ⟨keptLines_header i i' j j', by rw [header]; simp [Text.ofString]⟩
    · refine ⟨keptLines_stretchLines hold hnew line hline, fun hhead => ?_⟩
      obtain ⟨mark, hmark, heq⟩ := head?_stretchLines line hline
      rw [hhead] at heq
      obtain rfl := Sym.char.inj (Option.some.inj heq)
      exact absurd hmark (by decide)
  have hended := hunks_parted.isEnded_dropLast hold hnew (hunks_ne_nil _) hreplaces
  rw [hlines]
  refine keptLines_flatten ?_ ?_ ?_
  · exact List.forall_mem_cons.mpr
      ⟨hfrom, List.forall_mem_cons.mpr ⟨hto, fun line h => (hbody line h).1⟩⟩
  · intro line hline
    rcases mem_dropLast_cons.mp hline with ⟨rfl, -⟩ | hline
    · exact hfromEnded
    rcases mem_dropLast_cons.mp hline with ⟨rfl, -⟩ | hline
    · exact htoEnded
    · exact hended line hline
  · refine List.forall_mem_cons.mpr ⟨?_, List.forall_mem_cons.mpr ⟨?_, fun line h => (hbody line h).2⟩⟩
    · simp [Text.ofString]
    · simp [Text.ofString]

/-- Of a diff that glues no lines, no last old line without an ending gives way to others. -/
theorem replacesEnded_of_not_glues (h : ¬Glues (unifiedLines old new path))
    (hne : unifiedLines old new path ≠ []) :
    ∀ hunk ∈ hunksOf old new, ∀ s ∈ hunk, ReplacesEnded old s := by
  intro hunk hhunk s hs
  by_contra hreplaces
  refine h ?_
  have hstretch := glues_stretchLines (hunks_parted.bounds hunk hhunk s hs) hreplaces
  have hlines : Glues (hunkLines old new hunk) := by
    have hhead := List.head?_eq_some_head (List.ne_nil_of_mem hs)
    have hlast := List.getLast?_eq_some_getLast (List.ne_nil_of_mem hs)
    rw [hunkLines, hhead, hlast]
    simpa using (hstretch.flatMap hs).append [_] []
  rw [(unifiedLines_eq old new path).resolve_left hne]
  simpa using (hlines.flatMap hhunk).append [_, _] []

/-- The lines of a diff, applied to the lines of the old text as a patch, give those of the new one. The
text of the diff has these lines exactly if there are none, or if the path is on one line and no old
line without an ending is followed by a new line; so always if the last old line has its ending. -/
theorem unified_readable (path old new : Text) :
    let lines := unifiedLines old.keptLines.toArray new.keptLines.toArray path
    let onOneLine := keptLines (path ++ "\n") = [path ++ "\n"]
    (patch? lines old.keptLines = some new.keptLines ∧ new.keptLines.flatten = new) ∧
      (keptLines (unified path old new) = lines ↔ lines = [] ∨ onOneLine ∧ ¬Glues lines) ∧
      (onOneLine → (∀ last ∈ old.keptLines.getLast?, last.IsEnded) →
        keptLines (unified path old new) = lines) := by
  intro lines onOneLine
  have hold := ofText_keptLines old
  have hnew := ofText_keptLines new
  refine ⟨⟨patch?_unifiedLines _ _ _, flatten_keptLines new⟩, ⟨fun h => ?_, ?_⟩, fun hpath hlast => ?_⟩
  · refine or_iff_not_imp_left.mpr fun hne => ⟨?_, ?_⟩
    · have hmem : ("--- a/" ++ path ++ "\n" : Text) ∈ keptLines (unified path old new) := by
        rw [h, show lines = _ from (unifiedLines_eq _ _ path).resolve_left hne]
        exact List.mem_cons_self
      have hline := keptLines_of_mem hmem
      rw [List.append_assoc] at hline
      exact (keptLines_append_of_inner (by decide) (by simp [Text.ofString])).mp hline
    · refine not_glues_of_isEnded fun line hline => ?_
      rw [← h] at hline
      exact isEnded_of_mem_dropLast hline
  · rintro (hnil | ⟨hpath, hglues⟩)
    · rw [unified, show unifiedLines _ _ path = [] from hnil, hnil]
      rfl
    · by_cases hne : lines = []
      · rw [unified, show unifiedLines _ _ path = [] from hne, hne]
        rfl
      · exact keptLines_flatten_unifiedLines hold hnew hpath (replacesEnded_of_not_glues hglues hne)
  · refine keptLines_flatten_unifiedLines hold hnew hpath fun hunk _ s _ _ _ _ line hline => ?_
    by_cases hmore : s.aHigh - 1 + 1 < old.keptLines.toArray.size
    · exact (hold _ line hline).2 hmore
    · rw [List.getElem?_toArray] at hline
      obtain ⟨hk, -⟩ := List.getElem?_eq_some_iff.mp hline
      rw [List.size_toArray] at hmore
      refine hlast line ?_
      rwa [List.getLast?_eq_getElem?, show old.keptLines.length - 1 = s.aHigh - 1 by omega]

end

end HouseStyle.Diff
