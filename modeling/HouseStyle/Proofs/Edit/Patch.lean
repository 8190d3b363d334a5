import HouseStyle.Proofs.Edit.Aligned
import Mathlib.Data.List.Basic

/-! Diffs as patches. A reader takes the hunks of a diff line by line, checks them against the old lines,
and puts what they say in the place of the ranges that they name. That gives the new lines. -/

namespace HouseStyle.Diff

open Text

/-! ### Reading a diff -/

/-- A hunk as it is read: its ranges by what comes before them and by their sizes, and its marked
lines. -/
structure Hunk where
  oldLow : Nat
  oldSize : Nat
  newLow : Nat
  newSize : Nat
  lines : List Text
  deriving DecidableEq, Repr

/-- The lines with one of some marks, without the mark. -/
def unmarked (marks : List Char) (lines : List Text) : List Text :=
  lines.filterMap fun
    | .char c :: line => if c ∈ marks then some line else none
    | _ => none

namespace Hunk

/-- The lines that a hunk says are there. -/
def taken (h : Hunk) : List Text := unmarked [' ', '-'] h.lines

/-- The lines that a hunk puts in their place. -/
def put (h : Hunk) : List Text := unmarked [' ', '+'] h.lines

end Hunk

/-- The digit that a symbol is. -/
def digit? : Sym → Option Char
  | .char c => if c.isDigit then some c else none
  | _ => none

/-- The number that a text begins with, and what comes behind it. -/
def numberAt (t : Text) : Nat × Text :=
  (Nat.ofDigitChars 10 ((t.takeWhile fun s => (digit? s).isSome).filterMap digit?) 0,
    t.dropWhile fun s => (digit? s).isSome)

/-- The range that a text begins with, by what comes before it and by its size. An empty range names
the line before it, any other one its first line. -/
def rangeAt (t : Text) : (Nat × Nat) × Text :=
  match numberAt t with
  | (n, .char ',' :: rest) =>
    let (size, rest) := numberAt rest
    ((if size = 0 then n else n - 1, size), rest)
  | (n, rest) => ((n - 1, 1), rest)

/-- The ranges that the line before a hunk names. -/
def ranges? : Text → Option ((Nat × Nat) × (Nat × Nat))
  | .char '@' :: .char '@' :: .char ' ' :: .char '-' :: t =>
    match rangeAt t with
    | (old, .char ' ' :: .char '+' :: t) =>
      let (new, rest) := rangeAt t
      if rest = " @@\n" then some (old, new) else none
    | _ => none
  | _ => none

/-- One line more in front of hunks, and of lines that belong to the hunk before them. -/
def readLine (line : Text) (read : Option (List Hunk × List Text)) :
    Option (List Hunk × List Text) := do
  let (hunks, lines) ← read
  if line.head? = some (.char '@') then
    let (old, new) ← ranges? line
    return (⟨old.1, old.2, new.1, new.2, lines⟩ :: hunks, [])
  else return (hunks, line :: lines)

def readHunks? (lines : List Text) : Option (List Hunk) :=
  match lines.foldr readLine (some ([], [])) with
  | some (hunks, []) => some hunks
  | _ => none

/-- The new lines from line `j` on, from hunks and the old lines from line `i` on. There are none if a
hunk does not fit. -/
def patchFrom? (i j : Nat) (lines : List Text) : List Hunk → Option (List Text)
  | [] => some lines
  | h :: rest =>
    let gap := h.oldLow - i
    if i ≤ h.oldLow ∧ h.newLow = j + gap ∧ h.taken.length = h.oldSize ∧ h.put.length = h.newSize ∧
        h.taken = (lines.drop gap).take h.oldSize then
      (patchFrom? (h.oldLow + h.oldSize) (h.newLow + h.newSize) (lines.drop (gap + h.oldSize))
        rest).map (lines.take gap ++ h.put ++ ·)
    else none

/-- What the lines of a diff make of the old lines. -/
def patch? (diff old : List Text) : Option (List Text) :=
  match diff with
  | [] => some old
  | before :: after :: body =>
    if before.take 4 = "--- " ∧ after.take 4 = "+++ " then
      (readHunks? body).bind (patchFrom? 0 0 old)
    else none
  | _ => none

/-! ### Ranges -/

theorem numberAt_ofNat (n : Nat) {rest : Text} (h : ∀ s ∈ rest.head?, digit? s = none) :
    numberAt (Text.ofNat n ++ rest) = (n, rest) := by
  have hofNat : Text.ofNat n = (Nat.toDigits 10 n).map .char := by
    rw [Text.ofNat, Text.ofString, Nat.toList_repr]
  have hdigit {c : Char} (hc : c ∈ Nat.toDigits 10 n) : digit? (.char c) = some c :=
    if_pos (Nat.isDigit_of_mem_toDigits (by decide) (by decide) hc)
  have hdigits : ∀ s ∈ Text.ofNat n, (digit? s).isSome = true := by
    rw [hofNat]
    refine List.forall_mem_map.mpr fun c hc => ?_
    rw [hdigit hc]
    rfl
  have hrest : rest.takeWhile (fun s => (digit? s).isSome) = [] ∧
      rest.dropWhile (fun s => (digit? s).isSome) = rest := by
    cases rest with
    | nil => exact ⟨rfl, rfl⟩
    | cons s rest => simp [h s rfl]
  have hvalue : (Text.ofNat n).filterMap digit? = Nat.toDigits 10 n := by
    rw [hofNat, List.filterMap_map]
    calc (Nat.toDigits 10 n).filterMap (digit? ∘ .char)
        = (Nat.toDigits 10 n).filterMap some := List.filterMap_congr fun c hc => hdigit hc
      _ = Nat.toDigits 10 n := List.filterMap_some
  rw [numberAt, List.takeWhile_append_of_pos hdigits, List.dropWhile_append_of_pos hdigits, hrest.1,
    hrest.2, List.append_nil, hvalue, Nat.ofDigitChars_toDigits (by decide) (by decide)]

/-- A range is read as it was written. -/
theorem rangeAt_rangeText (low high : Nat) (rest : Text) :
    rangeAt (rangeText low high ++ .char ' ' :: rest) = ((low, high - low), .char ' ' :: rest) := by
  have hblank : ∀ s ∈ (Sym.char ' ' :: rest).head?, digit? s = none := by
    rintro s hs
    obtain rfl := Option.some.inj hs
    rfl
  have hcomma (more : Text) : ∀ s ∈ (Sym.char ',' :: more).head?, digit? s = none := by
    rintro s hs
    obtain rfl := Option.some.inj hs
    rfl
  rw [rangeText]
  by_cases hone : high - low = 1
  · rw [if_pos hone, rangeAt, numberAt_ofNat _ hblank, hone]
    rfl
  · have hcons (n size : Nat) : Text.ofNat n ++ "," ++ Text.ofNat size ++ .char ' ' :: rest =
        Text.ofNat n ++ .char ',' :: (Text.ofNat size ++ .char ' ' :: rest) := by
      rw [List.append_assoc, List.append_assoc]
      rfl
    rw [if_neg hone, hcons, rangeAt, numberAt_ofNat _ (hcomma _)]
    simp only [numberAt_ofNat _ hblank]
    split_ifs <;> simp

/-- The line before a hunk. -/
def header (aLow aHigh bLow bHigh : Nat) : Text :=
  "@@ -" ++ rangeText aLow aHigh ++ " +" ++ rangeText bLow bHigh ++ " @@\n"

theorem ranges?_header (aLow aHigh bLow bHigh : Nat) :
    ranges? (header aLow aHigh bLow bHigh) =
      some ((aLow, aHigh - aLow), (bLow, bHigh - bLow)) := by
  have hheader : header aLow aHigh bLow bHigh =
      .char '@' :: .char '@' :: .char ' ' :: .char '-' ::
        (rangeText aLow aHigh ++ .char ' ' :: .char '+' ::
          (rangeText bLow bHigh ++ .char ' ' :: .char '@' :: .char '@' :: .char '\n' :: [])) := by
    rw [header]
    simp only [List.append_assoc]
    rfl
  rw [hheader, ranges?]
  simp only [rangeAt_rangeText]
  rfl

/-! ### Slices -/

/-- The lines from one place up to another. -/
def slice (lines : Array Text) (low high : Nat) : List Text := (lines.extract low high).toList

variable {old new lines : Array Text} {i j i' j' : Nat} {s : Stretch} {hunk stretches : List Stretch}

theorem slice_eq (low high : Nat) : slice lines low high = (lines.toList.drop low).take (high - low) := by
  rw [slice, Array.toList_extract, List.extract_eq_take_drop]

theorem slice_self (low : Nat) : slice lines low low = [] := by
  rw [slice_eq, Nat.sub_self, List.take_zero]

theorem slice_append {low middle high : Nat} (h : low ≤ middle) (h' : middle ≤ high) :
    slice lines low middle ++ slice lines middle high = slice lines low high := by
  rw [slice, slice, slice, ← Array.toList_append, Array.extract_append_extract,
    Nat.min_eq_left h, Nat.max_eq_right h']

theorem length_slice {low high : Nat} (h : high ≤ lines.size) :
    (slice lines low high).length = high - low := by
  rw [slice, Array.length_toList, Array.size_extract, Nat.min_eq_left h]

theorem mem_slice {low high : Nat} {line : Text} :
    line ∈ slice lines low high ↔ ∃ k, low ≤ k ∧ k < high ∧ lines[k]? = some line := by
  rw [slice_eq, List.mem_iff_getElem?]
  simp only [List.getElem?_take, List.getElem?_drop, Array.getElem?_toList]
  constructor
  · rintro ⟨k, hk⟩
    split_ifs at hk with hlt
    exact ⟨low + k, by omega, by omega, hk⟩
  · rintro ⟨k, hlow, hhigh, hk⟩
    refine ⟨k - low, ?_⟩
    rw [if_pos (by omega), Nat.add_sub_cancel' hlow, hk]

theorem slice_append_drop {low high : Nat} (h : low ≤ high) :
    slice lines low high ++ lines.toList.drop high = lines.toList.drop low := by
  rw [slice_eq]
  conv => lhs; arg 2; rw [← Nat.add_sub_cancel' h, ← List.drop_drop]
  exact List.take_append_drop _ _

/-- Equal lines make equal slices. -/
theorem Alike.slice_eq {n : Nat} (h : Alike old new i j n) :
    slice old i (i + n) = slice new j (j + n) := by
  rw [Diff.slice_eq, Diff.slice_eq, Nat.add_sub_cancel_left, Nat.add_sub_cancel_left]
  refine List.ext_getElem? fun k => ?_
  simp only [List.getElem?_take, List.getElem?_drop, Array.getElem?_toList]
  split_ifs with hk
  · obtain ⟨line, hold, hnew⟩ := sameLine_iff.mp (h k hk)
    rw [hold, hnew]
  · rfl

/-! ### Lines of hunks -/

theorem unmarked_append (marks : List Char) (xs ys : List Text) :
    unmarked marks (xs ++ ys) = unmarked marks xs ++ unmarked marks ys := List.filterMap_append

theorem unmarked_linesOf (marks : List Char) (lines : Array Text) (mark : Char) (low high : Nat) :
    unmarked marks (linesOf lines mark low high) =
      if mark ∈ marks then slice lines low high else [] := by
  rw [unmarked, linesOf, List.filterMap_map, slice]
  split_ifs with h <;> simp [h]

/-- A stretch has the old lines in its range, and puts the new ones. -/
theorem unmarked_stretchLines (h : s.Fits old new) :
    unmarked [' ', '-'] (stretchLines old new s) = slice old s.aLow s.aHigh ∧
      unmarked [' ', '+'] (stretchLines old new s) = slice new s.bLow s.bHigh := by
  unfold stretchLines
  split_ifs with hs
  · obtain ⟨ha, hb, hsame⟩ := h.same hs
    have hslice := hsame.slice_eq
    rw [Nat.add_sub_cancel' h.a_le, ← hb] at hslice
    simp [unmarked_linesOf, hslice]
  · simp [unmarked_append, unmarked_linesOf]

theorem unmarked_tiles (h : Tiles old new i j i' j' stretches) :
    unmarked [' ', '-'] (stretches.flatMap (stretchLines old new)) = slice old i i' ∧
      unmarked [' ', '+'] (stretches.flatMap (stretchLines old new)) = slice new j j' := by
  induction stretches generalizing i j with
  | nil =>
    obtain ⟨rfl, rfl⟩ := h
    exact ⟨(slice_self i).symm, (slice_self j).symm⟩
  | cons s rest ih =>
    obtain ⟨rfl, rfl, hfits, -, hrest⟩ := h
    obtain ⟨hold, hnew⟩ := unmarked_stretchLines hfits
    obtain ⟨holdRest, hnewRest⟩ := ih hrest
    rw [List.flatMap_cons, unmarked_append, unmarked_append, hold, hnew, holdRest, hnewRest]
    exact ⟨slice_append hfits.a_le hrest.le.1, slice_append hfits.b_le hrest.le.2⟩

theorem Tiles.head (h : Tiles old new i j i' j' stretches) (hs : stretches.head? = some s) :
    s.aLow = i ∧ s.bLow = j := by
  cases stretches with
  | nil => cases hs
  | cons t rest =>
    obtain rfl := Option.some.inj hs
    exact ⟨h.1, h.2.1⟩

theorem Tiles.last (h : Tiles old new i j i' j' stretches) (hs : stretches.getLast? = some s) :
    s.aHigh = i' ∧ s.bHigh = j' := by
  induction stretches generalizing i j with
  | nil => cases hs
  | cons t rest ih =>
    cases rest with
    | nil =>
      obtain rfl := Option.some.inj hs
      exact h.2.2.2.2
    | cons u rest => exact ih h.2.2.2.2 (by rwa [List.getLast?_cons_cons] at hs)

/-- A hunk begins with the ranges of the lines that it has. -/
theorem hunkLines_tiles (h : Tiles old new i j i' j' hunk) (hne : hunk ≠ []) :
    hunkLines old new hunk = header i i' j j' :: hunk.flatMap (stretchLines old new) := by
  have hhead := List.head?_eq_some_head hne
  have hlast := List.getLast?_eq_some_getLast hne
  obtain ⟨ha, hb⟩ := h.head hhead
  obtain ⟨ha', hb'⟩ := h.last hlast
  rw [hunkLines, hhead, hlast]
  dsimp only
  rw [ha, hb, ha', hb', header]

theorem Parted.le {hunks : List (List Stretch)} (h : Parted old new i j hunks) :
    i ≤ old.size ∧ j ≤ new.size := by
  induction hunks generalizing i j with
  | nil =>
    obtain ⟨n, hold, hnew, -⟩ := h
    omega
  | cons hunk rest ih =>
    obtain ⟨n, i', j', -, htiles, -, hrest⟩ := h
    have := htiles.le
    have := ih hrest
    omega

theorem Parted.bounds {hunks : List (List Stretch)} (h : Parted old new i j hunks) :
    ∀ hunk ∈ hunks, ∀ s ∈ hunk, s.bHigh ≤ new.size := by
  have htiles {i j i' j' : Nat} {stretches : List Stretch}
      (h : Tiles old new i j i' j' stretches) : ∀ s ∈ stretches, s.bHigh ≤ j' := by
    induction stretches generalizing i j with
    | nil => simp
    | cons t rest ih =>
      exact List.forall_mem_cons.mpr ⟨h.2.2.2.2.le.2, ih h.2.2.2.2⟩
  induction hunks generalizing i j with
  | nil => simp
  | cons hunk rest ih =>
    obtain ⟨n, i', j', -, hhunk, -, hrest⟩ := h
    refine List.forall_mem_cons.mpr ⟨fun s hs => ?_, ih hrest⟩
    exact Nat.le_trans (htiles hhunk s hs) hrest.le.2

/-! ### Patching -/

/-- A marked line is no line before a hunk. -/
theorem head?_stretchLines : ∀ line ∈ stretchLines old new s,
    ∃ mark ∈ [' ', '-', '+'], line.head? = some (.char mark) := by
  have hmark (lines : Array Text) (mark : Char) (low high : Nat) :
      ∀ line ∈ linesOf lines mark low high, line.head? = some (.char mark) := by
    intro line hline
    obtain ⟨rest, -, rfl⟩ := List.mem_map.mp hline
    rfl
  intro line hline
  unfold stretchLines at hline
  split_ifs at hline
  · exact ⟨' ', by simp, hmark _ _ _ _ line hline⟩
  · rcases List.mem_append.mp hline with hline | hline
    · exact ⟨'-', by simp, hmark _ _ _ _ line hline⟩
    · exact ⟨'+', by simp, hmark _ _ _ _ line hline⟩

theorem foldr_readLine_body {body : List Text} (h : ∀ line ∈ body, line.head? ≠ some (.char '@'))
    (hunks : List Hunk) : body.foldr readLine (some (hunks, [])) = some (hunks, body) := by
  induction body with
  | nil => rfl
  | cons line body ih =>
    obtain ⟨hline, hbody⟩ := List.forall_mem_cons.mp h
    rw [List.foldr_cons, ih hbody]
    exact if_neg hline

theorem readLine_header (i i' j j' : Nat) (hunks : List Hunk) (body : List Text) :
    readLine (header i i' j j') (some (hunks, body)) =
      some (⟨i, i' - i, j, j' - j, body⟩ :: hunks, []) := by
  have hhead : (header i i' j j').head? = some (.char '@') := rfl
  simp only [readLine, Option.bind_eq_bind, Option.bind_some, hhead, if_pos, ranges?_header]
  rfl

/-- Hunks are read as they were written, and they make the new lines of the old ones. -/
theorem Parted.patch {hunks : List (List Stretch)} (h : Parted old new i j hunks)
    (hne : ∀ hunk ∈ hunks, hunk ≠ []) :
    ∃ read, (hunks.flatMap (hunkLines old new)).foldr readLine (some ([], [])) = some (read, []) ∧
      patchFrom? i j (old.toList.drop i) read = some (new.toList.drop j) := by
  induction hunks generalizing i j with
  | nil =>
    obtain ⟨n, hold, hnew, hsame⟩ := h
    refine ⟨[], rfl, congrArg some ?_⟩
    have hslice := hsame.slice_eq
    rw [← hold, ← hnew] at hslice
    have hend (lines : Array Text) (k : Nat) : slice lines k lines.size = lines.toList.drop k := by
      rw [slice_eq, List.take_of_length_le (by simp)]
    rwa [hend, hend] at hslice
  | cons hunk rest ih =>
    obtain ⟨n, i', j', hsame, htiles, -, hrest⟩ := h
    obtain ⟨hhunk, hne⟩ := List.forall_mem_cons.mp hne
    obtain ⟨read, hread, hpatch⟩ := ih hrest hne
    obtain ⟨hi, hj⟩ := hrest.le
    obtain ⟨hi', hj'⟩ := htiles.le
    obtain ⟨htaken, hput⟩ := unmarked_tiles htiles
    have hbody : ∀ line ∈ hunk.flatMap (stretchLines old new), line.head? ≠ some (.char '@') := by
      intro line hline hhead
      obtain ⟨s, -, hline⟩ := List.mem_flatMap.mp hline
      obtain ⟨mark, hmark, heq⟩ := head?_stretchLines line hline
      rw [hhead] at heq
      obtain rfl := Sym.char.inj (Option.some.inj heq)
      exact absurd hmark (by decide)
    refine ⟨⟨i + n, i' - (i + n), j + n, j' - (j + n), hunk.flatMap (stretchLines old new)⟩ :: read,
      ?_, ?_⟩
    · rw [List.flatMap_cons, List.foldr_append, hread, hunkLines_tiles htiles hhunk, List.foldr_cons,
        foldr_readLine_body hbody, readLine_header]
    · rw [patchFrom?]
      simp only [Hunk.taken, Hunk.put, htaken, hput, length_slice hi, length_slice hj,
        Nat.add_sub_cancel_left, List.drop_drop]
      rw [if_pos ⟨Nat.le_add_right _ _, trivial, trivial, trivial, slice_eq _ _⟩,
        Nat.add_sub_cancel' hi', Nat.add_sub_cancel' hj', ← Nat.add_assoc, Nat.add_sub_cancel' hi',
        hpatch]
      have hbefore := hsame.slice_eq
      rw [slice_eq, Nat.add_sub_cancel_left] at hbefore
      rw [Option.map_some, hbefore, List.append_assoc, slice_append_drop hj',
        slice_append_drop (Nat.le_add_right _ _)]

theorem hunks_ne_nil (stretches : List Stretch) : ∀ hunk ∈ hunks stretches, hunk ≠ [] := by
  rintro hunk hhunk rfl
  exact absurd (List.mem_filter.mp hhunk).2 (by decide)

/-- The lines of a diff make the new lines of the old ones. -/
theorem patch?_unifiedLines (old new : Array Text) (path : Text) :
    patch? (unifiedLines old new path) old.toList = some new.toList := by
  have hparted : Parted old new 0 0 _ := hunks_parted
  obtain ⟨read, hread, hpatch⟩ := hparted.patch (hunks_ne_nil _)
  rw [List.drop_zero, List.drop_zero] at hpatch
  rw [unifiedLines]
  generalize (hunks _).flatMap (hunkLines old new) = body at hread
  split_ifs with hnil
  · obtain rfl := List.isEmpty_iff.mp hnil
    obtain rfl := (Prod.mk.inj (Option.some.inj hread)).1
    exact hpatch
  · have hboth : ("--- a/" ++ path ++ "\n").take 4 = Text.ofString "--- " ∧
        ("+++ b/" ++ path ++ "\n").take 4 = Text.ofString "+++ " := ⟨rfl, rfl⟩
    rw [patch?, if_pos hboth, readHunks?, hread]
    exact hpatch

end HouseStyle.Diff
