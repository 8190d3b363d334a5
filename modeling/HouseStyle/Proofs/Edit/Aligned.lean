import HouseStyle.Edit.Diff
import Mathlib.Tactic.SplitIfs

/-! What a diff aligns. Every block has equal lines in both lists, and the blocks come in order, so the
stretches between and at them lie side by side and cover both lists. -/

namespace HouseStyle.Diff

variable {old new : Array Text}

/-! ### Equal lines -/

theorem sameLine_iff {i j : Nat} :
    sameLine old new i j ↔ ∃ line, old[i]? = some line ∧ new[j]? = some line := by
  unfold sameLine
  cases old[i]? <;> cases new[j]? <;> simp [eq_comm]

/-- So many lines from two places on are equal. -/
def Alike (old new : Array Text) (i j n : Nat) : Prop := ∀ k < n, sameLine old new (i + k) (j + k)

namespace Alike

variable {i j m n : Nat}

theorem nil (i j : Nat) : Alike old new i j 0 := by simp [Alike]

theorem single (h : sameLine old new i j) : Alike old new i j 1 := fun k hk => by
  obtain rfl : k = 0 := by omega
  exact h

theorem append {i' j' : Nat} (h : Alike old new i j m) (h' : Alike old new i' j' n)
    (hi : i' = i + m) (hj : j' = j + m) : Alike old new i j (m + n) := by
  subst hi hj
  intro k hk
  by_cases hkm : k < m
  · exact h k hkm
  · have := h' (k - m) (by omega)
    rwa [Nat.add_assoc, Nat.add_assoc, Nat.add_sub_cancel' (by omega)] at this

theorem take (h : Alike old new i j n) (hm : m ≤ n) : Alike old new i j m :=
  fun k hk => h k (by omega)

theorem drop (h : Alike old new i j n) (m : Nat) : Alike old new (i + m) (j + m) (n - m) := by
  intro k hk
  rw [Nat.add_assoc, Nat.add_assoc]
  exact h (m + k) (by omega)

end Alike

/-- A block lies in a region and has equal lines in both lists. -/
structure Within (old new : Array Text) (r : Region) (m : Block) : Prop where
  aLow : r.aLow ≤ m.a
  aHigh : m.a + m.size ≤ r.aHigh
  bLow : r.bLow ≤ m.b
  bHigh : m.b + m.size ≤ r.bHigh
  same : Alike old new m.a m.b m.size

variable {r : Region} {m : Block}

theorem Within.mono {aHigh bHigh : Nat} (h : Within old new { r with aHigh, bHigh } m)
    (ha : aHigh ≤ r.aHigh) (hb : bHigh ≤ r.bHigh) : Within old new r m :=
  ⟨h.aLow, Nat.le_trans h.aHigh ha, h.bLow, Nat.le_trans h.bHigh hb, h.same⟩

/-! ### The longest block -/

/-- Equal lines up to the one before old line `i`, by the place of the last one in the new list and
by how many they are. -/
structure EndsBefore (old new : Array Text) (r : Region) (i : Nat) (run : Nat × Nat) : Prop where
  aLow : r.aLow + run.2 ≤ i
  bLow : r.bLow + run.2 ≤ run.1 + 1
  bHigh : run.1 < r.bHigh
  same : Alike old new (i - run.2) (run.1 + 1 - run.2) run.2

theorem EndsBefore.within {i : Nat} {run : Nat × Nat} (h : EndsBefore old new r i run)
    (hi : i ≤ r.aHigh) : Within old new r ⟨i - run.2, run.1 + 1 - run.2, run.2⟩ := by
  obtain ⟨ha, hb, hhigh, hsame⟩ := h
  exact ⟨by simp; omega, by simp; omega, by simp; omega, by simp; omega, hsame⟩

theorem sameLine_of_mem_anchors {i j : Nat} (h : j ∈ (anchors old new).getD i []) :
    sameLine old new i j := by
  rw [anchors, Array.getD_eq_getD_getElem?, Array.getElem?_map] at h
  cases hold : old[i]? with
  | none => simp [hold] at h
  | some line =>
    simp only [hold, Option.map_some, Option.getD_some] at h
    split_ifs at h
    · cases h
    · have hnew := of_decide_eq_true (List.mem_filter.mp h).2
      exact sameLine_iff.mpr ⟨line, hold, hnew⟩

/-- A line goes on with the run that ends right before it in both lists. -/
theorem extendRuns_endsBefore {i : Nat} {previous : List (Nat × Nat)} {js : List Nat}
    (hi : r.aLow ≤ i) (hprevious : ∀ run ∈ previous, EndsBefore old new r i run)
    (hjs : ∀ j ∈ js, r.bLow ≤ j ∧ j < r.bHigh ∧ sameLine old new i j) :
    ∀ run ∈ extendRuns previous js, EndsBefore old new r (i + 1) run := by
  induction js generalizing previous with
  | nil => simp [extendRuns]
  | cons j js ih =>
    obtain ⟨⟨hlow, hhigh, hsame⟩, hjs⟩ := List.forall_mem_cons.mp hjs
    rw [extendRuns]
    generalize hdrop : previous.dropWhile _ = near
    have hnear : ∀ run ∈ near, EndsBefore old new r i run :=
      fun run hrun => hprevious run (List.dropWhile_subset _ (hdrop ▸ hrun))
    refine List.forall_mem_cons.mpr ⟨?_, ih hnear hjs⟩
    have hone : EndsBefore old new r (i + 1) (j, 1) := by
      exact ⟨by simp; omega, by simp; omega, hhigh, .single hsame⟩
    cases near with
    | nil => exact hone
    | cons first near =>
      obtain ⟨p, k⟩ := first
      dsimp only
      split_ifs with hp
      · subst hp
        obtain ⟨ha, hb, -, hbefore⟩ := hnear (p, k) List.mem_cons_self
        dsimp only at ha hb hbefore
        refine ⟨by simp; omega, by simp; omega, hhigh, ?_⟩
        dsimp only
        rw [Nat.add_sub_add_right, Nat.add_sub_add_right]
        exact hbefore.append (.single hsame) (by omega) (by omega)
      · exact hone

theorem longer_within {i : Nat} {best : Block} {runs : List (Nat × Nat)} (hi : i + 1 ≤ r.aHigh)
    (hbest : Within old new r best) (hruns : ∀ run ∈ runs, EndsBefore old new r (i + 1) run) :
    Within old new r (longer i best runs) := by
  induction runs generalizing best with
  | nil => exact hbest
  | cons run runs ih =>
    obtain ⟨hrun, hruns⟩ := List.forall_mem_cons.mp hruns
    rw [longer]
    refine ih ?_ hruns
    split_ifs
    · exact hrun.within hi
    · exact hbest

theorem longestRun_within {count i : Nat} {previous : List (Nat × Nat)} {best : Block}
    (hi : r.aLow ≤ i) (hcount : i + count ≤ r.aHigh) (hbest : Within old new r best)
    (hprevious : ∀ run ∈ previous, EndsBefore old new r i run) :
    Within old new r (longestRun (anchors old new) r i previous best count) := by
  induction count generalizing i previous best with
  | zero => exact hbest
  | succ count ih =>
    rw [longestRun]
    have hruns : ∀ run ∈ extendRuns previous
        (((anchors old new).getD i []).filter fun j => r.bLow ≤ j && j < r.bHigh),
        EndsBefore old new r (i + 1) run := by
      refine extendRuns_endsBefore hi hprevious fun j hj => ?_
      obtain ⟨hanchor, hbounds⟩ := List.mem_filter.mp hj
      rw [Bool.and_eq_true, decide_eq_true_eq, decide_eq_true_eq] at hbounds
      exact ⟨hbounds.1, hbounds.2, sameLine_of_mem_anchors hanchor⟩
    exact ih (by omega) (by omega) (longer_within (by omega) hbest hruns) hruns

theorem equalBefore_spec {i j : Nat} (hi : r.aLow ≤ i) (hj : r.bLow ≤ j) :
    r.aLow + equalBefore old new r i j ≤ i ∧ r.bLow + equalBefore old new r i j ≤ j ∧
      Alike old new (i - equalBefore old new r i j) (j - equalBefore old new r i j)
        (equalBefore old new r i j) := by
  induction i generalizing j with
  | zero =>
    rw [show equalBefore old new r 0 j = 0 by simp [equalBefore]]
    exact ⟨hi, hj, .nil _ _⟩
  | succ i ih =>
    cases j with
    | zero =>
      rw [show equalBefore old new r (i + 1) 0 = 0 by simp [equalBefore]]
      exact ⟨hi, hj, .nil _ _⟩
    | succ j =>
      rw [equalBefore]
      split_ifs with hsame
      · simp only [Bool.and_eq_true, decide_eq_true_eq] at hsame
        obtain ⟨ha, hb, hbefore⟩ := ih hsame.1.1 hsame.1.2
        refine ⟨by omega, by omega, ?_⟩
        rw [Nat.add_sub_add_right, Nat.add_sub_add_right]
        exact hbefore.append (.single hsame.2) (by omega) (by omega)
      · exact ⟨hi, hj, .nil _ _⟩

theorem equalAfter_spec {fuel i j : Nat} (hi : i ≤ r.aHigh) (hj : j ≤ r.bHigh) :
    i + equalAfter old new r fuel i j ≤ r.aHigh ∧ j + equalAfter old new r fuel i j ≤ r.bHigh ∧
      Alike old new i j (equalAfter old new r fuel i j) := by
  induction fuel generalizing i j with
  | zero => exact ⟨hi, hj, .nil _ _⟩
  | succ fuel ih =>
    rw [equalAfter]
    split_ifs with hsame
    · simp only [Bool.and_eq_true, decide_eq_true_eq] at hsame
      obtain ⟨ha, hb, hafter⟩ := @ih (i + 1) (j + 1) hsame.1.1 hsame.1.2
      refine ⟨by omega, by omega, ?_⟩
      rw [Nat.add_comm (equalAfter old new r fuel (i + 1) (j + 1))]
      exact (Alike.single hsame.2).append hafter rfl rfl
    · exact ⟨hi, hj, .nil _ _⟩

/-- A block goes on with the equal lines right before it and right after it. -/
theorem Within.extend {before after : Nat} (h : Within old new r m)
    (hbefore : r.aLow + before ≤ m.a ∧ r.bLow + before ≤ m.b ∧
      Alike old new (m.a - before) (m.b - before) before)
    (hafter : m.a + m.size + after ≤ r.aHigh ∧ m.b + m.size + after ≤ r.bHigh ∧
      Alike old new (m.a + m.size) (m.b + m.size) after) :
    Within old new r ⟨m.a - before, m.b - before, before + m.size + after⟩ := by
  obtain ⟨haBefore, hbBefore, hbefore⟩ := hbefore
  obtain ⟨haAfter, hbAfter, hafter⟩ := hafter
  refine ⟨by simp; omega, by simp; omega, by simp; omega, by simp; omega, ?_⟩
  exact (hbefore.append h.same (by omega) (by omega)).append hafter (by omega) (by omega)

theorem longestBlock_within (ha : r.aLow ≤ r.aHigh) (hb : r.bLow ≤ r.bHigh) :
    Within old new r (longestBlock old new (anchors old new) r) := by
  have hbest : Within old new r
      (longestRun (anchors old new) r r.aLow [] ⟨r.aLow, r.bLow, 0⟩ (r.aHigh - r.aLow)) :=
    longestRun_within (Nat.le_refl _) (by omega)
      ⟨Nat.le_refl _, ha, Nat.le_refl _, hb, .nil _ _⟩ (by simp)
  exact hbest.extend (equalBefore_spec hbest.aLow hbest.bLow)
    (equalAfter_spec hbest.aHigh hbest.bHigh)

/-! ### All blocks -/

/-- Blocks in order inside a region, none of them empty. -/
def Chained (old new : Array Text) (r : Region) : List Block → Prop
  | [] => True
  | m :: rest => 0 < m.size ∧ Within old new r m ∧
    Chained old new { r with aLow := m.a + m.size, bLow := m.b + m.size } rest

theorem Chained.mono {blocks : List Block} {aHigh bHigh : Nat}
    (h : Chained old new { r with aHigh, bHigh } blocks) (ha : aHigh ≤ r.aHigh)
    (hb : bHigh ≤ r.bHigh) : Chained old new r blocks := by
  induction blocks generalizing r with
  | nil => trivial
  | cons m blocks ih => exact ⟨h.1, h.2.1.mono ha hb, ih h.2.2 ha hb⟩

theorem Chained.append {before behind : List Block} (hm : 0 < m.size) (hwithin : Within old new r m)
    (hbefore : Chained old new { r with aHigh := m.a, bHigh := m.b } before)
    (hbehind : Chained old new { r with aLow := m.a + m.size, bLow := m.b + m.size } behind) :
    Chained old new r (before ++ m :: behind) := by
  induction before generalizing r with
  | nil => exact ⟨hm, hwithin, hbehind⟩
  | cons n before ih =>
    obtain ⟨hn, hfirst, hrest⟩ := hbefore
    have ha := hwithin.aHigh
    have hb := hwithin.bHigh
    refine ⟨hn, hfirst.mono (by omega) (by omega), ih ?_ hrest hbehind⟩
    exact ⟨hfirst.aHigh, hwithin.aHigh, hfirst.bHigh, hwithin.bHigh, hwithin.same⟩

theorem blocksIn_chained (fuel : Nat) (ha : r.aLow ≤ r.aHigh) (hb : r.bLow ≤ r.bHigh) :
    Chained old new r (blocksIn old new (anchors old new) fuel r) := by
  induction fuel generalizing r with
  | zero => trivial
  | succ fuel ih =>
    have hlongest := @longestBlock_within old new r ha hb
    rw [blocksIn]
    generalize longestBlock old new (anchors old new) r = m at hlongest ⊢
    have hbefore : Chained old new { r with aHigh := m.a, bHigh := m.b }
        (if r.aLow < m.a ∧ r.bLow < m.b then
          blocksIn old new (anchors old new) fuel { r with aHigh := m.a, bHigh := m.b } else []) := by
      split_ifs with h
      · exact ih (Nat.le_of_lt h.1) (Nat.le_of_lt h.2)
      · trivial
    have hbehind : Chained old new { r with aLow := m.a + m.size, bLow := m.b + m.size }
        (if m.a + m.size < r.aHigh ∧ m.b + m.size < r.bHigh then
          blocksIn old new (anchors old new) fuel { r with aLow := m.a + m.size, bLow := m.b + m.size }
        else []) := by
      split_ifs with h
      · exact ih (Nat.le_of_lt h.1) (Nat.le_of_lt h.2)
      · trivial
    by_cases hsize : m.size = 0
    · rw [if_pos hsize]
      trivial
    · rw [if_neg hsize]
      exact .append (by omega) hlongest hbefore hbehind

theorem mergeBlocks_chained {blocks : List Block} (h : Chained old new r blocks) :
    Chained old new r (mergeBlocks blocks) := by
  induction blocks generalizing r with
  | nil => trivial
  | cons m blocks ih =>
    obtain ⟨hm, hwithin, hrest⟩ := h
    have hrest := ih hrest
    rw [mergeBlocks]
    cases hmerged : mergeBlocks blocks with
    | nil => exact ⟨hm, hwithin, trivial⟩
    | cons n more =>
      rw [hmerged] at hrest
      obtain ⟨hn, hsecond, hmore⟩ := hrest
      dsimp only
      split_ifs with htouch
      · have haHigh := hsecond.aHigh
        have hbHigh := hsecond.bHigh
        dsimp only at haHigh hbHigh
        refine ⟨Nat.add_pos_left hm _, ⟨hwithin.aLow, ?_, hwithin.bLow, ?_, ?_⟩, ?_⟩
        · dsimp only; omega
        · dsimp only; omega
        · exact hwithin.same.append hsecond.same htouch.1.symm htouch.2.symm
        · dsimp only
          rwa [← Nat.add_assoc, ← Nat.add_assoc, htouch.1, htouch.2]
      · exact ⟨hm, hwithin, hn, hsecond, hmore⟩

theorem commonBlocks_chained :
    Chained old new ⟨0, old.size, 0, new.size⟩ (commonBlocks old new) :=
  mergeBlocks_chained (blocksIn_chained _ (Nat.zero_le _) (Nat.zero_le _))

/-! ### Stretches -/

/-- A stretch has lines; and if it is equal, the same ones in both lists. -/
structure Stretch.Fits (old new : Array Text) (s : Stretch) : Prop where
  a_le : s.aLow ≤ s.aHigh
  b_le : s.bLow ≤ s.bHigh
  same : s.equal = true → s.aLow < s.aHigh ∧ s.bHigh = s.bLow + (s.aHigh - s.aLow) ∧
    Alike old new s.aLow s.bLow (s.aHigh - s.aLow)
  change : s.equal = false → s.aLow < s.aHigh ∨ s.bLow < s.bHigh

/-- Stretches side by side from two places to two others. No change follows a change. -/
def Tiles (old new : Array Text) (i j i' j' : Nat) : List Stretch → Prop
  | [] => i = i' ∧ j = j'
  | s :: rest => s.aLow = i ∧ s.bLow = j ∧ s.Fits old new ∧
    (s.equal = false → ∀ t ∈ rest.head?, t.equal = true) ∧ Tiles old new s.aHigh s.bHigh i' j' rest

section

variable {i j i' j' : Nat} {s : Stretch} {stretches : List Stretch}

theorem Tiles.le (h : Tiles old new i j i' j' stretches) : i ≤ i' ∧ j ≤ j' := by
  induction stretches generalizing i j with
  | nil => exact ⟨Nat.le_of_eq h.1, Nat.le_of_eq h.2⟩
  | cons s rest ih =>
    obtain ⟨rfl, rfl, hfits, -, hrest⟩ := h
    exact ⟨Nat.le_trans hfits.a_le (ih hrest).1, Nat.le_trans hfits.b_le (ih hrest).2⟩

theorem Stretch.Fits.ofBlock (h : Within old new r m) (hm : 0 < m.size) :
    Stretch.Fits old new ⟨true, m.a, m.a + m.size, m.b, m.b + m.size⟩ where
  a_le := Nat.le_add_right _ _
  b_le := Nat.le_add_right _ _
  same := fun _ => by
    dsimp only
    rw [Nat.add_sub_cancel_left]
    exact ⟨by omega, rfl, h.same⟩
  change := nofun

theorem Stretch.Fits.ofChange (hi : i ≤ i') (hj : j ≤ j') (h : i < i' ∨ j < j') :
    Stretch.Fits old new ⟨false, i, i', j, j'⟩ := ⟨hi, hj, nofun, fun _ => h⟩

theorem stretchesFrom_tiles {blocks : List Block} (hi : i ≤ i') (hj : j ≤ j')
    (h : Chained old new ⟨i, i', j, j'⟩ blocks) :
    Tiles old new i j i' j' (stretchesFrom i j i' j' blocks) := by
  induction blocks generalizing i j with
  | nil =>
    rw [stretchesFrom]
    split_ifs with hchange
    · exact ⟨rfl, rfl, .ofChange hi hj hchange, by simp, rfl, rfl⟩
    · exact ⟨by omega, by omega⟩
  | cons m blocks ih =>
    obtain ⟨hm, hwithin, hrest⟩ := h
    have hequal := Stretch.Fits.ofBlock hwithin hm
    have hmore := ih hwithin.aHigh hwithin.bHigh hrest
    rw [stretchesFrom]
    split_ifs with hchange
    · refine ⟨rfl, rfl, .ofChange hwithin.aLow hwithin.bLow hchange, fun _ t ht => ?_,
        rfl, rfl, hequal, nofun, hmore⟩
      obtain rfl := Option.some.inj ht
      rfl
    · have haLow := hwithin.aLow
      have hbLow := hwithin.bLow
      dsimp only at haLow hbLow
      exact ⟨by dsimp only; omega, by dsimp only; omega, hequal, nofun, hmore⟩

/-- The stretches of two lists cover both. -/
theorem stretches_tiles : Tiles old new 0 0 old.size new.size
    (stretchesFrom 0 0 old.size new.size (commonBlocks old new)) :=
  stretchesFrom_tiles (Nat.zero_le _) (Nat.zero_le _) commonBlocks_chained

/-! ### Hunks -/

/-- The last lines of an equal stretch, with what comes before them. -/
theorem Stretch.Fits.last (h : s.Fits old new) (hs : s.equal = true) {n : Nat} (hn : 0 < n) :
    Stretch.Fits old new
        { s with aLow := max s.aLow (s.aHigh - n), bLow := max s.bLow (s.bHigh - n) } ∧
      ∃ k, max s.aLow (s.aHigh - n) = s.aLow + k ∧ max s.bLow (s.bHigh - n) = s.bLow + k ∧
        Alike old new s.aLow s.bLow k := by
  obtain ⟨ha, hb, hsame⟩ := h.same hs
  refine ⟨⟨by dsimp only; omega, by dsimp only; omega, fun _ => ?_, fun h => ?_⟩,
    s.aHigh - s.aLow - n, by omega, by omega, hsame.take (by omega)⟩
  · dsimp only
    refine ⟨by omega, by omega, ?_⟩
    have hdrop := hsame.drop (s.aHigh - s.aLow - n)
    rwa [show s.aLow + (s.aHigh - s.aLow - n) = max s.aLow (s.aHigh - n) by omega,
      show s.bLow + (s.aHigh - s.aLow - n) = max s.bLow (s.bHigh - n) by omega,
      show s.aHigh - s.aLow - (s.aHigh - s.aLow - n) = s.aHigh - max s.aLow (s.aHigh - n) by omega]
      at hdrop
  · exact absurd (hs.symm.trans h) (by decide)

/-- The first lines of an equal stretch, with what comes after them. -/
theorem Stretch.Fits.first (h : s.Fits old new) (hs : s.equal = true) {n : Nat} (hn : 0 < n) :
    Stretch.Fits old new
        { s with aHigh := min s.aHigh (s.aLow + n), bHigh := min s.bHigh (s.bLow + n) } ∧
      ∃ k, s.aHigh = min s.aHigh (s.aLow + n) + k ∧ s.bHigh = min s.bHigh (s.bLow + n) + k ∧
        Alike old new (min s.aHigh (s.aLow + n)) (min s.bHigh (s.bLow + n)) k := by
  obtain ⟨ha, hb, hsame⟩ := h.same hs
  refine ⟨⟨by dsimp only; omega, by dsimp only; omega, fun _ => ?_, fun h => ?_⟩,
    s.aHigh - s.aLow - n, by omega, by omega, ?_⟩
  · dsimp only
    exact ⟨by omega, by omega, hsame.take (by omega)⟩
  · exact absurd (hs.symm.trans h) (by decide)
  · have hdrop := hsame.drop (min n (s.aHigh - s.aLow))
    rwa [show s.aLow + min n (s.aHigh - s.aLow) = min s.aHigh (s.aLow + n) by omega,
      show s.bLow + min n (s.aHigh - s.aLow) = min s.bHigh (s.bLow + n) by omega,
      show s.aHigh - s.aLow - min n (s.aHigh - s.aLow) = s.aHigh - s.aLow - n by omega] at hdrop

/-- Equal lines before the first change are left out but for the context. -/
theorem trimFirst_tiles (h : Tiles old new i j i' j' stretches) :
    ∃ n, Alike old new i j n ∧ Tiles old new (i + n) (j + n) i' j' (trimFirst stretches) := by
  cases stretches with
  | nil => exact ⟨0, .nil _ _, h⟩
  | cons s rest =>
    obtain ⟨rfl, rfl, hfits, hnext, hrest⟩ := h
    rw [trimFirst]
    split_ifs with hs
    · obtain ⟨hlast, n, ha, hb, hsame⟩ := hfits.last hs (n := context) (by decide)
      refine ⟨n, hsame, ha, hb, hlast, ?_, hrest⟩
      exact fun h => absurd (hs.symm.trans h) (by decide)
    · exact ⟨0, .nil _ _, rfl, rfl, hfits, hnext, hrest⟩

theorem head?_trimLast (stretches : List Stretch) :
    (trimLast stretches).head?.map Stretch.equal = stretches.head?.map Stretch.equal := by
  match stretches with
  | [] => rfl
  | [s] =>
    rw [trimLast]
    split_ifs <;> rfl
  | s :: t :: rest => rfl

/-- Equal lines after the last change are left out but for the context. -/
theorem trimLast_tiles (h : Tiles old new i j i' j' stretches) :
    ∃ n k l, i' = k + n ∧ j' = l + n ∧ Alike old new k l n ∧
      Tiles old new i j k l (trimLast stretches) := by
  induction stretches generalizing i j with
  | nil => exact ⟨0, i', j', rfl, rfl, .nil _ _, h⟩
  | cons s rest ih =>
    obtain ⟨rfl, rfl, hfits, hnext, hrest⟩ := h
    cases rest with
    | nil =>
      obtain ⟨rfl, rfl⟩ := hrest
      rw [trimLast]
      split_ifs with hs
      · obtain ⟨hfirst, n, ha, hb, hsame⟩ := hfits.first hs (n := context) (by decide)
        refine ⟨n, _, _, ha, hb, hsame, rfl, rfl, hfirst, by simp, rfl, rfl⟩
      · exact ⟨0, _, _, rfl, rfl, .nil _ _, rfl, rfl, hfits, by simp, rfl, rfl⟩
    | cons t rest =>
      obtain ⟨n, k, l, hk, hl, hsame, htiles⟩ := ih hrest
      refine ⟨n, k, l, hk, hl, hsame, rfl, rfl, hfits, fun hs u hu => ?_, htiles⟩
      have hhead := head?_trimLast (t :: rest)
      rw [Option.mem_def.mp hu] at hhead
      rw [Option.some.inj hhead]
      exact hnext hs t rfl

/-- Hunks from two places on, up to the ends of both lists: before, between and after them the lines
are equal, and a hunk before another one leaves lines of both lists. -/
def Parted (old new : Array Text) (i j : Nat) : List (List Stretch) → Prop
  | [] => ∃ n, old.size = i + n ∧ new.size = j + n ∧ Alike old new i j n
  | hunk :: rest => ∃ n i' j', Alike old new i j n ∧ Tiles old new (i + n) (j + n) i' j' hunk ∧
    (rest = [] ∨ i' < old.size ∧ j' < new.size) ∧ Parted old new i' j' rest

theorem Tiles.fits (h : Tiles old new i j i' j' stretches) : ∀ s ∈ stretches, s.Fits old new := by
  induction stretches generalizing i j with
  | nil => simp
  | cons s rest ih => exact List.forall_mem_cons.mpr ⟨h.2.2.1, ih h.2.2.2.2⟩

/-- Stretches that are cut inside an equal one, of which some lines are left out. -/
theorem Tiles.cut {before rest : List Stretch} {first last : Stretch}
    (h : Tiles old new i j i' j' (before ++ s :: rest)) (hfirst : first.Fits old new)
    (hlast : last.Fits old new) (ha : first.aLow = s.aLow) (hb : first.bLow = s.bLow)
    (ha' : last.aHigh = s.aHigh) (hb' : last.bHigh = s.bHigh) (hequal : first.equal = true)
    (hequal' : last.equal = true) :
    Tiles old new i j first.aHigh first.bHigh (before ++ [first]) ∧
      Tiles old new last.aLow last.bLow i' j' (last :: rest) ∧ s.aHigh ≤ i' ∧ s.bHigh ≤ j' := by
  induction before generalizing i j with
  | nil =>
    obtain ⟨rfl, rfl, -, -, hrest⟩ := h
    refine ⟨⟨ha, hb, hfirst, by simp, rfl, rfl⟩, ⟨rfl, rfl, hlast, ?_, ?_⟩, hrest.le⟩
    · exact fun h => absurd (hequal'.symm.trans h) (by decide)
    · rwa [ha', hb']
  | cons t before ih =>
    obtain ⟨rfl, rfl, hfits, hnext, hmore⟩ := h
    obtain ⟨htiles, hrest⟩ := ih hmore
    refine ⟨⟨rfl, rfl, hfits, fun ht u hu => ?_, htiles⟩, hrest⟩
    cases before with
    | nil =>
      obtain rfl := Option.some.inj hu
      exact hequal
    | cons v before => exact hnext ht u hu

/-- Cutting inside long equal stretches leaves hunks with equal lines between them. -/
theorem hunksFrom_parted {hunk : List Stretch} {n m : Nat} (hbefore : Alike old new i j n)
    (h : Tiles old new (i + n) (j + n) i' j' (hunk.reverse ++ stretches))
    (hold : old.size = i' + m) (hnew : new.size = j' + m) (hbehind : Alike old new i' j' m) :
    Parted old new i j (hunksFrom hunk stretches) := by
  induction stretches generalizing hunk i j n with
  | nil =>
    rw [List.append_nil] at h
    exact ⟨n, i', j', hbefore, h, .inl rfl, m, hold, hnew, hbehind⟩
  | cons s rest ih =>
    rw [hunksFrom]
    split_ifs with hcut
    · obtain ⟨hs, hsize⟩ := hcut
      have hfits := h.fits s (by simp)
      obtain ⟨ha, hb, hsame⟩ := hfits.same hs
      obtain ⟨hfirst, -⟩ := hfits.first hs (n := context) (by decide)
      obtain ⟨hlast, -⟩ := hfits.last hs (n := context) (by decide)
      obtain ⟨hstop, hstart, hle, hle'⟩ := h.cut hfirst hlast rfl rfl rfl rfl hs hs
      dsimp only at hstop hstart
      dsimp only
      refine ⟨n, min s.aHigh (s.aLow + context), min s.bHigh (s.bLow + context), hbefore, ?_,
        .inr ⟨by omega, by omega⟩, ih (n := s.aHigh - s.aLow - 2 * context) ?_ ?_⟩
      · rw [List.reverse_cons]
        exact hstop
      · have hgap := (hsame.drop context).take (m := s.aHigh - s.aLow - 2 * context) (by omega)
        rwa [show s.aLow + context = min s.aHigh (s.aLow + context) by omega,
          show s.bLow + context = min s.bHigh (s.bLow + context) by omega] at hgap
      · rw [List.reverse_singleton, List.singleton_append,
          show min s.aHigh (s.aLow + context) + (s.aHigh - s.aLow - 2 * context) =
            max s.aLow (s.aHigh - context) by omega,
          show min s.bHigh (s.bLow + context) + (s.aHigh - s.aLow - 2 * context) =
            max s.bLow (s.bHigh - context) by omega]
        exact hstart
    · refine ih hbefore ?_
      rwa [List.reverse_cons, List.append_assoc, List.singleton_append]

theorem Parted.extend {n : Nat} {hunks : List (List Stretch)} (h : Alike old new i j n)
    (hparted : Parted old new (i + n) (j + n) hunks) : Parted old new i j hunks := by
  cases hunks with
  | nil =>
    obtain ⟨m, hold, hnew, hsame⟩ := hparted
    exact ⟨n + m, by omega, by omega, h.append hsame rfl rfl⟩
  | cons hunk rest =>
    obtain ⟨m, i', j', hsame, htiles, hrest⟩ := hparted
    refine ⟨n + m, i', j', h.append hsame rfl rfl, ?_, hrest⟩
    rwa [← Nat.add_assoc, ← Nat.add_assoc]

/-- Stretches without a change are one. -/
theorem Tiles.alike (h : Tiles old new i j i' j' stretches)
    (hequal : ∀ s ∈ stretches, s.equal = true) :
    ∃ n, i' = i + n ∧ j' = j + n ∧ Alike old new i j n := by
  induction stretches generalizing i j with
  | nil => exact ⟨0, h.1.symm, h.2.symm, .nil _ _⟩
  | cons s rest ih =>
    obtain ⟨rfl, rfl, hfits, -, hrest⟩ := h
    obtain ⟨hs, hrestEqual⟩ := List.forall_mem_cons.mp hequal
    obtain ⟨ha, hb, hsame⟩ := hfits.same hs
    obtain ⟨n, rfl, rfl, hmore⟩ := ih hrest hrestEqual
    exact ⟨s.aHigh - s.aLow + n, by omega, by omega, hsame.append hmore (by omega) (by omega)⟩

/-- Hunks without a change can be left out. -/
theorem Parted.filter {hunks : List (List Stretch)} {p : List Stretch → Bool}
    (hp : ∀ hunk, ¬p hunk → ∀ s ∈ hunk, s.equal = true) (h : Parted old new i j hunks) :
    Parted old new i j (hunks.filter p) := by
  induction hunks generalizing i j with
  | nil => exact h
  | cons hunk rest ih =>
    obtain ⟨n, i', j', hbefore, htiles, hend, hrest⟩ := h
    by_cases hchange : p hunk
    · rw [List.filter_cons_of_pos hchange]
      refine ⟨n, i', j', hbefore, htiles, hend.imp_left ?_, ih hrest⟩
      rintro rfl
      rfl
    · rw [List.filter_cons_of_neg hchange]
      obtain ⟨m, rfl, rfl, hsame⟩ := htiles.alike (hp hunk hchange)
      exact ((ih hrest).extend hsame).extend hbefore

/-- The hunks of stretches that cover two lists part both. -/
theorem Tiles.parted (h : Tiles old new 0 0 old.size new.size stretches) :
    Parted old new 0 0 (hunks stretches) := by
  obtain ⟨n, hbefore, hfirst⟩ := trimFirst_tiles h
  obtain ⟨m, k, l, hold, hnew, hbehind, hlast⟩ := trimLast_tiles hfirst
  refine Parted.filter (fun hunk hchange s hs => ?_)
    (@hunksFrom_parted _ _ 0 0 k l _ [] n m hbefore hlast hold hnew hbehind)
  cases hequal : s.equal with
  | true => rfl
  | false => exact absurd (List.any_eq_true.mpr ⟨s, hs, by simp [hequal]⟩) hchange

theorem hunks_parted : Parted old new 0 0
    (hunks (stretchesFrom 0 0 old.size new.size (commonBlocks old new))) := stretches_tiles.parted

end

end HouseStyle.Diff
