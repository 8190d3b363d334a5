import HouseStyle.Proofs.Outline.Collected
import HouseStyle.Proofs.Outline.Framed

/-! Parentheses around a stretch of tokens. In front of the stretch the scans of both lists do the
same. In it the new scan is one group deeper, where newlines and terminators do not count and every
brace opens a closure; as long as the old scan ends no run and opens no block there either, the runs
of both differ by the parenthesis alone. -/

namespace HouseStyle.Outline

/-! ### Two tokens more -/

/-- Where tokens stand when those from one index to another one are put in parentheses. -/
def spread (a z j : Nat) : Nat := if j < a then j else if j ≤ z then j + 1 else j + 2

section

variable {a z j m : Nat}

theorem spread_of_lt (h : j < a) : spread a z j = j := if_pos h

theorem spread_of_mem (ha : a ≤ j) (hz : j ≤ z) : spread a z j = j + 1 := by
  rw [spread, if_neg (by omega), if_pos hz]

theorem spread_of_gt (h : z < j) (ha : a ≤ j) : spread a z j = j + 2 := by
  rw [spread, if_neg (by omega), if_neg (by omega)]

theorem spread_strictMono (a z : Nat) : StrictMono (spread a z) := by
  intro i j hij
  unfold spread
  split_ifs <;> omega

theorem exists_spread (haz : a ≤ z) (ha : m ≠ a) (hz : m ≠ z + 2) : ∃ j, spread a z j = m := by
  rcases Nat.lt_or_gt_of_ne ha with hlt | hgt
  · exact ⟨m, spread_of_lt hlt⟩
  rcases Nat.lt_or_gt_of_ne hz with hlt | hgt'
  · exact ⟨m - 1, by rw [spread_of_mem (by omega) (by omega)]; omega⟩
  · exact ⟨m - 2, by rw [spread_of_gt (by omega) (by omega)]; omega⟩

end

/-- A list with parentheses put around the tokens from one index to another one. -/
structure Encloses (list list' : List Token) (a z : Nat) : Prop where
  le : a ≤ z
  length : list'.length = list.length + 2
  renames : Renaming list.toArray list'.toArray (spread a z)
  opener : ∃ t, list'[a]? = some t ∧ t.isMark '('
  closer : ∃ t, list'[z + 2]? = some t ∧ t.isMark ')'
  loud : Loud list.toArray z

namespace Encloses

variable {list list' : List Token} {a z i j : Nat} {t : Token} (h : Encloses list list' a z)
include h

theorem lt_length : z < list.length := by
  obtain ⟨t, ht, -⟩ := h.loud
  simpa using (Array.getElem?_eq_some_iff.mp ht).1

/-- What follows a token is the same token as before, unless the parentheses come before it. -/
theorem nextAfter_spread (hi : i ≠ z)
    (hfront : i < a → ∃ k, Loud list.toArray k ∧ i < k ∧ k < a) :
    nextAfter list' (spread a z i) = (nextAfter list i).map (spread a z) := by
  refine h.renames.nextAfter_map fun m him _ hm => ?_
  have haz := h.le
  have hnew : m = a ∨ m = z + 2 := by
    by_contra hnot
    obtain ⟨j, hj⟩ := exists_spread haz (fun heq => hnot (.inl heq)) fun heq => hnot (.inr heq)
    exact hm j hj
  by_cases hia : i < a
  · obtain ⟨k, hk, hik, hka⟩ := hfront hia
    exact ⟨k, hk, hik, by rw [spread_of_lt hka]; omega⟩
  · have : i < z ∧ z + 1 < m := by
      unfold spread at him
      split_ifs at him <;> omega
    exact ⟨z, h.loud, this.1, by rw [spread_of_mem haz (Nat.le_refl z)]; omega⟩

theorem ne_of_newline (ht : list[i]? = some t) (hnewline : t.kind = .newline) : i ≠ z := by
  rintro rfl
  obtain ⟨u, hu, hcode⟩ := h.loud
  obtain rfl := Option.some.inj (ht.symm.trans (List.getElem?_toArray.symm.trans hu))
  simp [Lexeme.isTrivia, TokenKind.isTrivia, hnewline] at hcode

theorem moved : Scan.Moved list list' (spread a z) a (z + 1) where
  place k hak hkz := spread_of_mem hak (by omega)
  following k t hak hkz ht hnewline := by
    rw [← spread_of_mem hak (show k ≤ z by omega)]
    exact h.nextAfter_spread (h.ne_of_newline ht hnewline) fun hka => absurd hak (by omega)

end Encloses

variable {list list' : List Token} {end_ : Text} {a z i j k : Nat} {t : Token} {s s' : Scan}
  {base base' : List Segment}

namespace Scan

section

variable (h : Encloses list list' a z)
include h

theorem mirrors_spread_succ (ht : list[j]? = some t)
    (hfront : j < a → t.kind = .newline → ∃ k, Loud list.toArray k ∧ j < k ∧ k < a)
    (hs : (before list end_ j).Mirrors list.toArray list'.toArray (spread a z) base base'
      (before list' end_ (spread a z j))) :
    (before list end_ (j + 1)).Mirrors list.toArray list'.toArray (spread a z) base base'
      (before list' end_ (spread a z j + 1)) := by
  obtain ⟨t', ht', hlexeme⟩ := h.renames.exists_token ht
  rw [before_succ ht, before_succ ht']
  exact hs.step h.renames (List.getElem?_toArray.trans ht) hlexeme (index_lt_size ht)
    fun hnewline => h.nextAfter_spread (h.ne_of_newline ht hnewline) fun hja => hfront hja hnewline

/-- In front of the parentheses the scans do the same. -/
theorem mirrors_front
    (hfront : ∀ k t, k < a → list[k]? = some t → t.kind = .newline →
      ∃ m, Loud list.toArray m ∧ k < m ∧ m < a) (hj : j ≤ a) :
    (before list end_ j).Mirrors list.toArray list'.toArray (spread a z) [] []
      (before list' end_ j) := by
  induction j with
  | zero =>
    refine ⟨rfl, rfl, by simp [before_zero, Run.rename], by simp [before_zero],
      by simp [before_zero], fun j => ?_, rfl, [], rfl, rfl⟩
    rw [before_zero, before_zero, partnerIn_replicate, partnerIn_replicate]
    rfl
  | succ j ih =>
    have hlt := h.lt_length
    have hle := h.le
    have ht := List.getElem?_eq_getElem (show j < list.length by omega)
    have hplace : spread a z j = j := spread_of_lt (by omega)
    have := @mirrors_spread_succ _ _ end_ _ _ _ _ [] [] h ht
      (fun hja hnewline => hfront j _ hja ht hnewline) (by rw [hplace]; exact ih (by omega))
    rwa [hplace] at this

/-- Behind the parentheses they do the same again, if they stand alike anywhere. -/
theorem mirrors_behind_parens (hj : z < j) (hjk : j ≤ k) (hk : k ≤ list.length)
    (hs : (before list end_ j).Mirrors list.toArray list'.toArray (spread a z) base base'
      (before list' end_ (j + 2))) :
    (before list end_ k).Mirrors list.toArray list'.toArray (spread a z) base base'
      (before list' end_ (k + 2)) := by
  have hle := h.le
  induction k, hjk using Nat.le_induction with
  | base => exact hs
  | succ k hjk ih =>
    have hplace : spread a z k = k + 2 := spread_of_gt (by omega) (by omega)
    have hs := ih (by omega)
    rw [← hplace] at hs
    have := mirrors_spread_succ h (List.getElem?_eq_getElem (show k < list.length by omega))
      (fun hka => absurd hka (by omega)) hs
    rwa [hplace] at this

end

/-! ### Tokens that end no run -/

end Scan

/-- A run with more tokens. Its leading word may be known by now. -/
structure Run.Extends (run : Run) (new : List Nat) (run' : Run) : Prop where
  indices : run'.indices.toList = run.indices.toList ++ new
  container : run'.container = run.container
  depth : run'.depth = run.depth

theorem Run.Extends.push (run : Run) (i : Nat) : run.Extends [i] (run.push i) :=
  ⟨by simp [Run.push], rfl, rfl⟩

/-- What a token adds to a run that it does not end. -/
def joins (t : Token) (i : Nat) : List Nat := if t.isTrivia then [] else [i]

namespace Scan

/-- The state behind the brace of a closure that interrupts a run. -/
def interrupt (s : Scan) (run : Run) (i : Nat) : Scan :=
  { s with
    stack := .closure i run s.groupDepth :: s.stack
    closures := i :: s.closures
    groupDepth := 0
    run := freshRun (.closure i run s.groupDepth :: s.stack) }

section

variable {tokens : Array Token} {following : Nat → Option Nat}

/-- In a group no token ends the run, -/
theorem bare_step_grouped (hgroup : s.groupDepth ≠ 0) (ht : isBracket t = false) :
    ∃ run, (s.step tokens end_ following i t).bare = bare { s with run } ∧
      s.run.Extends (joins t i) run ∧ run.head = s.run.head := by
  have hnot : ∀ pair ∈ brackets, t.isMark pair.1 = false ∧ t.isMark pair.2 = false := by
    simpa [isBracket] using ht
  simp only [brackets, List.forall_mem_cons, List.not_mem_nil, IsEmpty.forall_iff, implies_true,
    and_true] at hnot
  by_cases htrivia : t.isTrivia
  · refine ⟨s.run, ?_, ⟨by simp [joins, htrivia], rfl, rfl⟩, rfl⟩
    by_cases hnewline : t.kind = .newline
    · rw [step_newline hnewline, newline, if_neg fun hwaits => hgroup hwaits.1]
      rfl
    · rw [step_trivia htrivia hnewline]
      rfl
  · have hkind : t.kind ≠ .newline := by
      intro hkind
      simp [Lexeme.isTrivia, TokenKind.isTrivia, hkind] at htrivia
    refine ⟨(s.word t i).run, ?_, ⟨by simp [joins, htrivia, word, Run.push], rfl, rfl⟩, rfl⟩
    simp only [step, significant, hnot, hkind, htrivia, hgroup, Bool.false_eq_true, and_false,
      false_and, if_false]
    rfl

/-- and no brace opens a block. -/
theorem bare_step_brace_grouped (hgroup : s.groupDepth ≠ 0) (ht : t.isMark '{') :
    (s.step tokens end_ following i t).bare = (s.interrupt (s.run.push i) i).bare := by
  rw [bare_step_openBrace ht, openBrace, if_neg fun hwaits => hgroup hwaits.1]
  simp only
  rw [if_neg fun hblock => hgroup hblock.1]
  rfl

theorem classify_of_head {run : Run} {head : Head} (h : run.head = some head)
    (partners : Array (Option Nat)) : (classify tokens partners run).1 = run := by
  rw [classify, h]

/-- A run with its leading word looked up. -/
theorem extends_classify (partners : Array (Option Nat)) (run : Run) :
    run.Extends [] (classify tokens partners run).1 ∧
      ∀ head ∈ run.head, (classify tokens partners run).1.head = some head := by
  have hsame := @classify_same tokens partners run
  refine ⟨⟨by rw [hsame.indices, List.append_nil], hsame.container, hsame.depth⟩, fun head hhead => ?_⟩
  rw [classify_of_head hhead]
  exact hhead

/-- Outside all groups a token ends the run, leaves it as it is or joins it. -/
theorem bare_step_cases (ht : isBracket t = false) (s : Scan) (following : Nat → Option Nat) (i : Nat) :
    (s.step tokens end_ following i t).run.indices = #[] ∨
      ∃ run, (s.step tokens end_ following i t).bare = bare { s with run } ∧
        s.run.Extends (joins t i) run ∧ ∀ head ∈ s.run.head, run.head = some head := by
  have hnot : ∀ pair ∈ brackets, t.isMark pair.1 = false ∧ t.isMark pair.2 = false := by
    simpa [isBracket] using ht
  simp only [brackets, List.forall_mem_cons, List.not_mem_nil, IsEmpty.forall_iff, implies_true,
    and_true] at hnot
  obtain ⟨hlooked, hhead⟩ := @extends_classify tokens s.partners s.run
  by_cases htrivia : t.isTrivia
  · have hjoins : joins t i = [] := if_pos htrivia
    have hsame : s.run.Extends (joins t i) s.run := ⟨by rw [hjoins, List.append_nil], rfl, rfl⟩
    by_cases hnewline : t.kind = .newline
    · have hnoted : continues tokens { s with nesting := s.nesting.push s.stack.length } (following i) =
          continues tokens s (following i) := rfl
      rw [step_newline hnewline, newline, hnoted, hjoins]
      split
      · simp only
        split
        · refine .inr ⟨_, rfl, ?_⟩
          rcases continues_run s (following i) with hrun | hrun <;> rw [hrun]
          · exact ⟨hjoins ▸ hsame, fun _ h => h⟩
          · exact ⟨hlooked, hhead⟩
        · exact .inl (close_run_indices _ _)
      · exact .inr ⟨s.run, rfl, hjoins ▸ hsame, fun _ h => h⟩
    · rw [step_trivia htrivia hnewline]
      exact .inr ⟨s.run, rfl, hsame, fun _ h => h⟩
  · have hjoins : joins t i = [i] := if_neg htrivia
    have hkind : t.kind ≠ .newline := by
      intro hkind
      simp [Lexeme.isTrivia, TokenKind.isTrivia, hkind] at htrivia
    simp only [step, significant, hnot, hkind, htrivia, Bool.false_eq_true, if_false, hjoins]
    split
    · unfold terminator
      simp only
      split
      · refine .inr ⟨_, rfl, ⟨?_, hlooked.container, hlooked.depth⟩, hhead⟩
        simp [Run.push]
      · exact .inl (close_run_indices _ _)
    · split
      · exact .inl (close_run_indices _ _)
      · exact .inr ⟨(s.word t i).run, rfl, ⟨by simp [word, Run.push], rfl, rfl⟩, fun _ h => h⟩

/-- A brace opens a block or interrupts the run. -/
theorem bare_step_brace_cases (ht : t.isMark '{') (s : Scan) (following : Nat → Option Nat) (i : Nat) :
    (s.step tokens end_ following i t).run.indices = #[] ∧
        (s.step tokens end_ following i t).stack = .block i :: s.stack ∨
      ∃ run, (s.step tokens end_ following i t).bare = (s.interrupt run i).bare ∧
        s.run.Extends [i] run ∧ ∀ head ∈ s.run.head, run.head = some head := by
  have hbare := @bare_step_openBrace tokens end_ following i t ht s
  have hfound : s.run.Extends [] (if s.groupDepth = 0 ∧ !s.run.isEmpty then
        classify tokens s.partners s.run else (s.run, noHead)).1 ∧
      ∀ head ∈ s.run.head, (if s.groupDepth = 0 ∧ !s.run.isEmpty then
        classify tokens s.partners s.run else (s.run, noHead)).1.head = some head := by
    split
    · exact extends_classify s.partners s.run
    · exact ⟨⟨by simp, rfl, rfl⟩, fun _ h => h⟩
  unfold openBrace at hbare
  generalize (if s.groupDepth = 0 ∧ !s.run.isEmpty then classify tokens s.partners s.run
    else (s.run, noHead)) = found at hbare hfound
  simp only at hbare
  split at hbare
  · exact .inl ⟨congrArg (fun s : Scan => s.run.indices) hbare, stack_congr hbare⟩
  · refine .inr ⟨found.1.push i, hbare, ⟨?_, hfound.1.container, hfound.1.depth⟩, hfound.2⟩
    simp [Run.push, hfound.1.indices]

end

/-! ### In the parentheses -/

/-- What is known where parentheses open: their index, the run before them and its leading word, what
the leading word may be from then on, and the open brackets. -/
structure Entry where
  index : Nat
  known : List Nat
  head : Option Head
  allows : Option Head → Prop
  under : List Frame
  under' : List Frame

end Scan

/-- A run without the parenthesis and one with it. -/
structure Run.Wraps (f : Nat → Nat) (e : Scan.Entry) (run run' : Run) : Prop where
  indices : ∃ more, run.indices.toList = e.known ++ more ∧
    run'.indices.toList = e.known.map f ++ e.index :: more.map f
  container : run'.container = run.container.map f
  depth : run'.depth = run.depth
  head : e.allows run.head
  head' : run'.head = e.head

namespace Run.Wraps

variable {f : Nat → Nat} {e : Scan.Entry} {run run' r r' : Run} {new : List Nat}

theorem extend (h : run.Wraps f e run') (hr : run.Extends new r) (hr' : run'.Extends (new.map f) r')
    (hhead : e.allows r.head) (hhead' : r'.head = run'.head) : r.Wraps f e r' := by
  obtain ⟨more, hmore, hmore'⟩ := h.indices
  refine ⟨⟨more ++ new, ?_, ?_⟩, ?_, ?_, hhead, hhead'.trans h.head'⟩
  · rw [hr.indices, hmore, List.append_assoc]
  · rw [hr'.indices, hmore']
    simp
  · rw [hr.container, hr'.container, h.container]
  · rw [hr.depth, hr'.depth, h.depth]

theorem push (h : run.Wraps f e run') (i : Nat) : (run.push i).Wraps f e (run'.push (f i)) :=
  h.extend (.push run i) (.push run' (f i)) h.head rfl

end Run.Wraps

namespace Scan

/-- The state with brackets and a run taken from another one. -/
def onto (s' : Scan) (f : Nat → Nat) (s : Scan) : Scan :=
  { s' with
    stack := s.stack.map (Frame.rename f)
    groupDepth := s.groupDepth
    run := s.run.rename f }

/-- States in a stretch that is in parentheses in one of the lists. No brace is open in the stretch
outside a closure. -/
structure Wraps (tokens tokens' : Array Token) (f : Nat → Nat) (base base' : List Segment) (e : Entry)
    (s s' : Scan) : Prop where
  stack : ∃ top, (∀ frame ∈ top, frame.isBrace = false) ∧ s.stack = top ++ e.under ∧
    s'.stack = top.map (Frame.rename f) ++ e.under'
  groupDepth : s'.groupDepth = s.groupDepth + 1
  run : s.run.Wraps f e s'.run
  mirrors : s.Mirrors tokens tokens' f base base' (s'.onto f s)

namespace Wraps

variable {tokens tokens' : Array Token} {f : Nat → Nat} {e : Entry} {r r' : Scan}

theorem congr (hs : s.Wraps tokens tokens' f base base' e s') (hr : r.bare = s.bare)
    (hr' : r'.bare = s'.bare) : r.Wraps tokens tokens' f base base' e r' := by
  obtain ⟨stack, groupDepth, run, partners, nesting, segments, headers, closures⟩ := s
  obtain ⟨stack', groupDepth', run', partners', nesting', segments', headers', closures'⟩ := s'
  cases r
  cases r'
  cases hr
  cases hr'
  exact ⟨hs.stack, hs.groupDepth, hs.run, { hs.mirrors with stack := rfl }⟩

/-- The runs of both go on. -/
theorem with_run {run run' : Run} (hs : s.Wraps tokens tokens' f base base' e s')
    (hrun : run.Wraps f e run') :
    Wraps tokens tokens' f base base' e { s with run } { s' with run := run' } :=
  ⟨hs.stack, hs.groupDepth, hrun, { hs.mirrors with run := rfl }⟩

theorem openGroup (hs : s.Wraps tokens tokens' f base base' e s') (mark : Char) (i : Nat) :
    (s.openGroup mark i).Wraps tokens tokens' f base base' e (s'.openGroup mark (f i)) := by
  obtain ⟨top, htop, hstack, hstack'⟩ := hs.stack
  refine ⟨⟨.group mark i :: top, ?_, ?_, ?_⟩, ?_, hs.run.push i, { hs.mirrors with
    stack := rfl, groupDepth := rfl, run := rfl }⟩
  · exact List.forall_mem_cons.mpr ⟨rfl, htop⟩
  · simp [Scan.openGroup, hstack]
  · simp [Scan.openGroup, hstack', Frame.rename]
  · simp [Scan.openGroup, hs.groupDepth]

theorem braces (hs : s.Wraps tokens tokens' f base base' e s')
    (hunder : openBraces e.under' = (openBraces e.under).map f) :
    openBraces s'.stack = (openBraces s.stack).map f := by
  obtain ⟨top, htop, hstack, hstack'⟩ := hs.stack
  have htop' : ∀ frame ∈ top.map (Frame.rename f), frame.isBrace = false := by
    simpa using htop
  rw [hstack, hstack', openBraces_append htop, openBraces_append htop', hunder]

/-- The brace of a closure leads both scans inside. -/
theorem interrupt (hs : s.Wraps tokens tokens' f base base' e s')
    (hunder : openBraces e.under' = (openBraces e.under).map f) (run run' : Run) (i : Nat) :
    (s.interrupt run i).Inside tokens tokens' f base base' (s'.interrupt run' (f i)) := by
  have hbraces : openBraces (s'.interrupt run' (f i)).stack =
      (openBraces (s.interrupt run i).stack).map f := by
    simp only [Scan.interrupt, openBraces_cons_closure, List.map_cons, hs.braces hunder]
  refine ⟨hbraces, { hs.mirrors with stack := rfl, groupDepth := rfl, run := ?_, closures := ?_ }⟩
  · change freshRun (s'.interrupt run' (f i)).stack = (freshRun (s.interrupt run i).stack).rename f
    rw [← freshRun_map, freshRun_eq, freshRun_eq, openBraces_map, hbraces]
  · exact congrArg (f i :: ·) hs.mirrors.closures

section

variable (h : Renaming tokens tokens' f) {below below' : List Frame}
  (hbelow : ∃ top, (∀ frame ∈ top, frame.isBrace = false) ∧ below = top ++ e.under ∧
    below' = top.map (Frame.rename f) ++ e.under')
include h hbelow

/-- A group that closes in both. -/
theorem closeGroup {k : Nat} (hs : s.Wraps tokens tokens' f base base' e s')
    (hk : k < tokens.size) (hi : i < tokens.size) (hgroup : s.groupDepth ≠ 0) :
    Wraps tokens tokens' f base base' e
      { s.pair k i with stack := below, groupDepth := s.groupDepth - 1, run := s.run.push i }
      { s'.pair (f k) (f i) with
        stack := below', groupDepth := s'.groupDepth - 1, run := s'.run.push (f i) } := by
  have hpaired := hs.mirrors.pair h hk hi
  refine ⟨hbelow, ?_, hs.run.push i, { hpaired with stack := rfl, groupDepth := rfl, run := rfl }⟩
  simp only [hs.groupDepth]
  omega

/-- A closure that ends gives its run back. -/
theorem resume {k depth : Nat} {run run' : Run} (hs : s.Inside tokens tokens' f base base' s')
    (hrun : run.Wraps f e run') (hk : k < tokens.size) (hi : i < tokens.size) :
    Wraps tokens tokens' f base base' e
      { (s.close tokens { boundary := some i }).pair k i with
        stack := below, run := run.push i, groupDepth := depth }
      { (s'.close tokens' { boundary := some (f i) }).pair (f k) (f i) with
        stack := below', run := run'.push (f i), groupDepth := depth + 1 } := by
  have hpaired := (hs.mirrors.close h { boundary := some i }).pair h hk hi
  rw [close_on] at hpaired
  exact ⟨hbelow, rfl, hrun.push i, { hpaired with stack := rfl, groupDepth := rfl, run := rfl }⟩

end

end Wraps

/-- Where the old scan may change a run: it ends no run outside all groups, and opens no block. -/
structure Guard (list list' : List Token) (end_ : Text) (f : Nat → Nat) (base base' : List Segment)
    (e : Entry) (i j : Nat) : Prop where
  other : ∀ k t, i ≤ k → k < j → list[k]? = some t → isBracket t = false →
    (before list end_ k).groupDepth = 0 →
    (before list end_ k).Wraps list.toArray list'.toArray f base base' e
      (before list' end_ (k + 1)) →
    ∃ run, (before list end_ (k + 1)).bare = bare { before list end_ k with run } ∧
      (before list end_ k).run.Extends (joins t k) run ∧ e.allows run.head
  brace : ∀ k t, i ≤ k → k < j → list[k]? = some t → t.isMark '{' →
    (before list end_ k).groupDepth = 0 →
    (before list end_ k).Wraps list.toArray list'.toArray f base base' e
      (before list' end_ (k + 1)) →
    ∃ run, (before list end_ (k + 1)).bare = ((before list end_ k).interrupt run k).bare ∧
      (before list end_ k).run.Extends [k] run ∧ e.allows run.head

theorem Guard.mono {f : Nat → Nat} {e : Entry} (h : Guard list list' end_ f base base' e i j)
    {i' j' : Nat} (hi : i ≤ i') (hj : j' ≤ j) : Guard list list' end_ f base base' e i' j' :=
  ⟨fun k t hik hkj => h.other k t (hi.trans hik) (hkj.trans_le hj),
    fun k t hik hkj => h.brace k t (hi.trans hik) (hkj.trans_le hj)⟩

namespace Wraps

variable {f : Nat → Nat} {e : Entry} (h : Renaming list.toArray list'.toArray f)
  (hmoved : Moved list list' f i j)

section

variable (hguard : Guard list list' end_ f base base' e i j) (hik : i ≤ k) (hkj : k < j)
  (ht : list[k]? = some t)
  (hs : (before list end_ k).Wraps list.toArray list'.toArray f base base' e
    (before list' end_ (k + 1)))
include h hmoved hguard hik hkj ht hs

theorem before_other (hother : isBracket t = false) :
    (before list end_ (k + 1)).Wraps list.toArray list'.toArray f base base' e
      (before list' end_ (k + 1 + 1)) := by
  obtain ⟨t', ht', hlexeme⟩ := hmoved.exists_token h hik hkj ht
  have hother' : isBracket t' = false := by
    rw [← hother, isBracket, isBracket, hlexeme]
  have hgroup' : (before list' end_ (k + 1)).groupDepth ≠ 0 := by
    rw [hs.groupDepth]
    omega
  obtain ⟨run', hbare', hrun', hhead'⟩ := @bare_step_grouped end_ (k + 1) t' _ list'.toArray
    (nextAfter list') hgroup' hother'
  rw [← before_succ ht'] at hbare'
  obtain ⟨run, hbare, hrun, hhead⟩ : ∃ run, (before list end_ (k + 1)).bare =
      bare { before list end_ k with run } ∧
      (before list end_ k).run.Extends (joins t k) run ∧ e.allows run.head := by
    by_cases hgroup : (before list end_ k).groupDepth = 0
    · exact hguard.other k t hik hkj ht hother hgroup hs
    · obtain ⟨run, hbare, hrun, hhead⟩ := @bare_step_grouped end_ k t _ list.toArray
        (nextAfter list) hgroup hother
      rw [← before_succ ht] at hbare
      exact ⟨run, hbare, hrun, hhead ▸ hs.run.head⟩
  have hjoins : joins t' (k + 1) = (joins t k).map f := by
    rw [joins, joins, hlexeme, ← hmoved.place k hik hkj]
    split <;> rfl
  rw [hjoins] at hrun'
  exact (hs.with_run (hs.run.extend hrun hrun' hhead hhead')).congr hbare hbare'

/-- A brace opens a closure in both. -/
theorem before_brace (hmark : t.isMark '{') :
    ∃ run run', (before list end_ (k + 1)).bare = ((before list end_ k).interrupt run k).bare ∧
      (before list' end_ (k + 1 + 1)).bare =
        ((before list' end_ (k + 1)).interrupt run' (f k)).bare ∧ run.Wraps f e run' := by
  obtain ⟨t', ht', hlexeme⟩ := hmoved.exists_token h hik hkj ht
  have hplace := hmoved.place k hik hkj
  have hgroup' : (before list' end_ (k + 1)).groupDepth ≠ 0 := by
    rw [hs.groupDepth]
    omega
  have hbare' := @bare_step_brace_grouped end_ (k + 1) t' _ list'.toArray (nextAfter list') hgroup'
    (by rwa [hlexeme])
  rw [← before_succ ht'] at hbare'
  obtain ⟨run, hbare, hrun, hhead⟩ : ∃ run, (before list end_ (k + 1)).bare =
      ((before list end_ k).interrupt run k).bare ∧
      (before list end_ k).run.Extends [k] run ∧ e.allows run.head := by
    by_cases hgroup : (before list end_ k).groupDepth = 0
    · exact hguard.brace k t hik hkj ht hmark hgroup hs
    · have hbare := @bare_step_brace_grouped end_ k t _ list.toArray (nextAfter list) hgroup hmark
      rw [← before_succ ht] at hbare
      exact ⟨_, hbare, .push _ k, hs.run.head⟩
  rw [← hplace] at hbare'
  refine ⟨run, _, hbare, ?_, hs.run.extend hrun (.push _ (f k)) hhead rfl⟩
  rwa [hplace] at hbare' ⊢

omit hguard in
theorem before_openGroup {b : Char} (hb : b = '(' ∨ b = '[') (hmark : t.isMark b) :
    (before list end_ (k + 1)).Wraps list.toArray list'.toArray f base base' e
        (before list' end_ (k + 1 + 1)) ∧
      (before list end_ (k + 1)).stack = .group b k :: (before list end_ k).stack ∧
      (before list' end_ (k + 1 + 1)).stack = .group b (f k) :: (before list' end_ (k + 1)).stack := by
  obtain ⟨t', ht', hlexeme⟩ := hmoved.exists_token h hik hkj ht
  have hbare := @bare_step_openGroup list.toArray end_ (nextAfter list) k t b hb hmark
    (before list end_ k)
  have hbare' := @bare_step_openGroup list'.toArray end_ (nextAfter list') (k + 1) t' b hb
    (by rwa [hlexeme]) (before list' end_ (k + 1))
  rw [← before_succ ht] at hbare
  rw [← before_succ ht'] at hbare'
  rw [hmoved.place k hik hkj]
  refine ⟨(hs.openGroup b k).congr hbare ?_, congrArg Scan.stack hbare, congrArg Scan.stack hbare'⟩
  rwa [hmoved.place k hik hkj]

end

section

variable (hik : i ≤ k) (hkj : k < j) (ht : list[k]? = some t) {below below' : List Frame} {m : Nat}
  (hm : m < list.length)
  (hbelow : ∃ top, (∀ frame ∈ top, frame.isBrace = false) ∧ below = top ++ e.under ∧
    below' = top.map (Frame.rename f) ++ e.under')
include h hmoved hik hkj ht hm hbelow

theorem before_closeGroup {b c : Char}
    (hs : (before list end_ k).Wraps list.toArray list'.toArray f base base' e
      (before list' end_ (k + 1)))
    (hopen : (before list end_ k).stack = .group b m :: below)
    (hopen' : (before list' end_ (k + 1)).stack = .group b (f m) :: below')
    (hframe : (Frame.group b m).closer? = some c) (hmark : t.isMark c) :
    (before list end_ (k + 1)).Wraps list.toArray list'.toArray f base base' e
        (before list' end_ (k + 1 + 1)) ∧
      (before list end_ (k + 1)).stack = below ∧
      (before list' end_ (k + 1 + 1)).stack = below' := by
  obtain ⟨t', ht', hlexeme⟩ := hmoved.exists_token h hik hkj ht
  have hk := (List.getElem?_eq_some_iff.mp ht).1
  have hgroup : (before list end_ k).groupDepth ≠ 0 := by
    rw [(@before_grouped list end_ k hk.le).depth, hopen, openGroups_cons_group]
    omega
  have hframe' : (Frame.group b (f m)).closer? = some c := hframe
  have hbare := @bare_step_closeGroup list.toArray end_ (nextAfter list) _ k t _ b c m hopen hframe hmark
  have hbare' := @bare_step_closeGroup list'.toArray end_ (nextAfter list') _ (k + 1) t' _ b c (f m)
    hopen' hframe' (by rwa [hlexeme])
  rw [← before_succ ht] at hbare
  rw [← before_succ ht', ← hmoved.place k hik hkj] at hbare'
  refine ⟨(hs.closeGroup h hbelow (by simpa using hm) (by simpa using hk) hgroup).congr hbare ?_,
    congrArg Scan.stack hbare, ?_⟩
  · rwa [hmoved.place k hik hkj] at hbare' ⊢
  · rw [hmoved.place k hik hkj] at hbare'
    exact congrArg Scan.stack hbare'

theorem before_resume {run run' : Run} {depth : Nat}
    (hs : (before list end_ k).Inside list.toArray list'.toArray f base base'
      (before list' end_ (k + 1)))
    (hopen : (before list end_ k).stack = .closure m run depth :: below)
    (hopen' : (before list' end_ (k + 1)).stack = .closure (f m) run' (depth + 1) :: below')
    (hrun : run.Wraps f e run') (hmark : t.isMark '}') :
    (before list end_ (k + 1)).Wraps list.toArray list'.toArray f base base' e
        (before list' end_ (k + 1 + 1)) ∧
      (before list end_ (k + 1)).stack = below ∧
      (before list' end_ (k + 1 + 1)).stack = below' := by
  obtain ⟨t', ht', hlexeme⟩ := hmoved.exists_token h hik hkj ht
  have hk := (List.getElem?_eq_some_iff.mp ht).1
  have hbare := @bare_step_closeClosure list.toArray end_ (nextAfter list) _ k t _ m depth run hopen
    hmark
  have hbare' := @bare_step_closeClosure list'.toArray end_ (nextAfter list') _ (k + 1) t' _ (f m)
    (depth + 1) run' hopen' (by rwa [hlexeme])
  rw [← before_succ ht] at hbare
  rw [← before_succ ht'] at hbare'
  refine ⟨(resume h hbelow hs hrun (by simpa using hm) (by simpa using hk)).congr hbare ?_,
    congrArg Scan.stack hbare, congrArg Scan.stack hbare'⟩
  rwa [hmoved.place k hik hkj]

end

end Wraps

/-- To the end of a Dyck word the scans go on alike, but for the parenthesis. -/
theorem Wraps.run_dyck {f : Nat → Nat} {e : Entry} (h : Renaming list.toArray list'.toArray f)
    (hunder : openBraces e.under' = (openBraces e.under).map f) {word : List Token}
    {pairs : List (Nat × Nat)} (hdyck : Dyck i word pairs) (hword : Stands list.toArray i word)
    (hmoved : Moved list list' f i (i + word.length))
    (hguard : Guard list list' end_ f base base' e i (i + word.length))
    (hs : (before list end_ i).Wraps list.toArray list'.toArray f base base' e
      (before list' end_ (i + 1))) :
    (before list end_ (i + word.length)).Wraps list.toArray list'.toArray f base base' e
        (before list' end_ (i + word.length + 1)) ∧
      (before list end_ (i + word.length)).stack = (before list end_ i).stack ∧
      (before list' end_ (i + word.length + 1)).stack = (before list' end_ (i + 1)).stack := by
  induction hdyck with
  | nil i => exact ⟨hs, rfl, rfl⟩
  | @other i t rest pairs hother hrest ih =>
    have ht := List.getElem?_toArray.symm.trans hword.head
    rw [List.length_cons, Nat.add_comm rest.length 1, ← Nat.add_assoc] at hmoved hguard ⊢
    have hs₁ := hs.before_other h hmoved hguard (Nat.le_refl i) (by omega) ht hother
    obtain ⟨t', ht', hlexeme⟩ := hmoved.exists_token h (Nat.le_refl i) (by omega) ht
    have hother' : isBracket t' = false := by
      rw [← hother, isBracket, isBracket, hlexeme]
    have hkept := @Dyck.step_other list.toArray end_ (nextAfter list) (before list end_ i) t hother i
    have hkept' := @Dyck.step_other list'.toArray end_ (nextAfter list') (before list' end_ (i + 1)) t'
      hother' (i + 1)
    rw [← before_succ ht] at hkept
    rw [← before_succ ht'] at hkept'
    obtain ⟨hs₂, hstack, hstack'⟩ := ih hword.tail (hmoved.mono (by omega) (Nat.le_refl _))
      (hguard.mono (by omega) (Nat.le_refl _)) hs₁
    exact ⟨hs₂, hstack.trans hkept, hstack'.trans hkept'⟩
  | @group i opener closer inner rest inside behind pair hpair hopener hinner hcloser hrest ihin
      ihrest =>
    have hopening := List.getElem?_toArray.symm.trans hword.head
    have hclosing := List.getElem?_toArray.symm.trans hword.tail.append_right.head
    have hlength : i + (opener :: (inner ++ closer :: rest)).length =
        i + 1 + inner.length + 1 + rest.length := by
      simp only [List.length_cons, List.length_append]
      omega
    rw [hlength] at hmoved hguard ⊢
    have hmoved₁ := hmoved.mono (show i ≤ i + 1 by omega)
      (show i + 1 + inner.length ≤ i + 1 + inner.length + 1 + rest.length by omega)
    have hguard₁ := hguard.mono (show i ≤ i + 1 by omega)
      (show i + 1 + inner.length ≤ i + 1 + inner.length + 1 + rest.length by omega)
    have hlt := (List.getElem?_eq_some_iff.mp hopening).1
    suffices hclosed : (before list end_ (i + 1 + inner.length + 1)).Wraps list.toArray list'.toArray
          f base base' e (before list' end_ (i + 1 + inner.length + 1 + 1)) ∧
        (before list end_ (i + 1 + inner.length + 1)).stack = (before list end_ i).stack ∧
        (before list' end_ (i + 1 + inner.length + 1 + 1)).stack =
          (before list' end_ (i + 1)).stack by
      obtain ⟨hs₁, hkept, hkept'⟩ := hclosed
      obtain ⟨hs₂, hstack, hstack'⟩ := ihrest hword.tail.append_right.tail
        (hmoved.mono (by omega) (Nat.le_refl _)) (hguard.mono (by omega) (Nat.le_refl _)) hs₁
      exact ⟨hs₂, hstack.trans hkept, hstack'.trans hkept'⟩
    by_cases hbrace : pair = ('{', '}')
    · -- What is in the braces is the body of a closure, and the run goes on behind it.
      subst hbrace
      obtain ⟨run, run', hbare, hbare', hrun⟩ :=
        hs.before_brace h hmoved hguard (Nat.le_refl i) (by omega) hopening hopener
      have hinside := (hs.interrupt hunder run run' i).congr hbare hbare'
      obtain ⟨hinside₂, hkept, hkept'⟩ := hinside.run h hinner hword.tail.append_left hmoved₁
      refine before_resume h hmoved (by omega) (by omega) hclosing hlt hs.stack hinside₂
        (hkept.trans (congrArg Scan.stack hbare)) ?_ hrun hcloser
      rw [← hs.groupDepth]
      exact hkept'.trans (congrArg Scan.stack hbare')
    · obtain ⟨hb, hframe⟩ : (pair.1 = '(' ∨ pair.1 = '[') ∧
          (Frame.group pair.1 i).closer? = some pair.2 := by
        simp only [brackets, List.mem_cons, List.not_mem_nil, or_false] at hpair
        rcases hpair with rfl | rfl | rfl
        · exact ⟨.inl rfl, rfl⟩
        · exact ⟨.inr rfl, rfl⟩
        · exact absurd rfl hbrace
      obtain ⟨hs₁, hopen, hopen'⟩ :=
        hs.before_openGroup h hmoved (Nat.le_refl i) (by omega) hopening hb hopener
      obtain ⟨hs₂, hkept, hkept'⟩ := ihin hword.tail.append_left hmoved₁ hguard₁ hs₁
      exact hs₂.before_closeGroup h hmoved (by omega) (by omega) hclosing hlt hs.stack
        (hkept.trans hopen) (hkept'.trans hopen') hframe hcloser

end Scan
end HouseStyle.Outline
