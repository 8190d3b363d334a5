import HouseStyle.Proofs.Outline.Nested
import Mathlib.Order.Monotone.Basic

/-! The scan of tokens that stand elsewhere. Where the tokens of one list stand in another one, in
their order, a token leads from states that mirror each other to states that do. The lists may
differ in between, and so may the segments that are behind both scans. -/

namespace HouseStyle

open Outline

/-! ### Other indices -/

section

variable (f : Nat → Nat)

def Segment.rename (s : Segment) : Segment :=
  { s with
    indices := s.indices.map f
    boundary := s.boundary.map f
    container := s.container.map f }

namespace Outline

def Run.rename (run : Run) : Run :=
  { run with
    indices := run.indices.map f
    container := run.container.map f }

def Frame.rename : Frame → Frame
  | group bracket i => group bracket (f i)
  | block i => block (f i)
  | closure i resume depth => closure (f i) (resume.rename f) depth

def Scan.Ending.rename (ending : Scan.Ending) : Scan.Ending :=
  { ending with boundary := ending.boundary.map f }

end Outline

end

namespace Outline

/-- Where the tokens of a list stand in another one: in order, with their lexemes and lines. -/
structure Renaming (tokens tokens' : Array Token) (f : Nat → Nat) : Prop where
  mono : StrictMono f
  lexeme : ∀ j, (tokens'[f j]?).map (·.toLexeme) = (tokens[j]?).map (·.toLexeme)
  line : ∀ j t t', tokens[j]? = some t → tokens'[f j]? = some t' → t'.line = t.line

variable {tokens tokens' : Array Token} {partners partners' : Array (Option Nat)} {f : Nat → Nat}

namespace Renaming

variable (h : Renaming tokens tokens' f)
include h

theorem tokenIs_map (p : Lexeme → Bool) (j : Nat) :
    tokenIs tokens' (fun t => p t.toLexeme) (f j) = tokenIs tokens (fun t => p t.toLexeme) j := by
  have hj := h.lexeme j
  simp only [tokenIs]
  cases ht : tokens[j]? <;> cases ht' : tokens'[f j]? <;> simp_all

theorem lt_size_iff (j : Nat) : f j < tokens'.size ↔ j < tokens.size := by
  have hj := congrArg Option.isSome (h.lexeme j)
  rw [Option.isSome_map, Option.isSome_map, Bool.eq_iff_iff] at hj
  simpa using hj

/-! ### The leading word -/

section

variable (hpartners : ∀ j, partnerIn partners' (f j) = (partnerIn partners j).map f)
include hpartners

theorem skipGroup_map (run : List Nat) :
    skipGroup tokens' partners' (run.map f) = (skipGroup tokens partners run).map f := by
  cases run with
  | nil => rfl
  | cons i rest =>
    simp only [List.map_cons, skipGroup, h.tokenIs_map (·.isMark '('), hpartners]
    split_ifs
    · cases partnerIn partners i with
      | none => rfl
      | some close =>
        simp only [Option.map_some]
        rw [← List.map_cons, List.dropWhile_map]
        simp only [Function.comp_def, h.mono.le_iff_le]
    · rfl

theorem fromHead_map (run : List Nat) :
    fromHead tokens' partners' (run.map f) = (fromHead tokens partners run).map f := by
  have hskip := h.skipGroup_map hpartners
  have hat := h.tokenIs_map (·.isMark '@')
  have hname := h.tokenIs_map (·.kind = .identifier)
  have hmodifier := h.tokenIs_map (·.isKeyword modifiers)
  have hclass := h.tokenIs_map (·.isKeyword ["class"])
  have hmember := h.tokenIs_map (·.isKeyword classMembers)
  fun_induction fromHead tokens partners run with
  | case1 => simp [fromHead]
  | case2 i h₁ =>
    rw [List.map_cons, fromHead.eq_def]
    simp only [hat, h₁, if_true]
    rfl
  | case3 i h₁ name rest h₂ ih =>
    rw [List.map_cons, List.map_cons, fromHead.eq_def]
    simp only [hat, h₁, hname, h₂, if_true, hskip, ih]
  | case4 i h₁ name rest h₂ ih =>
    rw [List.map_cons, List.map_cons, fromHead.eq_def]
    simp only [hat, h₁, hname, h₂, if_true, if_false, Bool.false_eq_true, ← List.map_cons, hskip, ih]
  | case5 i rest h₁ h₂ ih =>
    rw [List.map_cons, fromHead.eq_def]
    simp only [hat, h₁, hmodifier, h₂, if_true, if_false, Bool.false_eq_true, hskip, ih]
  | case6 i rest h₁ h₂ h₃ ih =>
    rw [List.map_cons, fromHead.eq_def]
    simp only [hat, h₁, hmodifier, h₂, hclass, h₃, List.head?_map, Option.map_map,
      Function.comp_def, hmember, if_true, if_false, Bool.false_eq_true, ih]
  | case7 i rest h₁ h₂ h₃ =>
    rw [List.map_cons, fromHead.eq_def]
    simp only [hat, h₁, hmodifier, h₂, hclass, h₃, List.head?_map, Option.map_map,
      Function.comp_def, hmember, if_false, Bool.false_eq_true]

theorem head?_map (run : List Nat) :
    head? tokens' partners' (run.map f) = head? tokens partners run := by
  simp only [head?, h.fromHead_map hpartners]
  cases fromHead tokens partners run with
  | nil => rfl
  | cons i rest =>
    have hi := h.lexeme i
    simp only [List.map_cons]
    cases ht : tokens[i]? <;> cases ht' : tokens'[f i]? <;> simp_all

end

end Renaming

/-! ### States -/

namespace Scan

/-- A state whose open brackets, run and pairs are those of another one, at other indices. Behind
both scans are segments that need not match; all that came since then do. -/
structure Mirrors (tokens tokens' : Array Token) (f : Nat → Nat) (base base' : List Segment)
    (s s' : Scan) : Prop where
  stack : s'.stack = s.stack.map (Frame.rename f)
  groupDepth : s'.groupDepth = s.groupDepth
  run : s'.run = s.run.rename f
  room : s.partners.size = tokens.size
  room' : s'.partners.size = tokens'.size
  partners : ∀ j, partnerIn s'.partners (f j) = (partnerIn s.partners j).map f
  closures : s'.closures = s.closures.map f
  segments : ∃ later, s.segments = later ++ base ∧
    s'.segments = later.map (Segment.rename f) ++ base'

/-! ### Runs and stacks -/

@[simp] theorem rename_isEmpty (run : Run) : (run.rename f).isEmpty = run.isEmpty := by
  simp [Run.rename, Run.isEmpty, Array.isEmpty]

@[simp] theorem rename_push (run : Run) (i : Nat) :
    (run.rename f).push (f i) = (run.push i).rename f := by
  simp [Run.rename, Run.push]

@[simp] theorem rename_restart (run : Run) : (run.rename f).restart = run.restart.rename f := by
  simp [Run.rename, Run.restart]

@[simp] theorem rename_isBrace (frame : Frame) : (frame.rename f).isBrace = frame.isBrace := by
  cases frame <;> rfl

@[simp] theorem rename_index (frame : Frame) : (frame.rename f).index = f frame.index := by
  cases frame <;> rfl

theorem freshRun_map (f : Nat → Nat) (stack : List Frame) :
    freshRun (stack.map (Frame.rename f)) = (freshRun stack).rename f := by
  have hfilter : (stack.map (Frame.rename f)).filter Frame.isBrace =
      (stack.filter Frame.isBrace).map (Frame.rename f) := by
    rw [List.filter_map]
    congr 1
    exact List.filter_congr fun frame _ => rename_isBrace frame
  simp [freshRun, Run.rename, hfilter, Option.map_map, Function.comp_def]

theorem groupOpener?_map (f : Nat → Nat) (mark : Char) (stack : List Frame) :
    groupOpener? mark (stack.map (Frame.rename f)) =
      (groupOpener? mark stack).map fun (n, i, below) => (n, f i, below.map (Frame.rename f)) := by
  induction stack with
  | nil => rfl
  | cons frame rest ih =>
    cases frame with
    | group b i =>
      simp only [List.map_cons, Frame.rename, groupOpener?]
      split_ifs
      · rfl
      · rw [ih, Option.map_map, Option.map_map]
        rfl
    | block i => rfl
    | closure i resume depth => rfl

theorem braceOpener?_map (f : Nat → Nat) (stack : List Frame) :
    braceOpener? (stack.map (Frame.rename f)) =
      (braceOpener? stack).map fun (frame, below) =>
        (frame.rename f, below.map (Frame.rename f)) := by
  induction stack with
  | nil => rfl
  | cons frame rest ih =>
    cases frame with
    | group b i => exact ih
    | block i => rfl
    | closure i resume depth => rfl

section

variable (h : Renaming tokens tokens' f)
  (hpartners : ∀ j, partnerIn partners' (f j) = (partnerIn partners j).map f)
include h

theorem startsLabel_rename (run : Run) :
    startsLabel tokens' (run.rename f) = startsLabel tokens run := by
  simp only [startsLabel, Run.rename, Array.getElem?_map, Option.map_map, Function.comp_def,
    h.tokenIs_map (·.isKeyword ["case", "default"])]

theorem expectsBlock_rename (run : Run) (head : Head) :
    expectsBlock tokens' (run.rename f) head = expectsBlock tokens run head := by
  simp only [expectsBlock, Run.rename, Array.getElem?_map, Option.map_map, Function.comp_def,
    h.tokenIs_map (accessors.contains ·.text)]

include hpartners

theorem classify_rename (run : Run) :
    classify tokens' partners' (run.rename f) =
      ((classify tokens partners run).1.rename f, (classify tokens partners run).2) := by
  obtain ⟨indices, container, depth, assigned, found⟩ := run
  have hhead := h.head?_map hpartners indices.toList
  simp only [classify, Run.rename, Array.toList_map, hhead]
  cases found with
  | some head => rfl
  | none => cases head? tokens partners indices.toList <;> rfl

theorem toSegment_rename (run : Run) (ending : Ending) :
    toSegment tokens' partners' (run.rename f) (ending.rename f) =
      (toSegment tokens partners run ending).rename f := by
  simp only [toSegment, classify_rename h hpartners]
  simp [Segment.rename, Run.rename, Ending.rename]

end

/-! ### Steps -/

namespace Mirrors

variable {base base' : List Segment} {s s' : Scan} {i : Nat}

theorem with_run (hs : s.Mirrors tokens tokens' f base base' s') (run : Run) :
    Mirrors tokens tokens' f base base' { s with run } { s' with run := run.rename f } :=
  { hs with run := rfl }

theorem with_nesting (hs : s.Mirrors tokens tokens' f base base' s') (nesting nesting' : Array Nat) :
    Mirrors tokens tokens' f base base' { s with nesting } { s' with nesting := nesting' } :=
  { hs with }

theorem push (hs : s.Mirrors tokens tokens' f base base' s') (i : Nat) :
    Mirrors tokens tokens' f base base' { s with run := s.run.push i }
      { s' with run := s'.run.push (f i) } := by
  rw [hs.run, rename_push]
  exact hs.with_run _

/-- Both scans turn the same way. -/
theorem ite {p : Prop} [Decidable p] {a b a' b' : Scan}
    (ha : p → a.Mirrors tokens tokens' f base base' a')
    (hb : ¬p → b.Mirrors tokens tokens' f base base' b') :
    (if p then a else b).Mirrors tokens tokens' f base base' (if p then a' else b') := by
  split_ifs with hp
  · exact ha hp
  · exact hb hp

section

variable (h : Renaming tokens tokens' f) (hs : s.Mirrors tokens tokens' f base base' s')
include h hs

theorem close (ending : Ending) :
    (s.close tokens ending).Mirrors tokens tokens' f base base'
      (s'.close tokens' (ending.rename f)) := by
  obtain ⟨later, hlater, hlater'⟩ := hs.segments
  unfold Scan.close
  rw [hs.run, rename_isEmpty]
  split_ifs
  · exact hs
  · refine { hs with run := rename_restart s.run, segments := ?_ }
    refine ⟨toSegment tokens s.partners s.run ending :: later, ?_, ?_⟩
    · rw [hlater, List.cons_append]
    · rw [toSegment_rename h hs.partners, hlater', List.map_cons, List.cons_append]

/-- The bracket pair is made in both, for the arrays have room for all tokens. -/
theorem pair {opening closing : Nat} (ho : opening < tokens.size) (hc : closing < tokens.size) :
    (s.pair opening closing).Mirrors tokens tokens' f base base'
      (s'.pair (f opening) (f closing)) := by
  refine { hs with room := ?_, room' := ?_, partners := fun j => ?_ }
  · simp [Scan.pair, hs.room]
  · simp [Scan.pair, hs.room']
  · rw [partnerIn_pair_eq s (by rwa [hs.room]) (by rwa [hs.room]),
      partnerIn_pair_eq s' (by rwa [hs.room', h.lt_size_iff]) (by rwa [hs.room', h.lt_size_iff]),
      hs.partners]
    simp only [h.mono.injective.eq_iff]
    split_ifs <;> rfl

theorem continues (following : Option Nat) :
    Scan.continues tokens' s' (following.map f) =
      ((Scan.continues tokens s following).1.rename f, (Scan.continues tokens s following).2) := by
  have hafter (p : Lexeme → Bool) :
      ((s.run.rename f).indices.back?.map (tokenIs tokens' fun t => p t.toLexeme)).getD false =
        (s.run.indices.back?.map (tokenIs tokens fun t => p t.toLexeme)).getD false := by
    simp [Run.rename, Function.comp_def, h.tokenIs_map p]
  simp only [Scan.continues, hs.run,
    hafter fun t => t.kind = .punctuation && trailingContinuation.contains t.text,
    hafter (·.isKeyword trailingContinuationWords), classify_rename h hs.partners,
    expectsBlock_rename h]
  cases following with
  | none => split_ifs <;> rfl
  | some k =>
    have hk := h.lexeme k
    simp only [Option.map_some, Option.bind_some]
    cases ht : tokens[k]? with
    | none =>
      have ht' : tokens'[f k]? = none := by simpa [ht] using hk
      simp only [ht']
      split_ifs <;> rfl
    | some t =>
      obtain ⟨t', ht', heq⟩ : ∃ t', tokens'[f k]? = some t' ∧ t'.toLexeme = t.toLexeme := by
        simpa [ht] using hk
      simp only [ht', heq]
      split_ifs <;> rfl

omit h in
theorem waits_iff : (s'.groupDepth = 0 ∧ !s'.run.isEmpty) ↔ (s.groupDepth = 0 ∧ !s.run.isEmpty) := by
  rw [hs.groupDepth, hs.run, rename_isEmpty]

theorem newline (following : Option Nat) :
    (s.newline tokens following i).Mirrors tokens tokens' f base base'
      (s'.newline tokens' (following.map f) (f i)) := by
  simp only [Scan.newline, hs.waits_iff, hs.continues h]
  split_ifs
  · exact hs.with_run _
  · exact (hs.with_run _).close h { boundary := some i }
  · exact hs

omit h in
theorem openGroup (mark : Char) :
    (s.openGroup mark i).Mirrors tokens tokens' f base base' (s'.openGroup mark (f i)) :=
  { hs.push i with
    stack := by simp [Scan.openGroup, hs.stack, Frame.rename]
    groupDepth := by simp [Scan.openGroup, hs.groupDepth] }

section

variable (hstack : ∀ frame ∈ s.stack, frame.index < tokens.size) (hi : i < tokens.size)
include hstack hi

theorem closeGroup (mark : Char) :
    (s.closeGroup mark i).Mirrors tokens tokens' f base base' (s'.closeGroup mark (f i)) := by
  have hfound' := groupOpener?_map f mark s.stack
  rw [← hs.stack] at hfound'
  simp only [Scan.closeGroup, hfound']
  cases hfound : groupOpener? mark s.stack with
  | none => exact hs.push i
  | some found =>
    obtain ⟨above, opening, below⟩ := found
    have ho := hstack _ (groupOpener?_spec hfound).1
    exact { (hs.pair h ho hi).push i with
      stack := rfl
      groupDepth := by simp [hs.groupDepth] }

theorem closeBrace :
    (s.closeBrace tokens i).Mirrors tokens tokens' f base base' (s'.closeBrace tokens' (f i)) := by
  have hfound' := braceOpener?_map f s.stack
  rw [← hs.stack] at hfound'
  simp only [Scan.closeBrace, hfound']
  cases hfound : braceOpener? s.stack with
  | none => exact hs.push i
  | some found =>
    obtain ⟨frame, below⟩ := found
    have ho := hstack _ (braceOpener?_spec hfound).1
    have hpaired := (hs.close h { boundary := some i }).pair h ho hi
    cases frame with
    | group bracket k | block k =>
      exact { hpaired with
        stack := rfl
        groupDepth := rfl
        run := freshRun_map f below }
    | closure k resume depth =>
      exact { hpaired with
        stack := rfl
        groupDepth := rfl
        run := rename_push resume i }

end

theorem openBrace :
    (s.openBrace tokens i).Mirrors tokens tokens' f base base' (s'.openBrace tokens' (f i)) := by
  have hfound : (if s'.groupDepth = 0 ∧ !s'.run.isEmpty then classify tokens' s'.partners s'.run
      else (s'.run, noHead)) =
      ((if s.groupDepth = 0 ∧ !s.run.isEmpty then classify tokens s.partners s.run
        else (s.run, noHead)).1.rename f,
      (if s.groupDepth = 0 ∧ !s.run.isEmpty then classify tokens s.partners s.run
        else (s.run, noHead)).2) := by
    by_cases hwaits : s.groupDepth = 0 ∧ !s.run.isEmpty
    · rw [if_pos hwaits, if_pos (hs.waits_iff.mpr hwaits), hs.run, classify_rename h hs.partners]
    · rw [if_neg hwaits, if_neg (hs.waits_iff.not.mpr hwaits), hs.run]
  simp only [Scan.openBrace, hfound, rename_isEmpty, expectsBlock_rename h]
  generalize (if s.groupDepth = 0 ∧ !s.run.isEmpty then classify tokens s.partners s.run
    else (s.run, noHead)) = found
  obtain ⟨later, hlater, hlater'⟩ := hs.segments
  have hblocks : (s'.groupDepth = 0 ∧ (found.1.isEmpty ∨ expectsBlock tokens found.1 found.2)) ↔
      s.groupDepth = 0 ∧ (found.1.isEmpty ∨ expectsBlock tokens found.1 found.2) := by
    rw [hs.groupDepth]
  by_cases hblock : s.groupDepth = 0 ∧ (found.1.isEmpty ∨ expectsBlock tokens found.1 found.2)
  · rw [if_pos hblock, if_pos (hblocks.mpr hblock)]
    refine { hs with stack := ?_, groupDepth := hs.groupDepth, run := ?_, segments := ?_ }
    · simp [hs.stack, Frame.rename]
    · rw [hs.stack]
      exact freshRun_map f (.block i :: s.stack)
    · simp only
      split_ifs
      · exact ⟨later, hlater, hlater'⟩
      · refine ⟨toSegment tokens s.partners found.1 { boundary := some i, opensBlock := true } ::
          later, ?_, ?_⟩
        · rw [hlater, List.cons_append]
        · rw [hlater', List.map_cons, List.cons_append, ← toSegment_rename h hs.partners]
          rfl
  · rw [if_neg hblock, if_neg (hblocks.not.mpr hblock)]
    refine { hs with stack := ?_, groupDepth := rfl, run := ?_, closures := ?_ }
    · simp [hs.stack, hs.groupDepth, Frame.rename]
    · rw [hs.stack, hs.groupDepth, rename_push]
      exact freshRun_map f (.closure i (found.1.push i) s.groupDepth :: s.stack)
    · simp [hs.closures]

theorem terminator :
    (s.terminator tokens i).Mirrors tokens tokens' f base base' (s'.terminator tokens' (f i)) := by
  have hfound := classify_rename h hs.partners s.run
  rw [← hs.run] at hfound
  simp only [Scan.terminator, hfound]
  split_ifs
  · rw [rename_push]
    exact hs.with_run _
  · exact (hs.with_run _).close h { boundary := some i, terminated := true }

omit h in
theorem word {t t' : Token} (ht : t'.toLexeme = t.toLexeme) :
    (s.word t i).Mirrors tokens tokens' f base base' (s'.word t' (f i)) := by
  refine { hs with run := ?_ }
  simp only [Scan.word, ht, hs.groupDepth, hs.run]
  simp [Run.rename, Run.push]

section

variable {t t' : Token} (ht : tokens[i]? = some t) (hlexeme : t'.toLexeme = t.toLexeme)
  (hstack : ∀ frame ∈ s.stack, frame.index < tokens.size)
include ht hlexeme hstack

theorem significant (end_ : Text) :
    (s.significant tokens end_ t i).Mirrors tokens tokens' f base base'
      (s'.significant tokens' end_ t' (f i)) := by
  have hi : i < tokens.size := (Array.getElem?_eq_some_iff.mp ht).1
  have hlabel : startsLabel tokens' s'.run = startsLabel tokens s.run := by
    rw [hs.run, startsLabel_rename h]
  have hgroup : (s'.groupDepth = 0) = (s.groupDepth = 0) := by rw [hs.groupDepth]
  simp only [Scan.significant, hlexeme, hgroup, hlabel]
  refine .ite (fun _ => hs.openGroup '(') fun _ => .ite (fun _ => hs.openGroup '[') fun _ =>
    .ite (fun _ => hs.closeGroup h hstack hi '(') fun _ =>
    .ite (fun _ => hs.closeGroup h hstack hi '[') fun _ =>
    .ite (fun _ => hs.openBrace h) fun _ => .ite (fun _ => hs.closeBrace h hstack hi) fun _ =>
    .ite (fun _ => hs.terminator h) fun _ => .ite (fun _ => ?_) fun _ => hs.word hlexeme
  exact (hs.push i).close h { boundary := some i, label := true }

/-- One step of the scans. -/
theorem step {end_ : Text} {following following' : Nat → Option Nat}
    (hfollowing : t.kind = .newline → following' (f i) = (following i).map f) :
    (s.step tokens end_ following i t).Mirrors tokens tokens' f base base'
      (s'.step tokens' end_ following' (f i) t') := by
  have hnoted := hs.with_nesting (s.nesting.push s.stack.length) (s'.nesting.push s'.stack.length)
  simp only [Scan.step, hlexeme]
  refine .ite (fun hnewline => ?_) fun _ => .ite (fun _ => hnoted) fun _ =>
    hnoted.significant h ht hlexeme hstack end_
  rw [hfollowing hnewline]
  exact hnoted.newline h (following i)

end

end

end Mirrors

end Scan
end Outline
end HouseStyle
