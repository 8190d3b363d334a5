import HouseStyle.Proofs.Outline.Runs

/-! What holds of the scan between two tokens. The run being collected is in order and everything
behind its last token is trivia, the open brackets are where the stack says, bracket pairs match,
and every segment made so far ends where its boundary says. -/

namespace HouseStyle

open Outline

variable (tokens : Array Token) (end_ : Text)

/-- Tokens that end a segment. -/
def Outline.isEnding (t : Token) : Bool :=
  t.kind = .newline || t.isMark '{' || t.isMark '}' || t.isPunct end_

namespace Segment

/-- How a segment ends: with the text, with its own last token if it is a label, or at a token with
only trivia before it. -/
inductive Ends (s : Segment) : Prop
  | text (hboundary : s.boundary = none) (hquiet : Quiet tokens s.last tokens.size)
  | label (hlabel : s.label) (hboundary : s.boundary = some s.last)
  | token (b : Nat) (hboundary : s.boundary = some b) (hlt : s.last < b)
    (hquiet : Quiet tokens s.last b) (hending : tokenIs tokens (isEnding end_) b)

/-- A segment is a run that ends where its boundary says. No label is the header of a block. -/
structure Sound (s : Segment) : Prop where
  ne_nil : s.indices ≠ []
  inOrder : InOrder tokens s.indices
  ends : s.Ends tokens end_
  label : s.label → s.kind ≠ .controlHeader ∧ s.opensBlock = false

end Segment

namespace Outline

/-- A run collected before an index. One that starts as a label does has a statement's leading
word. -/
structure Run.Sound (run : Run) (i : Nat) : Prop where
  inOrder : InOrder tokens run.indices.toList
  lt : ∀ k ∈ run.indices.toList, k < i
  label : ∀ head, run.head = some head → Scan.startsLabel tokens run → head.kind = .statement
  head : run.indices = #[] → run.head = none

/-- An open bracket before an index. A closure interrupts a run whose last token is its brace. -/
def Frame.Sound (i : Nat) : Frame → Prop
  | .group bracket k => k < i ∧ tokenIs tokens (·.isMark bracket) k
  | .block k => k < i ∧ tokenIs tokens (·.isMark '{') k
  | .closure k resume _ =>
    k < i ∧ tokenIs tokens (·.isMark '{') k ∧ resume.Sound tokens (k + 1) ∧
      resume.indices.toList.getLast? = some k

/-- An opening bracket and the closing one of its kind behind it. -/
def Match (i j : Nat) : Prop :=
  i < j ∧ ∃ pair ∈ [('(', ')'), ('[', ']'), ('{', '}')],
    tokenIs tokens (·.isMark pair.1) i ∧ tokenIs tokens (·.isMark pair.2) j

structure Scan.Sound (s : Scan) (i : Nat) : Prop where
  run : s.run.Sound tokens i
  quiet : ∀ l ∈ s.run.indices.toList.getLast?, Quiet tokens l i
  stack : ∀ frame ∈ s.stack, frame.Sound tokens i
  partners : ∀ a b, partnerIn s.partners a = some b → Match tokens a b ∨ Match tokens b a
  segments : ∀ seg ∈ s.segments, seg.Sound tokens end_
  headers : ∀ i seg, (i, seg) ∈ s.headers →
    seg.Sound tokens end_ ∧ seg.boundary = some i ∧ tokenIs tokens (·.isMark '{') i

variable {tokens end_}

theorem Frame.Sound.mono {frame : Frame} {i j : Nat} (h : frame.Sound tokens i) (hij : i ≤ j) :
    frame.Sound tokens j := by
  cases frame <;> exact ⟨Nat.lt_of_lt_of_le h.1 hij, h.2⟩

theorem Frame.Sound.index_lt {frame : Frame} {i : Nat} (h : frame.Sound tokens i) :
    frame.index < i := by
  cases frame <;> exact h.1

theorem Frame.Sound.brace {frame : Frame} {i : Nat} (h : frame.Sound tokens i)
    (hbrace : frame.isBrace) : tokenIs tokens (·.isMark '{') frame.index := by
  cases frame with
  | group => cases hbrace
  | block k => exact h.2
  | closure k resume depth => exact h.2.1

/-! ### Runs -/

namespace Run

variable {run : Run} {i j : Nat}

namespace Sound

theorem of_empty (h : run.indices = #[]) (hhead : run.head = none) (i : Nat) :
    run.Sound tokens i := by
  constructor
  · rw [h]
    exact .nil
  · simp [h]
  · simp [hhead]
  · exact fun _ => hhead

theorem fresh (stack : List Frame) (i : Nat) : (Scan.freshRun stack).Sound tokens i :=
  of_empty rfl rfl i

theorem restart (run : Run) (i : Nat) : run.restart.Sound tokens i :=
  of_empty rfl rfl i

theorem mono (h : run.Sound tokens i) (hij : i ≤ j) : run.Sound tokens j :=
  { h with lt := fun k hk => Nat.lt_of_lt_of_le (h.lt k hk) hij }

/-- The run depends on its indices and its leading word alone. -/
theorem congr {run' : Run} (h : run.Sound tokens i) (hindices : run'.indices = run.indices)
    (hhead : run'.head = run.head) : run'.Sound tokens i := by
  have hlabel : Scan.startsLabel tokens run' = Scan.startsLabel tokens run := by
    simp [Scan.startsLabel, hindices]
  constructor
  · rw [hindices]
    exact h.inOrder
  · rw [hindices]
    exact h.lt
  · rw [hhead, hlabel]
    exact h.label
  · rw [hhead, hindices]
    exact h.head

theorem push (h : run.Sound tokens i) (hloud : Loud tokens i)
    (hlast : ∀ l ∈ run.indices.toList.getLast?, Adjacent tokens l i) :
    (run.push i).Sound tokens (i + 1) := by
  constructor
  · simpa [Run.push] using h.inOrder.push hloud hlast
  · intro k hk
    simp only [Run.push, Array.toList_push, List.mem_append, List.mem_singleton] at hk
    rcases hk with hk | rfl
    · exact Nat.lt_succ_of_lt (h.lt k hk)
    · exact Nat.lt_succ_self k
  · intro head hhead hlabel
    by_cases hempty : run.indices = #[]
    · have : run.head = some head := hhead
      rw [h.head hempty] at this
      cases this
    · refine h.label head hhead ?_
      have hpos : 0 < run.indices.size := Array.size_pos_iff.mpr hempty
      have hzero : (run.indices.push i)[0]? = run.indices[0]? := by
        rw [Array.getElem?_push, if_neg hpos.ne]
      rw [Scan.startsLabel, Run.push, hzero] at hlabel
      exact hlabel
  · intro hempty
    simp [Run.push] at hempty

end Sound

theorem getLast?_push (run : Run) (i : Nat) : (run.push i).indices.toList.getLast? = some i := by
  simp [Run.push]

end Run

namespace Scan

variable {run : Run} {i : Nat} {partners : Array (Option Nat)}

@[simp] theorem classify_indices (partners : Array (Option Nat)) (run : Run) :
    (classify tokens partners run).1.indices = run.indices := by
  unfold classify
  split
  · rfl
  · split <;> rfl

/-- The leading word of a run that starts as a label does makes a statement of it. -/
theorem classify_label (h : run.Sound tokens i) (hlabel : startsLabel tokens run) :
    (classify tokens partners run).2.kind = .statement := by
  unfold classify
  split
  · next head hhead => exact h.label head hhead hlabel
  · split
    · next head hhead =>
      cases hindices : run.indices.toList with
      | nil =>
        rw [hindices, head?_nil] at hhead
        cases hhead
      | cons k rest =>
        rw [hindices] at hhead
        refine head?_of_label ?_ hhead
        have hzero : run.indices[0]? = some k := by
          rw [← Array.getElem?_toList, hindices]
          rfl
        simpa [startsLabel, hzero] using hlabel
    · rfl

theorem classify_head {head : Head} (h : (classify tokens partners run).1.head = some head) :
    (classify tokens partners run).2 = head := by
  unfold classify at *
  split at h
  · next hhead => exact Option.some.inj (hhead.symm.trans h)
  · next hhead =>
    split at h
    · exact Option.some.inj h
    · rw [hhead] at h
      cases h

theorem classify_sound (h : run.Sound tokens i) :
    (classify tokens partners run).1.Sound tokens i := by
  have hindices : (classify tokens partners run).1.indices = run.indices :=
    classify_indices partners run
  constructor
  · rw [hindices]
    exact h.inOrder
  · rw [hindices]
    exact h.lt
  · intro head hhead hlabel
    rw [← classify_head hhead]
    refine classify_label h ?_
    rwa [startsLabel, hindices] at hlabel
  · intro hempty
    rw [hindices] at hempty
    simp [classify, h.head hempty, hempty, head?_nil]

theorem toSegment_sound {ending : Ending} (h : run.Sound tokens i) (hne : run.indices ≠ #[])
    (hends : (toSegment tokens partners run ending).Ends tokens end_)
    (hlabel : ending.label → startsLabel tokens run ∧ ending.opensBlock = false) :
    (toSegment tokens partners run ending).Sound tokens end_ := by
  refine ⟨?_, h.inOrder, hends, fun hl => ⟨?_, (hlabel hl).2⟩⟩
  · simpa [toSegment] using hne
  · have hkind : (toSegment tokens partners run ending).kind = .statement :=
      classify_label h (hlabel hl).1
    rw [hkind]
    exact fun h => by cases h

theorem toSegment_last {ending : Ending} {l : Nat} (h : run.indices.toList.getLast? = some l) :
    (toSegment tokens partners run ending).last = l := by
  rw [Segment.last, List.getLastD_eq_getLast?]
  change run.indices.toList.getLast?.getD 0 = l
  rw [h, Option.getD_some]

/-- Looking past a newline may find the leading word of the run and changes nothing else. -/
theorem continues_run (s : Scan) (following : Option Nat) :
    (continues tokens s following).1 = s.run ∨
      (continues tokens s following).1 = (classify tokens s.partners s.run).1 := by
  simp only [continues]
  split
  · exact .inl rfl
  · split
    · exact .inl rfl
    · split
      · exact .inl rfl
      · split_ifs
        · exact .inl rfl
        · exact .inl rfl
        · exact .inr rfl
        · exact .inl rfl

/-! ### Brackets -/

theorem groupOpener?_spec {bracket : Char} {stack below : List Frame} {n k : Nat}
    (h : groupOpener? bracket stack = some (n, k, below)) :
    .group bracket k ∈ stack ∧ below ⊆ stack := by
  induction stack generalizing n k below with
  | nil => cases h
  | cons frame rest ih =>
    cases frame with
    | group b j =>
      simp only [groupOpener?] at h
      split_ifs at h with hb
      · cases h
        exact ⟨by simp [hb], fun f hf => by simp [hf]⟩
      · simp only [Option.map_eq_some_iff, Prod.mk.injEq, Prod.exists] at h
        obtain ⟨n', k', below', hrest, -, rfl, rfl⟩ := h
        obtain ⟨hmem, hsub⟩ := ih hrest
        exact ⟨by simp [hmem], fun f hf => by simp [hsub hf]⟩
    | block j => cases h
    | closure j resume depth => cases h

theorem braceOpener?_spec {stack below : List Frame} {frame : Frame}
    (h : braceOpener? stack = some (frame, below)) :
    frame ∈ stack ∧ frame.isBrace ∧ below ⊆ stack := by
  induction stack with
  | nil => cases h
  | cons top rest ih =>
    cases top with
    | group b j =>
      obtain ⟨hmem, hbrace, hsub⟩ := ih h
      exact ⟨by simp [hmem], hbrace, fun f hf => by simp [hsub hf]⟩
    | block j =>
      cases h
      exact ⟨by simp, rfl, fun f hf => by simp [hf]⟩
    | closure j resume depth =>
      cases h
      exact ⟨by simp, rfl, fun f hf => by simp [hf]⟩

theorem partnerIn_pair (s : Scan) {opening closing a b : Nat}
    (h : partnerIn (s.pair opening closing).partners a = some b) :
    partnerIn s.partners a = some b ∨ (a = opening ∧ b = closing) ∨ (a = closing ∧ b = opening) := by
  simp only [partnerIn, pair, Array.getElem?_setIfInBounds] at h ⊢
  split_ifs at h with hclosing _ hopening
  all_goals
    first
    | exact .inl h
    | simp_all

/-! ### Steps -/

namespace Sound

variable {s : Scan}

theorem adjacent (h : s.Sound tokens end_ i) :
    ∀ l ∈ s.run.indices.toList.getLast?, Adjacent tokens l i :=
  fun l hl => ⟨h.run.lt l (List.mem_of_getLast? hl), .inr (h.quiet l hl)⟩

/-- A token without code changes nothing. -/
theorem skip (h : s.Sound tokens end_ i) (hi : tokenIs tokens (·.isTrivia) i) :
    s.Sound tokens end_ (i + 1) :=
  { h with
    run := h.run.mono (Nat.le_succ i)
    quiet := fun l hl => (h.quiet l hl).succ hi
    stack := fun frame hframe => (h.stack frame hframe).mono (Nat.le_succ i) }

/-- A run with the same indices and a leading word of its own may stand in for the run. -/
theorem with_run {run : Run} (h : s.Sound tokens end_ i) (hrun : run.Sound tokens i)
    (hindices : run.indices = s.run.indices) : Sound tokens end_ { s with run } i :=
  { h with
    run := hrun
    quiet := by
      rw [hindices]
      exact h.quiet }

/-- The run goes on with a token that carries code. -/
theorem push (h : s.Sound tokens end_ i) (hi : Loud tokens i) :
    Sound tokens end_ { s with run := s.run.push i } (i + 1) :=
  { h with
    run := h.run.push hi h.adjacent
    quiet := fun l hl => by
      obtain rfl : i = l := by simpa [Run.push] using hl
      exact Quiet.refl i
    stack := fun frame hframe => (h.stack frame hframe).mono (Nat.le_succ i) }

/-- Ending the run makes a segment of it, unless it is empty. -/
theorem close {ending : Ending} (h : s.Sound tokens end_ i)
    (hends : ∀ l, s.run.indices.toList.getLast? = some l →
      (toSegment tokens s.partners s.run ending).Ends tokens end_)
    (hlabel : ending.label → startsLabel tokens s.run ∧ ending.opensBlock = false) :
    (s.close tokens ending).Sound tokens end_ i := by
  unfold Scan.close
  split
  · exact h
  · next hempty =>
    have hne : s.run.indices ≠ #[] := by simpa [Run.isEmpty] using hempty
    have hsome : s.run.indices.toList.getLast? ≠ none := by simpa using hne
    obtain ⟨l, hl⟩ := Option.ne_none_iff_exists'.mp hsome
    refine { h with run := Run.Sound.restart s.run i, quiet := ?_, segments := ?_ }
    · simp [Run.restart]
    · intro seg hseg
      rcases List.mem_cons.mp hseg with rfl | hseg
      · exact toSegment_sound h.run hne (hends l hl) hlabel
      · exact h.segments seg hseg

/-- The run ends at a token that ends segments. -/
theorem close_at {ending : Ending} (h : s.Sound tokens end_ i) (hboundary : ending.boundary = some i)
    (hlabel : ending.label = false) (hi : tokenIs tokens (isEnding end_) i) :
    (s.close tokens ending).Sound tokens end_ i := by
  refine h.close (fun l hl => ?_) (by simp [hlabel])
  have hlast : (toSegment tokens s.partners s.run ending).last = l := toSegment_last hl
  refine .token i hboundary ?_ ?_ hi
  · rw [hlast]
    exact h.run.lt l (List.mem_of_getLast? hl)
  · rw [hlast]
    exact h.quiet l hl

theorem close_indices (s : Scan) (ending : Ending) :
    (s.close tokens ending).run.indices.toList.getLast? = none := by
  unfold Scan.close
  split
  · next hempty => simpa [Run.isEmpty] using hempty
  · simp [Run.restart]

theorem succ_of_empty (h : s.Sound tokens end_ i)
    (hempty : s.run.indices.toList.getLast? = none) : s.Sound tokens end_ (i + 1) :=
  { h with
    run := h.run.mono (Nat.le_succ i)
    quiet := by simp [hempty]
    stack := fun frame hframe => (h.stack frame hframe).mono (Nat.le_succ i) }

theorem newline {following : Option Nat} (h : s.Sound tokens end_ i) {t : Token}
    (ht : tokens[i]? = some t) (hkind : t.kind = .newline) :
    (s.newline tokens following i).Sound tokens end_ (i + 1) := by
  have htrivia : tokenIs tokens (·.isTrivia) i := by
    rw [tokenIs_of_getElem? ht]
    simp [Lexeme.isTrivia, hkind, TokenKind.isTrivia]
  have hending : tokenIs tokens (isEnding end_) i := by
    rw [tokenIs_of_getElem? ht]
    simp [isEnding, hkind]
  unfold Scan.newline
  split
  · have hlooked : Sound tokens end_ { s with run := (continues tokens s following).1 } i := by
      rcases continues_run s following with hrun | hrun
      · rw [hrun]
        exact h
      · rw [hrun]
        exact h.with_run (classify_sound h.run) (classify_indices s.partners s.run)
    simp only
    split
    · exact hlooked.skip htrivia
    · exact (hlooked.close_at rfl rfl hending).skip htrivia
  · exact h.skip htrivia

theorem openGroup {bracket : Char} (h : s.Sound tokens end_ i) (hi : Loud tokens i)
    (hbracket : tokenIs tokens (·.isMark bracket) i) :
    (s.openGroup bracket i).Sound tokens end_ (i + 1) :=
  { h.push hi with
    stack := by
      intro frame hframe
      rcases List.mem_cons.mp hframe with rfl | hframe
      · exact ⟨Nat.lt_succ_self i, hbracket⟩
      · exact (h.stack frame hframe).mono (Nat.le_succ i) }

theorem pair {opening closing : Nat} (h : s.Sound tokens end_ i)
    (hmatch : Match tokens opening closing) : (s.pair opening closing).Sound tokens end_ i :=
  { h with
    partners := by
      intro a b hab
      rcases partnerIn_pair s hab with hold | ⟨rfl, rfl⟩ | ⟨rfl, rfl⟩
      · exact h.partners a b hold
      · exact .inl hmatch
      · exact .inr hmatch }

theorem closeGroup {bracket closer : Char} (h : s.Sound tokens end_ i) (hi : Loud tokens i)
    (hpair : (bracket, closer) ∈ [('(', ')'), ('[', ']'), ('{', '}')])
    (hcloser : tokenIs tokens (·.isMark closer) i) :
    (s.closeGroup bracket i).Sound tokens end_ (i + 1) := by
  unfold Scan.closeGroup
  split
  · next above opening below hopener =>
    obtain ⟨hmem, hsub⟩ := groupOpener?_spec hopener
    have hframe := h.stack _ hmem
    have hpaired := (h.pair ⟨hframe.1, _, hpair, hframe.2, hcloser⟩).push hi
    exact { hpaired with stack := fun frame hf => hpaired.stack frame (hsub hf) }
  · exact h.push hi

theorem openBrace (h : s.Sound tokens end_ i) (hi : Loud tokens i)
    (hbrace : tokenIs tokens (·.isMark '{') i) :
    (s.openBrace tokens i).Sound tokens end_ (i + 1) := by
  unfold Scan.openBrace
  have hlooked : ∀ found : Run × Head,
      (if s.groupDepth = 0 ∧ !s.run.isEmpty then classify tokens s.partners s.run
        else (s.run, noHead)) = found →
      found.1.Sound tokens i ∧ found.1.indices = s.run.indices := by
    rintro found rfl
    split_ifs
    · exact ⟨classify_sound h.run, classify_indices s.partners s.run⟩
    · exact ⟨h.run, rfl⟩
  generalize (if s.groupDepth = 0 ∧ !s.run.isEmpty then classify tokens s.partners s.run
    else (s.run, noHead)) = found at hlooked
  obtain ⟨hrun, hindices⟩ := hlooked found rfl
  have hs := h.with_run hrun hindices
  have hending : tokenIs tokens (isEnding end_) i := by
    obtain ⟨t, ht, hmark⟩ := tokenIs_iff.mp hbrace
    rw [tokenIs_of_getElem? ht]
    simp [isEnding, hmark]
  simp only
  split
  · -- A block opens, and the run before it is its header.
    have hheader : ¬found.1.isEmpty →
        (toSegment tokens s.partners found.1 { boundary := some i, opensBlock := true }).Sound
          tokens end_ := by
      intro hempty
      have hne : found.1.indices ≠ #[] := by simpa [Run.isEmpty] using hempty
      refine toSegment_sound hrun hne ?_ (by simp)
      have hsome : found.1.indices.toList.getLast? ≠ none := by simpa using hne
      obtain ⟨l, hl⟩ := Option.ne_none_iff_exists'.mp hsome
      refine .token i rfl ?_ ?_ hending
      · rw [toSegment_last hl]
        exact hrun.lt l (List.mem_of_getLast? hl)
      · rw [toSegment_last hl]
        exact hs.quiet l hl
    refine { h with run := .fresh _ _, quiet := ?_, stack := ?_, segments := ?_, headers := ?_ }
    · simp [freshRun]
    · intro frame hframe
      rcases List.mem_cons.mp hframe with rfl | hframe
      · exact ⟨Nat.lt_succ_self i, hbrace⟩
      · exact (h.stack frame hframe).mono (Nat.le_succ i)
    · intro seg hseg
      simp only at hseg
      split_ifs at hseg with hempty
      · exact h.segments seg hseg
      · rcases List.mem_cons.mp hseg with rfl | hseg
        · exact hheader hempty
        · exact h.segments seg hseg
    · intro k seg hseg
      simp only at hseg
      split_ifs at hseg with hempty
      · exact h.headers k seg hseg
      · rcases List.mem_cons.mp hseg with heq | hseg
        · cases heq
          exact ⟨hheader hempty, rfl, hbrace⟩
        · exact h.headers k seg hseg
  · -- A closure opens, and the run goes on behind it.
    refine { h with run := .fresh _ _, quiet := ?_, stack := ?_ }
    · simp [freshRun]
    · intro frame hframe
      rcases List.mem_cons.mp hframe with rfl | hframe
      · exact ⟨Nat.lt_succ_self i, hbrace, hrun.push hi hs.adjacent, Run.getLast?_push _ i⟩
      · exact (h.stack frame hframe).mono (Nat.le_succ i)

theorem closeBrace (h : s.Sound tokens end_ i) (hi : Loud tokens i)
    (hbrace : tokenIs tokens (·.isMark '}') i) :
    (s.closeBrace tokens i).Sound tokens end_ (i + 1) := by
  unfold Scan.closeBrace
  split
  · exact h.push hi
  · next frame below hopener =>
    obtain ⟨hmem, hisBrace, hsub⟩ := braceOpener?_spec hopener
    have hframe := h.stack _ hmem
    have hending : tokenIs tokens (isEnding end_) i := by
      obtain ⟨t, ht, hmark⟩ := tokenIs_iff.mp hbrace
      rw [tokenIs_of_getElem? ht]
      simp [isEnding, hmark]
    have hmatch : Match tokens frame.index i :=
      ⟨hframe.index_lt, ('{', '}'), by simp, hframe.brace hisBrace, hbrace⟩
    have hclosed := (@close_at _ _ _ s { boundary := some i } h rfl rfl hending).pair hmatch
    have hstack : ∀ f ∈ below, f.Sound tokens (i + 1) :=
      fun f hf => (h.stack f (hsub hf)).mono (Nat.le_succ i)
    simp only
    split
    · next k resume depth =>
      obtain ⟨hk, hkbrace, hresume, hlast⟩ := hframe
      have hadjacent : ∀ l ∈ resume.indices.toList.getLast?, Adjacent tokens l i := by
        intro l hl
        obtain rfl : k = l := by
          rw [hlast] at hl
          exact Option.some.inj hl
        exact ⟨hk, .inl hkbrace⟩
      refine { hclosed with run := (hresume.mono hk).push hi hadjacent, quiet := ?_, stack := hstack }
      intro l hl
      rw [Run.getLast?_push] at hl
      cases hl
      exact Quiet.refl i
    · exact { hclosed with run := .fresh _ _, quiet := by simp [freshRun], stack := hstack }

theorem terminator (h : s.Sound tokens end_ i) (hi : Loud tokens i)
    (hend : tokenIs tokens (·.isPunct end_) i) :
    (s.terminator tokens i).Sound tokens end_ (i + 1) := by
  have hending : tokenIs tokens (isEnding end_) i := by
    obtain ⟨t, ht, hmark⟩ := tokenIs_iff.mp hend
    rw [tokenIs_of_getElem? ht]
    simp [isEnding, hmark]
  have hlooked : Sound tokens end_ { s with run := (classify tokens s.partners s.run).1 } i :=
    h.with_run (classify_sound h.run) (classify_indices s.partners s.run)
  unfold Scan.terminator
  simp only
  split
  · exact hlooked.push hi
  · exact (hlooked.close_at rfl rfl hending).succ_of_empty (close_indices _ _)

theorem label (h : s.Sound tokens end_ i) (hi : Loud tokens i)
    (hlabel : startsLabel tokens s.run) :
    (Scan.close tokens { s with run := s.run.push i } { boundary := some i, label := true }).Sound
      tokens end_ (i + 1) := by
  refine (h.push hi).close (fun l hl => ?_) fun _ => ⟨?_, rfl⟩
  · rw [Run.getLast?_push] at hl
    cases hl
    refine .label rfl ?_
    rw [toSegment_last (Run.getLast?_push s.run i)]
    rfl
  · have hpos : 0 < s.run.indices.size := by
      rw [Array.size_pos_iff]
      intro hempty
      simp [startsLabel, hempty] at hlabel
    have hzero : (s.run.indices.push i)[0]? = s.run.indices[0]? := by
      rw [Array.getElem?_push, if_neg hpos.ne]
    rw [startsLabel] at hlabel ⊢
    change (((s.run.indices.push i)[0]?.map _).getD false) = true
    rw [hzero]
    exact hlabel

theorem word {t : Token} (h : s.Sound tokens end_ i) (hi : Loud tokens i) :
    (s.word t i).Sound tokens end_ (i + 1) :=
  (h.push hi).with_run ((h.push hi).run.congr rfl rfl) rfl

/-- What one token that carries code does. -/
theorem significant {t : Token} (h : s.Sound tokens end_ i) (ht : tokens[i]? = some t)
    (htrivia : t.isTrivia = false) : (s.significant tokens end_ t i).Sound tokens end_ (i + 1) := by
  have hi : Loud tokens i := ⟨t, ht, htrivia⟩
  have his {p : Token → Bool} (hp : p t) : tokenIs tokens p i := by
    rwa [tokenIs_of_getElem? ht]
  unfold Scan.significant
  split_ifs with hopen hsquare hclose hsquare' hbrace hbrace' hend hlabel
  · exact h.openGroup hi (his hopen)
  · exact h.openGroup hi (his hsquare)
  · exact h.closeGroup hi (by simp) (his hclose)
  · exact h.closeGroup hi (by simp) (his hsquare')
  · exact h.openBrace hi (his hbrace)
  · exact h.closeBrace hi (his hbrace')
  · exact h.terminator hi (his hend.1)
  · exact h.label hi hlabel.2.2
  · exact h.word hi

/-- One step of the scan. -/
theorem step {t : Token} {following : Nat → Option Nat} (h : s.Sound tokens end_ i)
    (ht : tokens[i]? = some t) : (s.step tokens end_ following i t).Sound tokens end_ (i + 1) := by
  have hs : Sound tokens end_ { s with nesting := s.nesting.push s.stack.length } i := { h with }
  unfold Scan.step
  simp only
  split_ifs with hnewline htrivia
  · exact hs.newline ht hnewline
  · refine hs.skip ?_
    rwa [tokenIs_of_getElem? ht]
  · exact hs.significant ht (by simpa using htrivia)

/-- A run of the scan over the tokens from an index on. -/
theorem run_ {following : Nat → Option Nat} {list : List Token} (h : s.Sound tokens end_ i)
    (hlist : ∀ k t, list[k]? = some t → tokens[i + k]? = some t) :
    (Scan.run_ tokens end_ following s i list).Sound tokens end_ (i + list.length) := by
  induction list generalizing s i with
  | nil => exact h
  | cons t rest ih =>
    have hstep : (s.step tokens end_ following i t).Sound tokens end_ (i + 1) :=
      h.step (hlist 0 t rfl)
    have hrest : ∀ k t', rest[k]? = some t' → tokens[i + 1 + k]? = some t' := by
      intro k t' hk
      have := hlist (k + 1) t' hk
      rwa [Nat.add_assoc, Nat.add_comm 1 k]
    have := ih hstep hrest
    rwa [Nat.add_assoc, Nat.add_comm 1] at this

theorem start : Sound tokens end_ { partners := Array.replicate tokens.size none } 0 where
  run := .of_empty rfl rfl 0
  quiet := by simp
  stack := by simp
  partners := by
    intro a b hab
    rw [partnerIn, Array.getElem?_replicate] at hab
    split_ifs at hab <;> cases hab
  segments := by simp
  headers := by simp

end Sound
end Scan

/-! ### The ends of a segment -/

end Outline

namespace Segment.Sound

variable {tokens end_} {s : Segment}

theorem first_mem (h : s.Sound tokens end_) : s.first ∈ s.indices := by
  obtain ⟨i, rest, hindices⟩ := List.exists_cons_of_ne_nil h.ne_nil
  simp [Segment.first, hindices]

theorem getLast?_eq (h : s.Sound tokens end_) : s.indices.getLast? = some s.last := by
  rw [Segment.last, List.getLastD_eq_getLast?]
  cases hl : s.indices.getLast? with
  | none => exact absurd (List.getLast?_eq_none_iff.mp hl) h.ne_nil
  | some l => rfl

theorem last_mem (h : s.Sound tokens end_) : s.last ∈ s.indices :=
  List.mem_of_getLast? h.getLast?_eq

theorem first_le_last (h : s.Sound tokens end_) : s.first ≤ s.last :=
  h.inOrder.le_getLast h.first_mem h.getLast?_eq

theorem first_le (h : s.Sound tokens end_) {k : Nat} (hk : k ∈ s.indices) : s.first ≤ k := by
  obtain ⟨i, rest, hindices⟩ := List.exists_cons_of_ne_nil h.ne_nil
  have hpairwise := h.inOrder.pairwise
  rw [hindices] at hpairwise hk
  rw [Segment.first, hindices, List.headD_cons]
  rcases List.mem_cons.mp hk with rfl | hk
  · exact Nat.le_refl k
  · exact (List.rel_of_pairwise_cons hpairwise hk).le

end Segment.Sound

namespace Outline

/-! ### The outline -/

/-- What holds of an outline: its pairs are brackets of one kind, every segment ends where its
boundary says, and a header ends at the brace that it opens. -/
structure Sound (o : Outline) (end_ : Text) : Prop where
  partners : ∀ a b, o.partner? a = some b → Match o.tokens a b ∨ Match o.tokens b a
  segments : ∀ seg ∈ o.segments, seg.Sound o.tokens end_
  headers : ∀ i seg, (i, seg) ∈ o.headers →
    seg.Sound o.tokens end_ ∧ seg.boundary = some i ∧ tokenIs o.tokens (·.isMark '{') i

/-- The outline of any token list is sound. -/
theorem ofTokens_sound (list : List Token) (terminator : Text) :
    (Outline.ofTokens list terminator).Sound terminator := by
  let following (i : Nat) : Option Nat :=
    ((Outline.significantFrom 0 list).toArray[i + 1]?).getD none
  have hrun : (Scan.run_ list.toArray terminator following
      { partners := Array.replicate list.toArray.size none } 0 list).Sound list.toArray terminator
        list.toArray.size := by
    have := @Scan.Sound.run_ list.toArray terminator _ _ following list Scan.Sound.start (by simp)
    rwa [Nat.zero_add] at this
  have hdone := @Scan.Sound.close _ _ _ _ { boundary := none } hrun
    (fun l hl => .text rfl (by
      rw [Scan.toSegment_last hl]
      exact hrun.quiet l hl))
    (by simp)
  constructor
  · exact hdone.partners
  · intro seg hseg
    refine hdone.segments seg ?_
    have hmem := (List.mergeSort_perm _ _).mem_iff.mp hseg
    exact List.mem_reverse.mp hmem
  · intro i seg hseg
    exact hdone.headers i seg (List.mem_reverse.mp hseg)

end Outline
end HouseStyle
