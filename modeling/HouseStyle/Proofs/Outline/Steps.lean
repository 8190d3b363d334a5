import HouseStyle.Proofs.Outline.Scan

/-! What one token can do to the scan, each way with the state it leads to. What holds of every state
is shown one way at a time, from here. -/

namespace HouseStyle.Outline

/-- Opening marks with the marks that close them. -/
def brackets : List (Char × Char) := [('(', ')'), ('[', ']'), ('{', '}')]

/-- The mark that opened a frame. -/
def Frame.mark : Frame → Char
  | .group mark _ => mark
  | _ => '{'

/-- The mark that closes a frame. -/
def Frame.closer? : Frame → Option Char
  | .group mark _ => if mark = '(' then some ')' else if mark = '[' then some ']' else none
  | _ => some '}'

/-- Whether a token closes a frame. -/
def Frame.ClosedBy (frame : Frame) (t : Token) : Prop := ∃ c ∈ frame.closer?, t.isMark c

/-- A run in the same place with the same tokens. Its leading word may be known by now. -/
structure Run.Same (run run' : Run) : Prop where
  indices : run'.indices = run.indices
  container : run'.container = run.container
  depth : run'.depth = run.depth

theorem Run.Same.rfl {run : Run} : run.Same run := ⟨Eq.refl _, Eq.refl _, Eq.refl _⟩

namespace Scan

variable (tokens : Array Token) (end_ : Text)

/-- What the token at an index can do to a scan. -/
inductive Step (s : Scan) (i : Nat) (t : Token) : Scan → Prop
  /-- Trivia leaves the run as it is. -/
  | pass (run : Run) (hrun : s.run.Same run) (ht : t.isTrivia) : Step s i t { s with run }
  /-- A newline outside all groups ends the run. -/
  | newline (run : Run) (hrun : s.run.Same run) (ht : t.kind = .newline) (hgroup : s.groupDepth = 0) :
    Step s i t (Scan.close tokens { s with run } { boundary := some i })
  /-- So does the terminator. -/
  | terminator (run : Run) (hrun : s.run.Same run) (ht : t.isPunct end_)
    (hmark : ∀ pair ∈ brackets, t.isMark pair.1 = false ∧ t.isMark pair.2 = false)
    (hgroup : s.groupDepth = 0) :
    Step s i t (Scan.close tokens { s with run } { boundary := some i, terminated := true })
  /-- The colon of a label ends it and belongs to it. -/
  | label (ht : t.isMark ':') (hgroup : s.groupDepth = 0) :
    Step s i t (Scan.close tokens { s with run := s.run.push i } { boundary := some i, label := true })
  /-- Any other token joins the run, and a closing mark with nothing to close is one of them. -/
  | take (run : Run) (hrun : (s.run.push i).Same run) (ht : t.isTrivia = false)
    (hopen : ∀ pair ∈ brackets, t.isMark pair.1 = false)
    (hclose : ∀ frame ∈ s.stack.head?, ¬frame.ClosedBy t) : Step s i t { s with run }
  | openGroup (mark : Char) (hmark : mark = '(' ∨ mark = '[') (ht : t.isMark mark) :
    Step s i t (s.openGroup mark i)
  /-- The brace of a block ends its header. -/
  | openBlock (run : Run) (headers : List (Nat × Segment)) (hrun : s.run.Same run)
    (ht : t.isMark '{') (hgroup : s.groupDepth = 0)
    (hheaders : headers =
      if run.indices = #[] then s.headers
      else (i, toSegment tokens s.partners run { boundary := some i, opensBlock := true }) ::
        s.headers) :
    Step s i t
      { Scan.close tokens { s with run } { boundary := some i, opensBlock := true } with
        headers
        stack := .block i :: s.stack
        run := freshRun (.block i :: s.stack) }
  /-- The brace of a closure interrupts the run, which it belongs to. -/
  | openClosure (run : Run) (hrun : (s.run.push i).Same run) (ht : t.isMark '{') :
    Step s i t
      { s with
        stack := .closure i run s.groupDepth :: s.stack
        closures := i :: s.closures
        groupDepth := 0
        run := freshRun (.closure i run s.groupDepth :: s.stack) }
  | closeGroup (above : List Frame) (mark : Char) (k : Nat) (below : List Frame)
    (hstack : s.stack = above ++ .group mark k :: below)
    (habove : ∀ frame ∈ above, frame.isBrace = false ∧ ¬frame.ClosedBy t)
    (ht : (Frame.group mark k).ClosedBy t) :
    Step s i t
      { s.pair k i with
        stack := below
        groupDepth := s.groupDepth - (above.length + 1)
        run := s.run.push i
        nesting := s.nesting.setIfInBounds i below.length }
  | closeBlock (above : List Frame) (k : Nat) (below : List Frame)
    (hstack : s.stack = above ++ .block k :: below)
    (habove : ∀ frame ∈ above, frame.isBrace = false) (ht : t.isMark '}') :
    Step s i t
      { (s.close tokens { boundary := some i }).pair k i with
        stack := below
        nesting := (s.close tokens { boundary := some i }).nesting.setIfInBounds i below.length
        run := freshRun below
        groupDepth := 0 }
  /-- The run that a closure interrupts goes on behind it. -/
  | closeClosure (above : List Frame) (k : Nat) (resume : Run) (depth : Nat) (below : List Frame)
    (hstack : s.stack = above ++ .closure k resume depth :: below)
    (habove : ∀ frame ∈ above, frame.isBrace = false) (ht : t.isMark '}') :
    Step s i t
      { (s.close tokens { boundary := some i }).pair k i with
        stack := below
        nesting := (s.close tokens { boundary := some i }).nesting.setIfInBounds i below.length
        run := resume.push i
        groupDepth := depth }

variable {tokens end_} {s : Scan} {i : Nat} {t : Token}

/-! ### Looking for the leading word -/

theorem classify_same (partners : Array (Option Nat)) (run : Run) :
    run.Same (classify tokens partners run).1 := by
  unfold classify
  split
  · exact .rfl
  · split <;> exact ⟨rfl, rfl, rfl⟩

theorem continues_same (s : Scan) (following : Option Nat) :
    s.run.Same (continues tokens s following).1 := by
  rcases continues_run s following with h | h <;> rw [h]
  · exact .rfl
  · exact classify_same _ _

/-! ### Looking for the opening bracket -/

theorem groupOpener?_eq_some {mark : Char} {stack below : List Frame} {n k : Nat}
    (h : groupOpener? mark stack = some (n, k, below)) :
    ∃ above, stack = above ++ .group mark k :: below ∧ above.length = n ∧
      ∀ frame ∈ above, frame.isBrace = false ∧ frame.mark ≠ mark := by
  induction stack generalizing n k below with
  | nil => cases h
  | cons frame rest ih =>
    cases frame with
    | group b j =>
      simp only [groupOpener?] at h
      split_ifs at h with hb
      · cases h
        exact ⟨[], by simp [hb], rfl, by simp⟩
      · simp only [Option.map_eq_some_iff, Prod.mk.injEq, Prod.exists] at h
        obtain ⟨n', k', below', hrest, rfl, rfl, rfl⟩ := h
        obtain ⟨above, rfl, rfl, habove⟩ := ih hrest
        exact ⟨.group b j :: above, rfl, rfl, by simpa [Frame.isBrace, Frame.mark, hb] using habove⟩
    | block j => cases h
    | closure j resume depth => cases h

theorem groupOpener?_eq_none {mark : Char} {stack : List Frame}
    (h : groupOpener? mark stack = none) :
    ∀ frame ∈ stack.head?, frame.isBrace ∨ frame.mark ≠ mark := by
  intro frame hframe
  obtain ⟨rest, rfl⟩ := List.head?_eq_some_iff.mp hframe
  cases frame with
  | group b j =>
    simp only [groupOpener?] at h
    split_ifs at h with hb
    exact .inr hb
  | block j => exact .inl rfl
  | closure j resume depth => exact .inl rfl

theorem braceOpener?_eq_some {stack below : List Frame} {frame : Frame}
    (h : braceOpener? stack = some (frame, below)) :
    ∃ above, stack = above ++ frame :: below ∧ frame.isBrace ∧
      ∀ frame ∈ above, frame.isBrace = false := by
  induction stack with
  | nil => cases h
  | cons top rest ih =>
    cases top with
    | group b j =>
      obtain ⟨above, rfl, hframe, habove⟩ := ih h
      exact ⟨.group b j :: above, rfl, hframe, by simpa [Frame.isBrace] using habove⟩
    | block j =>
      cases h
      exact ⟨[], rfl, rfl, by simp⟩
    | closure j resume depth =>
      cases h
      exact ⟨[], rfl, rfl, by simp⟩

theorem braceOpener?_eq_none {stack : List Frame} (h : braceOpener? stack = none) :
    ∀ frame ∈ stack, frame.isBrace = false := by
  induction stack with
  | nil => simp
  | cons top rest ih =>
    cases top with
    | group b j => simpa [Frame.isBrace] using ih h
    | block j => cases h
    | closure j resume depth => cases h

/-! ### Marks -/

theorem isMark_unique {c d : Char} (hc : t.isMark c) (hd : t.isMark d) : c = d := by
  simp only [Lexeme.isMark, Lexeme.isPunct, Bool.and_eq_true, decide_eq_true_eq] at hc hd
  simpa using hc.2.symm.trans hd.2

theorem not_isMark {c d : Char} (hc : t.isMark c) (hne : c ≠ d) : t.isMark d = false := by
  by_contra hd
  exact hne (isMark_unique hc (by simpa using hd))

theorem not_isTrivia {c : Char} (hc : t.isMark c) : t.isTrivia = false := by
  simp only [Lexeme.isMark, Lexeme.isPunct, Bool.and_eq_true, decide_eq_true_eq] at hc
  rw [Lexeme.isTrivia, hc.1]
  rfl

theorem closer?_eq_some {frame : Frame} {c : Char} (h : frame.closer? = some c) :
    (frame.mark, c) ∈ brackets ∧ (frame.isBrace ↔ c = '}') := by
  cases frame with
  | group mark k =>
    simp only [Frame.closer?] at h
    split_ifs at h with hround hsquare <;> cases h <;>
      simp_all [brackets, Frame.mark, Frame.isBrace]
  | block k =>
    cases h
    simp [brackets, Frame.mark, Frame.isBrace]
  | closure k resume depth =>
    cases h
    simp [brackets, Frame.mark, Frame.isBrace]

/-- A token that closes a frame is the closing mark to the mark of the frame. -/
theorem closedBy_iff {frame : Frame} {c : Char} (ht : t.isMark c) :
    frame.ClosedBy t ↔ frame.closer? = some c := by
  constructor
  · rintro ⟨d, hd, hmark⟩
    rwa [isMark_unique ht hmark]
  · exact fun h => ⟨c, h, ht⟩

theorem not_opening {pair : Char × Char} (hpair : pair ∈ brackets) (ht : t.isMark pair.2) :
    ∀ pair' ∈ brackets, t.isMark pair'.1 = false := by
  have hne : ∀ pair ∈ brackets, ∀ pair' ∈ brackets, pair.2 ≠ pair'.1 := by decide
  exact fun pair' hpair' => not_isMark ht (hne pair hpair pair' hpair')

/-! ### The ways -/

theorem newline_step (s : Scan) (following : Option Nat) (ht : t.kind = .newline) :
    Step tokens end_ s i t (s.newline tokens following i) := by
  have htrivia : t.isTrivia := by
    rw [Lexeme.isTrivia, ht]
    rfl
  unfold newline
  split
  · next h =>
    simp only
    split
    · exact .pass _ (continues_same s following) htrivia
    · exact .newline _ (continues_same s following) ht h.1
  · exact .pass _ .rfl htrivia

theorem closeGroup_step (s : Scan) {b c : Char} (hb : (b, c) ∈ [('(', ')'), ('[', ']')])
    (ht : t.isMark c) : Step tokens end_ s i t (s.closeGroup b i) := by
  have hpair : (b, c) ∈ brackets := List.mem_append_left [('{', '}')] hb
  have hmark {frame : Frame} (h : frame.ClosedBy t) : frame.mark = b ∧ frame.isBrace = false := by
    obtain ⟨hmem, hbrace⟩ := closer?_eq_some ((closedBy_iff ht).mp h)
    simp only [List.mem_cons, Prod.mk.injEq, List.not_mem_nil, or_false] at hb
    rcases hb with ⟨rfl, rfl⟩ | ⟨rfl, rfl⟩ <;> simp_all [brackets]
  unfold closeGroup
  split
  · next n k below h =>
    obtain ⟨above, hstack, rfl, habove⟩ := groupOpener?_eq_some h
    refine .closeGroup above b k below hstack (fun frame hframe => ⟨(habove frame hframe).1, ?_⟩) ?_
    · exact fun hclosed => (habove frame hframe).2 (hmark hclosed).1
    · rw [closedBy_iff ht]
      simp only [List.mem_cons, Prod.mk.injEq, List.not_mem_nil, or_false] at hb
      rcases hb with ⟨rfl, rfl⟩ | ⟨rfl, rfl⟩ <;> rfl
  · next h =>
    refine .take _ .rfl (not_isTrivia ht) (not_opening hpair ht) fun frame hframe hclosed => ?_
    rcases groupOpener?_eq_none h frame hframe with hbrace | hne
    · rw [(hmark hclosed).2] at hbrace
      cases hbrace
    · exact hne (hmark hclosed).1

theorem openBrace_step (s : Scan) (ht : t.isMark '{') :
    Step tokens end_ s i t (s.openBrace tokens i) := by
  unfold openBrace
  have hlooked : s.run.Same (if s.groupDepth = 0 ∧ !s.run.isEmpty then classify tokens s.partners s.run
      else (s.run, noHead)).1 := by
    split
    · exact classify_same _ _
    · exact .rfl
  generalize (if s.groupDepth = 0 ∧ !s.run.isEmpty then classify tokens s.partners s.run
    else (s.run, noHead)) = found at hlooked
  simp only
  split
  · next h =>
    have hstep := @Step.openBlock tokens end_ s i t found.1 _ hlooked ht h.1 rfl
    simp only [← Array.isEmpty_iff] at hstep
    unfold close at hstep
    split at hstep
    · next hempty =>
      simp only [Run.isEmpty] at hempty ⊢
      simpa only [hempty, if_true] using hstep
    · next hempty =>
      simp only [Run.isEmpty] at hempty ⊢
      simpa only [hempty, Bool.false_eq_true, if_false] using hstep
  · exact .openClosure _ ⟨by rw [Run.push, Run.push, hlooked.indices], hlooked.container,
      hlooked.depth⟩ ht

theorem closeBrace_step (s : Scan) (ht : t.isMark '}') :
    Step tokens end_ s i t (s.closeBrace tokens i) := by
  unfold closeBrace
  split
  · next h =>
    refine .take _ .rfl (not_isTrivia ht) (@not_opening t ('{', '}') (by decide) ht)
      fun frame hframe hclosed => ?_
    have := braceOpener?_eq_none h frame (List.mem_of_head? hframe)
    rw [(closer?_eq_some ((closedBy_iff ht).mp hclosed)).2.mpr rfl] at this
    cases this
  · next frame below h =>
    obtain ⟨above, hstack, hbrace, habove⟩ := braceOpener?_eq_some h
    cases frame with
    | group => cases hbrace
    | block k => exact .closeBlock above k below hstack habove ht
    | closure k resume depth => exact .closeClosure above k resume depth below hstack habove ht

theorem significant_step (s : Scan) (ht : t.isTrivia = false) :
    Step tokens end_ s i t (s.significant tokens end_ t i) := by
  unfold significant
  split_ifs with hround hsquare hround' hsquare' hbrace hbrace' hend hlabel
  · exact .openGroup '(' (.inl rfl) hround
  · exact .openGroup '[' (.inr rfl) hsquare
  · exact closeGroup_step s (by decide) hround'
  · exact closeGroup_step s (by decide) hsquare'
  · exact openBrace_step s hbrace
  · exact closeBrace_step s hbrace'
  all_goals
    have hmark : ∀ pair ∈ brackets, t.isMark pair.1 = false ∧ t.isMark pair.2 = false := by
      simp_all [brackets]
    have hclose : ∀ frame ∈ s.stack.head?, ¬frame.ClosedBy t := by
      rintro frame - ⟨c, hc, hclosed⟩
      have := (hmark _ (closer?_eq_some hc).1).2
      simp_all
  · unfold terminator
    simp only
    split
    · exact .take _ ⟨by simp [Run.push], (classify_same _ _).container, (classify_same _ _).depth⟩ ht
        (fun pair hpair => (hmark pair hpair).1) hclose
    · exact .terminator _ (classify_same _ _) hend.1 hmark hend.2
  · exact .label hlabel.1 hlabel.2.1
  · exact .take _ ⟨rfl, rfl, rfl⟩ ht (fun pair hpair => (hmark pair hpair).1) hclose

/-- The next state is one of the ways on, from the state that has noted how deep the token stands. -/
theorem step_spec (s : Scan) (following : Nat → Option Nat) :
    Step tokens end_ { s with nesting := s.nesting.push s.stack.length } i t
      (s.step tokens end_ following i t) := by
  unfold step
  simp only
  split_ifs with hnewline htrivia
  · exact newline_step _ _ hnewline
  · exact .pass _ .rfl htrivia
  · exact significant_step _ (by simpa using htrivia)

/-! ### Ending the run -/

section

variable (s : Scan) (ending : Ending)

@[simp] theorem close_stack : (s.close tokens ending).stack = s.stack := by
  unfold close
  split <;> rfl

@[simp] theorem close_groupDepth : (s.close tokens ending).groupDepth = s.groupDepth := by
  unfold close
  split <;> rfl

@[simp] theorem close_partners : (s.close tokens ending).partners = s.partners := by
  unfold close
  split <;> rfl

@[simp] theorem close_nesting : (s.close tokens ending).nesting = s.nesting := by
  unfold close
  split <;> rfl

@[simp] theorem close_closures : (s.close tokens ending).closures = s.closures := by
  unfold close
  split <;> rfl

@[simp] theorem close_run_indices : (s.close tokens ending).run.indices = #[] := by
  unfold close
  split
  · next h => simpa [Run.isEmpty] using h
  · rfl

@[simp] theorem close_run_container :
    (s.close tokens ending).run.container = s.run.container := by
  unfold close
  split <;> rfl

@[simp] theorem close_run_depth : (s.close tokens ending).run.depth = s.run.depth := by
  unfold close
  split <;> rfl

theorem close_segments :
    (s.close tokens ending).segments =
      if s.run.indices = #[] then s.segments
      else toSegment tokens s.partners s.run ending :: s.segments := by
  unfold close
  simp only [Run.isEmpty, Array.isEmpty_iff]
  split <;> rfl

end

/-! ### Brackets -/

/-- What a token does to the open brackets: nothing, or it opens one, or it closes one with all that
is open inside. A closing mark whose partner is the innermost open bracket closes that one. -/
inductive Turn (s : Scan) (i : Nat) (t : Token) (s' : Scan) : Prop
  | keep (hopen : ∀ pair ∈ brackets, t.isMark pair.1 = false)
    (hclose : ∀ frame ∈ s.stack.head?, ¬frame.ClosedBy t) (hstack : s'.stack = s.stack)
    (hpartners : s'.partners = s.partners) (hnesting : s'.nesting = s.nesting)
  | opened (frame : Frame) (hindex : frame.index = i) (hmark : t.isMark frame.mark)
    (hcloser : ∃ c, frame.closer? = some c) (hstack : s'.stack = frame :: s.stack)
    (hpartners : s'.partners = s.partners) (hnesting : s'.nesting = s.nesting)
  | closed (above : List Frame) (frame : Frame) (below : List Frame)
    (hstack : s.stack = above ++ frame :: below)
    (habove : ∀ f ∈ above, f.isBrace = false ∧ ¬f.ClosedBy t) (hclosed : frame.ClosedBy t)
    (hstack' : s'.stack = below) (hpartners : s'.partners = (s.pair frame.index i).partners)
    (hnesting : s'.nesting = s.nesting.setIfInBounds i below.length)

theorem not_closedBy_of_trivia (ht : t.isTrivia) (frame : Frame) : ¬frame.ClosedBy t := by
  rintro ⟨c, -, hmark⟩
  rw [not_isTrivia hmark] at ht
  cases ht

theorem not_isMark_of_trivia (ht : t.isTrivia) (c : Char) : t.isMark c = false := by
  by_contra hmark
  rw [not_isTrivia (by simpa using hmark)] at ht
  cases ht

theorem Step.turn {s' : Scan} (h : Step tokens end_ s i t s') : Turn s i t s' := by
  have hgroup {above : List Frame} (habove : ∀ f ∈ above, f.isBrace = false) (ht : t.isMark '}') :
      ∀ f ∈ above, f.isBrace = false ∧ ¬f.ClosedBy t := by
    refine fun f hf => ⟨habove f hf, fun hclosed => ?_⟩
    have hbrace := (closer?_eq_some ((closedBy_iff ht).mp hclosed)).2.mpr rfl
    rw [habove f hf] at hbrace
    cases hbrace
  cases h with
  | pass run hrun ht =>
    exact .keep (fun _ _ => not_isMark_of_trivia ht _) (fun _ _ => not_closedBy_of_trivia ht _)
      rfl rfl rfl
  | newline run hrun ht =>
    have htrivia : t.isTrivia := by
      rw [Lexeme.isTrivia, ht]
      rfl
    exact .keep (fun _ _ => not_isMark_of_trivia htrivia _)
      (fun _ _ => not_closedBy_of_trivia htrivia _) (by simp) (by simp) (by simp)
  | terminator run hrun ht hmark =>
    refine .keep (fun pair hpair => (hmark pair hpair).1) ?_ (by simp) (by simp) (by simp)
    rintro frame - ⟨c, hc, hclosed⟩
    rw [(hmark _ (closer?_eq_some hc).1).2] at hclosed
    cases hclosed
  | label ht =>
    refine .keep ?_ ?_ (by simp) (by simp) (by simp)
    · have hne : ∀ pair ∈ brackets, ':' ≠ pair.1 := by decide
      exact fun pair hpair => not_isMark ht (hne pair hpair)
    · have hne : ∀ pair ∈ brackets, ':' ≠ pair.2 := by decide
      rintro frame - ⟨c, hc, hclosed⟩
      exact hne _ (closer?_eq_some hc).1 (isMark_unique ht hclosed)
  | take run hrun ht hopen hclose => exact .keep hopen hclose rfl rfl rfl
  | openGroup mark hmark ht =>
    refine .opened (.group mark i) rfl ht ?_ rfl rfl rfl
    rcases hmark with rfl | rfl
    · exact ⟨')', rfl⟩
    · exact ⟨']', rfl⟩
  | openBlock run headers hrun ht => exact .opened (.block i) rfl ht ⟨'}', rfl⟩ rfl (by simp) (by simp)
  | openClosure run hrun ht =>
    exact .opened (.closure i run s.groupDepth) rfl ht ⟨'}', rfl⟩ rfl rfl rfl
  | closeGroup above mark k below hstack habove ht =>
    exact .closed above (.group mark k) below hstack habove ht rfl rfl rfl
  | closeBlock above k below hstack habove ht =>
    exact .closed above (.block k) below hstack (hgroup habove ht) ⟨'}', rfl, ht⟩ rfl
      (by simp [Scan.pair, Frame.index]) (by simp)
  | closeClosure above k resume depth below hstack habove ht =>
    exact .closed above (.closure k resume depth) below hstack (hgroup habove ht) ⟨'}', rfl, ht⟩ rfl
      (by simp [Scan.pair, Frame.index]) (by simp)

theorem step_turn (s : Scan) (following : Nat → Option Nat) :
    Turn { s with nesting := s.nesting.push s.stack.length } i t (s.step tokens end_ following i t) :=
  (step_spec s following).turn

/-! ### Runs over lists -/

/-- Whether a list of tokens stands at an index. -/
def Stands (tokens : Array Token) (i : Nat) (list : List Token) : Prop :=
  ∀ k t, list[k]? = some t → tokens[i + k]? = some t

namespace Stands

variable {u v list rest : List Token}

theorem toArray (list : List Token) : Stands list.toArray 0 list := by
  intro k t hk
  rwa [Nat.zero_add, List.getElem?_toArray]

theorem head (h : Stands tokens i (t :: rest)) : tokens[i]? = some t := h 0 t rfl

theorem append_left (h : Stands tokens i (u ++ v)) : Stands tokens i u := by
  intro k t hk
  refine h k t ?_
  rwa [List.getElem?_append_left (List.getElem?_eq_some_iff.mp hk).1]

theorem append_right (h : Stands tokens i (u ++ v)) : Stands tokens (i + u.length) v := by
  intro k t hk
  rw [Nat.add_assoc]
  refine h _ t ?_
  rwa [List.getElem?_append_right (Nat.le_add_right _ _), Nat.add_sub_cancel_left]

theorem tail (h : Stands tokens i (t :: rest)) : Stands tokens (i + 1) rest :=
  append_right (u := [t]) h

end Stands

section

variable {following : Nat → Option Nat}

/-- What every step keeps holds after a list of tokens. -/
theorem run_induction {P : Scan → Nat → Prop}
    (hstep : ∀ s i t, P s i → tokens[i]? = some t → P (s.step tokens end_ following i t) (i + 1))
    {list : List Token} {s : Scan} {i : Nat} (h : P s i) (hlist : Stands tokens i list) :
    P (run_ tokens end_ following s i list) (i + list.length) := by
  induction list generalizing s i with
  | nil => exact h
  | cons t rest ih =>
    rw [List.length_cons, Nat.add_comm rest.length 1, ← Nat.add_assoc]
    exact ih (hstep s i t h hlist.head) hlist.tail

theorem run_append (s : Scan) (i : Nat) (u v : List Token) :
    run_ tokens end_ following s i (u ++ v) =
      run_ tokens end_ following (run_ tokens end_ following s i u) (i + u.length) v := by
  induction u generalizing s i with
  | nil => rfl
  | cons t u ih =>
    rw [List.cons_append, run_, ih, run_, List.length_cons, Nat.add_assoc, Nat.add_comm 1]

end

/-- The state behind the last token of a list. -/
def scanned (list : List Token) (end_ : Text) : Scan :=
  run_ list.toArray end_ (fun i => ((significantFrom 0 list).toArray[i + 1]?).getD none)
    { partners := Array.replicate list.toArray.size none } 0 list

theorem scanned_induction {P : Scan → Nat → Prop} (list : List Token) (end_ : Text)
    (hstart : P { partners := Array.replicate list.toArray.size none } 0)
    (hstep : ∀ s i t following, P s i → list.toArray[i]? = some t →
      P (s.step list.toArray end_ following i t) (i + 1)) :
    P (scanned list end_) list.length := by
  rw [← Nat.zero_add list.length]
  exact run_induction (fun s i t => hstep s i t _) hstart (.toArray list)

end Scan

theorem ofTokens_partner? (list : List Token) (end_ : Text) (k : Nat) :
    (Outline.ofTokens list end_).partner? k = partnerIn (Scan.scanned list end_).partners k :=
  congrArg (partnerIn · k) (Scan.close_partners _ _)

theorem ofTokens_nestingAt (list : List Token) (end_ : Text) (k : Nat) :
    (Outline.ofTokens list end_).nestingAt k = (Scan.scanned list end_).nesting.getD k 0 :=
  congrArg (Array.getD · k 0) (Scan.close_nesting _ _)

end HouseStyle.Outline
