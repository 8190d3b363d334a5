import HouseStyle.Proofs.Outline.Born

/-! Where the tokens of a segment are collected. At any index between its first token and its end the
scan has the tokens so far, in its run or in a run that a closure interrupts. So a segment tells of
every state in between, and there the groups left open inside the innermost brace are among its
tokens. -/

namespace HouseStyle.Outline

variable {list : List Token} {tokens : Array Token} {end_ : Text} {s s' : Scan} {i m : Nat}
  {t : Token} {indices : List Nat}

/-! ### Collected so far -/

namespace Scan

/-- Whether some indices are the run, or a run that waits for the end of a closure. -/
def Collects (s : Scan) (indices : List Nat) : Prop :=
  s.run.indices.toList = indices ∨
    ∃ k resume depth, .closure k resume depth ∈ s.stack ∧ resume.indices.toList = indices

/-- What is collected behind a token was collected before it, without the token perhaps. -/
theorem Collects.of_step (hstep : Step tokens end_ s i t s') (h : s'.Collects indices) :
    indices = [] ∨ s.Collects indices ∨ ∃ init, s.Collects init ∧ indices = init ++ [i] := by
  have hsame {run : Run} (hrun : s.run.Same run) : Collects { s with run } indices →
      indices = [] ∨ s.Collects indices ∨ ∃ init, s.Collects init ∧ indices = init ++ [i] := by
    rintro (h | h)
    · exact .inr (.inl (.inl (hrun.indices ▸ h)))
    · exact .inr (.inl (.inr h))
  have hpushed {run : Run} (hrun : (s.run.push i).Same run)
      (h : run.indices.toList = indices) :
      indices = [] ∨ s.Collects indices ∨ ∃ init, s.Collects init ∧ indices = init ++ [i] := by
    refine .inr (.inr ⟨_, .inl rfl, ?_⟩)
    rw [← h, hrun.indices, Run.push, Array.toList_push]
  have hwaits {stack : List Frame} (hsub : stack ⊆ s.stack)
      (h : ∃ k resume depth, .closure k resume depth ∈ stack ∧ resume.indices.toList = indices) :
      indices = [] ∨ s.Collects indices ∨ ∃ init, s.Collects init ∧ indices = init ++ [i] := by
    obtain ⟨k, resume, depth, hframe, hresume⟩ := h
    exact .inr (.inl (.inr ⟨k, resume, depth, hsub hframe, hresume⟩))
  cases hstep with
  | pass run hrun ht => exact hsame hrun h
  | newline | terminator | label =>
    rcases h with h | h
    · exact .inl (by simpa using h.symm)
    · exact hwaits (by simp) h
  | take run hrun => exact h.elim (hpushed hrun) (hwaits (List.Subset.refl _))
  | openGroup mark => exact h.elim (hpushed .rfl) fun h => hwaits (List.Subset.refl _) (by simpa [openGroup] using h)
  | openBlock run headers hrun ht hgroup hheaders =>
    rcases h with h | h
    · exact .inl h.symm
    · exact hwaits (List.Subset.refl _) (by simpa using h)
  | openClosure run hrun ht =>
    rcases h with h | ⟨k, resume, depth, hframe, hresume⟩
    · exact .inl h.symm
    · rcases List.mem_cons.mp hframe with hframe | hframe
      · cases hframe
        exact hpushed hrun hresume
      · exact hwaits (List.Subset.refl _) ⟨k, resume, depth, hframe, hresume⟩
  | closeGroup above mark k below hstack =>
    exact h.elim (hpushed .rfl) (hwaits (by simp [hstack]))
  | closeBlock above k below hstack =>
    exact h.elim (fun h => .inl h.symm) (hwaits (by simp [hstack]))
  | closeClosure above k resume depth below hstack =>
    rcases h with h | h
    · refine .inr (.inr ⟨_, .inr ⟨k, resume, depth, by simp [hstack], rfl⟩, ?_⟩)
      rw [← h]
      simp [Run.push]
    · exact hwaits (by simp [hstack]) h

theorem Collects.lt (h : s.Collects indices) (hs : s.Sound tokens end_ i) :
    ∀ k ∈ indices, k < i := by
  rcases h with rfl | ⟨k, resume, depth, hframe, rfl⟩
  · exact hs.run.lt
  · obtain ⟨hk, -, hresume, -⟩ := hs.stack _ hframe
    exact fun m hm => (hresume.lt m hm).trans_le hk

/-- What is collected at an index was so at every index before, as far as it was there. -/
theorem Collects.before (hi : i ≤ list.length) (h : (before list end_ i).Collects indices)
    (hm : m ≤ i) (hsome : ∃ k ∈ indices, k < m) :
    (before list end_ m).Collects (indices.filter (· < m)) := by
  induction i generalizing indices with
  | zero =>
    obtain ⟨k, -, hk⟩ := hsome
    omega
  | succ i ih =>
    have ht := List.getElem?_eq_getElem (show i < list.length from hi)
    rcases hm.lt_or_eq with hlt | rfl
    · have hstep := @step_spec list.toArray end_ i list[i] (before list end_ i) (nextAfter list)
      rw [before_succ ht] at h
      rcases h.of_step hstep with rfl | hold | ⟨init, hold, rfl⟩
      · simp at hsome
      · exact ih (by omega) hold (by omega) hsome
      · have hmi : ¬i < m := by omega
        simp only [List.mem_append, List.mem_singleton] at hsome
        rw [List.filter_append, List.filter_cons_of_neg (by simpa using hmi), List.filter_nil,
          List.append_nil]
        refine ih (by omega) hold (by omega) ?_
        obtain ⟨k, hk | rfl, hkm⟩ := hsome
        · exact ⟨k, hk, hkm⟩
        · exact absurd hkm hmi
    · have hlt := h.lt (@before_invariant list end_ _ hi).sound
      rwa [List.filter_eq_self.mpr (by simpa using hlt)]

/-! ### Open groups -/

end Scan

/-- A run has the groups that are open on top of a stack, down to the innermost brace. -/
def Run.Gathers (run : Run) (stack : List Frame) : Prop :=
  ∀ frame ∈ stack.takeWhile (!·.isBrace), frame.index ∈ run.indices.toList

/-- The run that a closure interrupts has the groups that are open around the closure. -/
def Frame.Gathers : Frame → List Frame → Prop
  | .closure _ resume _, below => resume.Gathers below
  | _, _ => True

namespace Run.Gathers

variable {run run' : Run} {stack above : List Frame} {frame : Frame}

theorem of_openGroups (h : openGroups stack = 0) : run.Gathers stack := by
  rw [openGroups, List.length_eq_zero_iff] at h
  simp [Run.Gathers, h]

theorem congr (h : run.Gathers stack) (hsub : run.indices.toList ⊆ run'.indices.toList) :
    run'.Gathers stack :=
  fun frame hframe => hsub (h frame hframe)

theorem push (h : run.Gathers stack) (i : Nat) : (run.push i).Gathers stack :=
  h.congr (by simp [Run.push])

theorem of_append (h : run.Gathers (above ++ frame :: stack))
    (habove : ∀ f ∈ above, f.isBrace = false) (hframe : frame.isBrace = false) :
    run.Gathers stack := by
  intro f hf
  refine h f ?_
  rw [List.takeWhile_append_of_pos (by simpa using habove),
    List.takeWhile_cons_of_pos (by simpa using hframe)]
  simp [hf]

end Run.Gathers

namespace Scan

/-- The groups that are open inside a brace are in the run collected there. -/
structure Gathered (s : Scan) : Prop where
  run : s.run.Gathers s.stack
  frames : EachFrame Frame.Gathers s.stack

theorem Gathered.step (h : s.Gathered) (hg : s.Grouped) {nesting : Array Nat}
    (hstep : Step tokens end_ { s with nesting } i t s') : s'.Gathered := by
  have hzero (hgroup : s.groupDepth = 0) : openGroups s.stack = 0 := hg.depth.symm.trans hgroup
  cases hstep with
  | pass run hrun => exact ⟨h.run.congr (by rw [hrun.indices]; simp), h.frames⟩
  | newline run hrun ht hgroup | terminator run hrun ht hmark hgroup | label ht hgroup =>
    constructor
    · rw [close_stack]
      exact .of_openGroups (hzero hgroup)
    · rw [close_stack]
      exact h.frames
  | take run hrun => exact ⟨(h.run.push i).congr (by rw [hrun.indices]; simp), h.frames⟩
  | openGroup mark =>
    refine ⟨fun frame hframe => ?_, trivial, h.frames⟩
    rw [openGroup, List.takeWhile_cons_of_pos rfl] at hframe
    rcases List.mem_cons.mp hframe with rfl | hframe
    · simp [openGroup, Run.push, Frame.index]
    · exact h.run.push i frame hframe
  | openBlock run headers => exact ⟨.of_openGroups (openGroups_cons_brace rfl _), trivial, h.frames⟩
  | openClosure run hrun =>
    refine ⟨.of_openGroups (openGroups_cons_brace rfl _), ?_, h.frames⟩
    exact (h.run.push i).congr (by rw [hrun.indices]; simp)
  | closeGroup above mark k below hstack habove ht =>
    obtain ⟨hrun, hframes⟩ := h
    rw [show s.stack = above ++ .group mark k :: below from hstack] at hrun hframes
    exact ⟨(hrun.of_append (fun f hf => (habove f hf).1) rfl).push i, hframes.of_append.2⟩
  | closeBlock above k below hstack =>
    obtain ⟨-, hframes⟩ := h
    have hblock := hg.frames
    rw [show s.stack = above ++ .block k :: below from hstack] at hframes hblock
    exact ⟨.of_openGroups hblock.of_append.1, hframes.of_append.2⟩
  | closeClosure above k resume depth below hstack =>
    obtain ⟨-, hframes⟩ := h
    rw [show s.stack = above ++ .closure k resume depth :: below from hstack] at hframes
    exact ⟨Run.Gathers.push hframes.of_append.1 i, hframes.of_append.2⟩

theorem before_gathered (hi : i ≤ list.length) : (before list end_ i).Gathered :=
  (before_induction (P := fun s _ => s.Grouped ∧ s.Gathered) list end_
    ⟨⟨rfl, trivial⟩, ⟨by simp [Run.Gathers], trivial⟩⟩
    (fun s _ _ following h _ =>
      ⟨h.1.step (step_spec s following), h.2.step h.1 (step_spec s following)⟩) hi).2

/-- Outside all groups what is open was open before the run began. -/
theorem index_lt_run (hi : i ≤ list.length) (hgroup : (before list end_ i).groupDepth = 0) {m : Nat}
    (hm : m ∈ (before list end_ i).run.indices.toList) :
    ∀ frame ∈ (before list end_ i).stack, frame.index < m := by
  have hinv := @before_invariant list end_ _ hi
  have hopen := (@before_grouped list end_ _ hi).depth.symm.trans hgroup
  have hsorted := hinv.nested.sorted
  have hinside := hinv.housed.run.inside m hm
  cases hstack : (before list end_ i).stack with
  | nil => simp
  | cons top rest =>
    rw [hstack] at hopen hsorted hinside
    have hbrace : top.isBrace := by
      by_contra hbrace
      rw [openGroups, List.takeWhile_cons_of_pos (by simpa using hbrace)] at hopen
      cases hopen
    have htop : top.index < m :=
      hinside _ (mem_openBraces.mpr ⟨top, List.mem_cons_self, hbrace, rfl⟩)
    intro frame hframe
    rcases List.mem_cons.mp hframe with rfl | hframe
    · exact htop
    · exact (List.rel_of_pairwise_cons hsorted hframe).trans htop

/-! ### Where a segment is made -/

/-- The segments that a token can make. -/
inductive Makes (tokens : Array Token) (s : Scan) (i : Nat) (t : Token) : Segment → Prop
  | cut : Makes tokens s i t (toSegment tokens s.partners s.run { boundary := some i })
  | terminator (hgroup : s.groupDepth = 0)
      (hhead : ¬((classify tokens s.partners s.run).2.kind = .controlHeader ∧
        (classify tokens s.partners s.run).2.keyword = "for")) :
    Makes tokens s i t
      (toSegment tokens s.partners s.run { boundary := some i, terminated := true })
  | block (ht : t.isMark '{') (hgroup : s.groupDepth = 0) (hne : s.run.indices ≠ #[]) :
    Makes tokens s i t
      (toSegment tokens s.partners s.run { boundary := some i, opensBlock := true })
  | label : Makes tokens s i t
      (toSegment tokens s.partners (s.run.push i) { boundary := some i, label := true })

theorem toSegment_classify (partners : Array (Option Nat)) (run : Run) (ending : Ending) :
    toSegment tokens partners (classify tokens partners run).1 ending =
      toSegment tokens partners run ending := by
  have hsame := @classify_same tokens partners run
  simp only [toSegment, classify_classify, hsame.indices, hsame.container, hsame.depth]

theorem mem_segments_close {ending : Ending} {seg : Segment}
    (h : seg ∈ (s.close tokens ending).segments) :
    seg ∈ s.segments ∨ seg = toSegment tokens s.partners s.run ending := by
  rw [close_segments] at h
  split at h
  · exact .inl h
  · exact (List.mem_cons.mp h).symm

theorem step_makes (s : Scan) (following : Nat → Option Nat) (i : Nat) (t : Token) {seg : Segment}
    (h : seg ∈ (s.step tokens end_ following i t).segments) :
    seg ∈ s.segments ∨ Makes tokens s i t seg := by
  by_cases hnewline : t.kind = .newline
  · rw [step_newline hnewline] at h
    rcases @newline_cases tokens { s with nesting := s.nesting.push s.stack.length }
      (following i) i with ⟨run, heq, -⟩ | ⟨-, -, heq⟩
    · rw [heq] at h
      exact .inl h
    · rw [heq] at h
      exact (mem_segments_close h).imp_right (by rintro rfl; exact .cut)
  by_cases htrivia : t.isTrivia
  · rw [step_trivia htrivia hnewline] at h
    exact .inl h
  simp only [step, hnewline, htrivia, if_false, significant, Bool.false_eq_true] at h
  split_ifs at h with hround hsquare hround' hsquare' hbrace hbrace' hend hlabel
  · exact .inl h
  · exact .inl h
  · unfold closeGroup at h
    split at h <;> exact .inl h
  · unfold closeGroup at h
    split at h <;> exact .inl h
  · unfold openBrace at h
    simp only at h
    split_ifs at h with hwaits hblock hempty hblock hempty
    · exact .inl h
    · rcases List.mem_cons.mp h with rfl | h
      · rw [toSegment_classify]
        exact .inr (.block hbrace hwaits.1 (by simpa [Run.isEmpty] using hwaits.2))
      · exact .inl h
    · exact .inl h
    · exact .inl h
    · rcases List.mem_cons.mp h with rfl | h
      · exact .inr (.block hbrace hblock.1 (by simpa [Run.isEmpty] using hempty))
      · exact .inl h
    · exact .inl h
  · rcases @closeBrace_spec tokens { s with nesting := s.nesting.push s.stack.length } i
      with ⟨-, heq⟩ | ⟨-, heq, -⟩
    · rw [heq] at h
      exact .inl h
    · rw [heq] at h
      exact (mem_segments_close h).imp_right (by rintro rfl; exact .cut)
  · unfold terminator at h
    simp only at h
    split_ifs at h with hfor
    · exact .inl h
    · refine (mem_segments_close h).imp_right fun h => ?_
      rw [h]
      simp only [toSegment_classify]
      exact .terminator hend.2 hfor
  · exact (mem_segments_close h).imp_right (by rintro rfl; exact .label)
  · exact .inl h

theorem exists_makes {seg : Segment} (hi : i ≤ list.length) (h : seg ∈ (before list end_ i).segments) :
    ∃ k t, k < i ∧ list[k]? = some t ∧ Makes list.toArray (before list end_ k) k t seg := by
  induction i with
  | zero => cases h
  | succ i ih =>
    have ht := List.getElem?_eq_getElem (show i < list.length from hi)
    rw [before_succ ht] at h
    rcases step_makes _ _ _ _ h with hold | hmade
    · obtain ⟨k, t, hk, hmade⟩ := ih (by omega) hold
      exact ⟨k, t, by omega, hmade⟩
    · exact ⟨i, _, Nat.lt_succ_self i, ht, hmade⟩

/-- The tokens of a segment up to an index are collected there. -/
theorem MadeAt.collects {seg : Segment} (h : MadeAt list end_ seg i) (hm : m ≤ i) (hfirst : seg.first < m) :
    (before list end_ m).Collects (seg.indices.filter (· < m)) := by
  refine Collects.before h.le (.inl h.indices_eq.symm) hm ⟨seg.first, ?_, hfirst⟩
  have hne : seg.indices ≠ [] := by
    rw [h.indices_eq]
    simpa using h.ne
  obtain ⟨k, rest, hindices⟩ := List.exists_cons_of_ne_nil hne
  simp [Segment.first, hindices]

/-- A segment whose block is opened at an index. -/
structure BlockAt (list : List Token) (end_ : Text) (seg : Segment) (b : Nat) : Prop where
  mark : tokenIs list.toArray (·.isMark '{') b
  group : (before list end_ b).groupDepth = 0
  ne : (before list end_ b).run.indices ≠ #[]
  segment : seg = toSegment list.toArray (before list end_ b).partners (before list end_ b).run
    { boundary := some b, opensBlock := true }

theorem BlockAt.madeAt {seg : Segment} (h : BlockAt list end_ seg i) : MadeAt list end_ seg i := by
  obtain ⟨t, ht, -⟩ := tokenIs_iff.mp h.mark
  rw [List.getElem?_toArray] at ht
  exact ⟨(List.getElem?_eq_some_iff.mp ht).1.le, h.ne, _, h.segment⟩

section

variable {seg : Segment} (hseg : seg ∈ (Outline.ofTokens list end_).segments)
include hseg

theorem exists_makes_of_mem :
    (∃ k t, list[k]? = some t ∧ Makes list.toArray (before list end_ k) k t seg) ∨
      seg.opensBlock = false ∧ seg.terminated = false := by
  have hmem := (ofTokens_segments_perm list end_).mem_iff.mp hseg
  rw [← before_length] at hmem
  rcases mem_segments_close hmem with hmem | rfl
  · obtain ⟨k, t, -, ht, hmade⟩ := exists_makes (Nat.le_refl _) hmem
    exact .inl ⟨k, t, ht, hmade⟩
  · exact .inr ⟨rfl, rfl⟩

theorem exists_blockAt (hopens : seg.opensBlock) : ∃ b, BlockAt list end_ seg b := by
  rcases exists_makes_of_mem hseg with ⟨k, t, ht, hmade⟩ | ⟨hclosed, -⟩
  · cases hmade with
    | cut | terminator | label => cases hopens
    | block hmark hgroup hne =>
      refine ⟨k, ?_, hgroup, hne, rfl⟩
      rwa [tokenIs_of_getElem? (List.getElem?_toArray.trans ht)]
  · rw [hclosed] at hopens
    cases hopens

/-- No terminator ends the header of a loop. -/
theorem not_for_of_terminated (hends : seg.terminated) :
    ¬(seg.kind = .controlHeader ∧ seg.keyword = "for") := by
  rcases exists_makes_of_mem hseg with ⟨k, t, ht, hmade⟩ | ⟨-, hopen⟩
  · cases hmade with
    | cut | block | label => cases hends
    | terminator _ hhead => exact hhead
  · rw [hopen] at hends
    cases hends

/-- A segment that a terminator ends is made there, outside all groups. -/
theorem exists_madeAt_of_terminated (hends : seg.terminated) :
    ∃ k, MadeAt list end_ seg k ∧ (before list end_ k).groupDepth = 0 := by
  rcases exists_makes_of_mem hseg with ⟨k, t, ht, hmade⟩ | ⟨-, hopen⟩
  · have hne := ((ofTokens_sound list end_).segments seg hseg).ne_nil
    cases hmade with
    | cut | block | label => cases hends
    | terminator hgroup =>
      exact ⟨k, ⟨(List.getElem?_eq_some_iff.mp ht).1.le, by simpa [toSegment] using hne, _, rfl⟩, hgroup⟩
  · rw [hopen] at hends
    cases hends

end

end Scan
end HouseStyle.Outline
