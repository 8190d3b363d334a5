import HouseStyle.Proofs.Outline.Nested
import Mathlib.Data.List.Sort

/-! Where runs and segments stand. A run stays inside the braces that are open where it begins, and
its neighbours have only trivia between them or are the braces of a closure. So a segment begins
inside another only behind the brace of a closure, and does not come out again. -/

namespace HouseStyle

open Outline

namespace Outline

variable {tokens : Array Token} {s s' : Scan} {i : Nat}

/-! ### Braces -/

/-- The open braces of a stack, innermost first. -/
def openBraces (stack : List Frame) : List Nat := (stack.filter Frame.isBrace).map Frame.index

@[simp] theorem openBraces_cons_group (mark : Char) (k : Nat) (stack : List Frame) :
    openBraces (.group mark k :: stack) = openBraces stack := by
  simp [openBraces, Frame.isBrace]

@[simp] theorem openBraces_cons_closure (k : Nat) (resume : Run) (depth : Nat) (stack : List Frame) :
    openBraces (.closure k resume depth :: stack) = k :: openBraces stack := by
  rw [openBraces, List.filter_cons_of_pos rfl]
  rfl

theorem openBraces_append {above : List Frame} (habove : ∀ frame ∈ above, frame.isBrace = false)
    (stack : List Frame) : openBraces (above ++ stack) = openBraces stack := by
  rw [openBraces, List.filter_append, List.filter_eq_nil_iff.mpr (by simpa using habove),
    List.nil_append, openBraces]

theorem mem_openBraces {stack : List Frame} {b : Nat} :
    b ∈ openBraces stack ↔ ∃ frame ∈ stack, frame.isBrace ∧ frame.index = b := by
  simp [openBraces, and_assoc]

/-- The braces that open before a range of indices and do not close before its end, outermost
first. -/
def bracesAround (tokens : Array Token) (partners : Array (Option Nat)) (first last : Nat) : List Nat :=
  (List.range first).filter fun b =>
    tokenIs tokens (·.isMark '{') b && (partnerIn partners b).all (last < ·)

theorem mem_bracesAround {partners : Array (Option Nat)} {first last b : Nat} :
    b ∈ bracesAround tokens partners first last ↔
      b < first ∧ tokenIs tokens (·.isMark '{') b ∧
        ∀ p, partnerIn partners b = some p → last < p := by
  simp [bracesAround, Option.all_eq_true]

theorem bracesAround_pairwise (partners : Array (Option Nat)) (first last : Nat) :
    (bracesAround tokens partners first last).Pairwise (· < ·) :=
  List.Pairwise.filter _ List.pairwise_lt_range

/-- Brackets that close behind a range do not change what is around it. -/
theorem bracesAround_grows (h : s.Grows i s') {first last : Nat} (hfirst : first ≤ i)
    (hlast : last < i) :
    bracesAround tokens s'.partners first last = bracesAround tokens s.partners first last := by
  refine (bracesAround_pairwise _ _ _).eq_of_mem_iff (bracesAround_pairwise _ _ _) fun b => ?_
  rw [mem_bracesAround, mem_bracesAround]
  refine and_congr_right fun hb => and_congr_right fun _ => ⟨fun hp p hold => ?_, fun hp p hnew => ?_⟩
  · exact hp p (h.kept b p hold)
  · rcases h.added b p hnew with hold | rfl | rfl
    · exact hp p hold
    · omega
    · exact hlast

/-! ### Neighbours -/

/-- Neighbours in a run: only trivia stands between them, or they are the braces of a closure. -/
def Linked (tokens : Array Token) (partners : Array (Option Nat)) (closures : List Nat) (j k : Nat) :
    Prop :=
  j < k ∧ (Quiet tokens j k ∨ j ∈ closures ∧ partnerIn partners j = some k)

theorem Scan.Grows.closures_subset (h : s.Grows i s') : s.closures ⊆ s'.closures := by
  rcases h.closures with heq | heq <;> simp [heq]

theorem Linked.grows (h : s.Grows i s') {j k : Nat}
    (hlinked : Linked tokens s.partners s.closures j k) :
    Linked tokens s'.partners s'.closures j k :=
  ⟨hlinked.1, hlinked.2.imp_right fun hclosure =>
    ⟨h.closures_subset hclosure.1, h.kept j k hclosure.2⟩⟩

end Outline

/-! ### Housing -/

variable (tokens : Array Token) (partners : Array (Option Nat)) (closures : List Nat)

/-- A run that began inside the given open braces, innermost first. -/
structure Outline.Run.Housed (around : List Nat) (run : Run) : Prop where
  chain : run.indices.toList.IsChain (Linked tokens partners closures)
  container : run.container = around.head?
  depth : run.depth = around.length
  inside : ∀ k ∈ run.indices.toList, ∀ b ∈ around, b < k

/-- A closure interrupts a run that began inside the braces below it. -/
def Outline.Frame.Housed (frame : Frame) (below : List Frame) : Prop :=
  match frame with
  | .group _ _ => True
  | .block k => k ∉ closures
  | .closure k resume _ => k ∈ closures ∧ resume.Housed tokens partners closures (openBraces below)

/-- A segment knows the braces around it. -/
structure Segment.Housed (seg : Segment) : Prop where
  chain : seg.indices.IsChain (Linked tokens partners closures)
  container : seg.container = (bracesAround tokens partners seg.first seg.last).getLast?
  depth : seg.depth = (bracesAround tokens partners seg.first seg.last).length
  label : seg.label → seg.boundary = some seg.last

/-- Runs and segments before an index stand inside their braces, and a closure is open or paired. -/
structure Outline.Scan.Housed (s : Scan) (i : Nat) : Prop where
  run : s.run.Housed tokens s.partners s.closures (openBraces s.stack)
  frames : EachFrame (Frame.Housed tokens s.partners s.closures) s.stack
  segments : ∀ seg ∈ s.segments,
    seg.Housed tokens s.partners s.closures ∧ seg.first < i ∧ seg.last < i
  closures : ∀ c ∈ s.closures, c < i ∧
    ((∃ resume depth, .closure c resume depth ∈ s.stack) ∨ ∃ p, partnerIn s.partners c = some p)

variable {tokens partners closures} {s s' : Scan} {i : Nat} {t : Token}

theorem Segment.Housed.grows {seg : Segment} (hseg : seg.Housed tokens s.partners s.closures)
    (h : s.Grows i s') (hfirst : seg.first ≤ i) (hlast : seg.last < i) :
    seg.Housed tokens s'.partners s'.closures := by
  constructor
  · exact hseg.chain.imp fun _ _ => Linked.grows h
  · rw [bracesAround_grows h hfirst hlast]
    exact hseg.container
  · rw [bracesAround_grows h hfirst hlast]
    exact hseg.depth
  · exact hseg.label

namespace Outline

namespace Run.Housed

variable {around : List Nat} {run run' : Run}

theorem grows (hrun : run.Housed tokens s.partners s.closures around) (h : s.Grows i s') :
    run.Housed tokens s'.partners s'.closures around :=
  { hrun with chain := hrun.chain.imp fun _ _ => Linked.grows h }

theorem congr (hrun : run.Housed tokens partners closures around) (hsame : run.Same run') :
    run'.Housed tokens partners closures around := by
  constructor
  · rw [hsame.indices]
    exact hrun.chain
  · rw [hsame.container]
    exact hrun.container
  · rw [hsame.depth]
    exact hrun.depth
  · rw [hsame.indices]
    exact hrun.inside

theorem of_empty (hindices : run.indices = #[]) (hcontainer : run.container = around.head?)
    (hdepth : run.depth = around.length) : run.Housed tokens partners closures around := by
  refine ⟨?_, hcontainer, hdepth, ?_⟩
  · rw [hindices]
    exact .nil
  · simp [hindices]

theorem fresh (stack : List Frame) :
    (Scan.freshRun stack).Housed tokens partners closures (openBraces stack) :=
  of_empty rfl (by simp [Scan.freshRun, openBraces, List.head?_map])
    (by simp [Scan.freshRun, openBraces])

theorem push (hrun : run.Housed tokens partners closures around)
    (hlast : ∀ l ∈ run.indices.toList.getLast?, Linked tokens partners closures l i)
    (hinside : ∀ b ∈ around, b < i) : (run.push i).Housed tokens partners closures around := by
  refine ⟨?_, hrun.container, hrun.depth, ?_⟩
  · rw [Run.push, Array.toList_push]
    refine hrun.chain.append (List.isChain_singleton i) fun l hl k hk => ?_
    obtain rfl : i = k := by simpa using hk
    exact hlast l hl
  · intro k hk
    simp only [Run.push, Array.toList_push, List.mem_append, List.mem_singleton] at hk
    rcases hk with hk | rfl
    · exact hrun.inside k hk
    · exact hinside

end Run.Housed

theorem Frame.Housed.grows {frame : Frame} {below : List Frame}
    (hframe : frame.Housed tokens s.partners s.closures below) (h : s.Grows i s')
    (hlt : frame.index < i) : frame.Housed tokens s'.partners s'.closures below := by
  cases frame with
  | group => trivial
  | block k =>
    intro hk
    rcases h.closures with heq | heq
    · exact hframe (heq ▸ hk)
    · rcases List.mem_cons.mp (heq ▸ hk) with rfl | hk
      · exact hlt.false
      · exact hframe hk
  | closure k resume depth => exact ⟨h.closures_subset hframe.1, hframe.2.grows h⟩

/-! ### Ending a run -/

namespace Scan

theorem Nested.of_mem_openBraces (h : s.Nested tokens i) {b : Nat} (hb : b ∈ openBraces s.stack) :
    b < i ∧ tokenIs tokens (·.isMark '{') b ∧ partnerIn s.partners b = none := by
  obtain ⟨frame, hframe, hbrace, rfl⟩ := mem_openBraces.mp hb
  obtain ⟨hlt, hfree, -⟩ := h.waits frame hframe
  exact ⟨hlt, h.mark_of_isBrace hframe hbrace, hfree⟩

theorem Nested.openBraces_pairwise (h : s.Nested tokens i) :
    (openBraces s.stack).Pairwise fun a b => b < a :=
  List.Pairwise.map _ (fun _ _ h => h) (List.Pairwise.filter _ h.sorted)

/-- The braces around a range that ends just before an index are those open there, if the range
began inside them. -/
theorem Nested.bracesAround_eq (h : s.Nested tokens i)
    (hloud : ∀ a b, partnerIn s.partners a = some b → Loud tokens b) {first last : Nat}
    (hfirst : first ≤ i) (hinside : ∀ b ∈ openBraces s.stack, b < first)
    (hquiet : Quiet tokens last i) :
    bracesAround tokens s.partners first last = (openBraces s.stack).reverse := by
  refine (bracesAround_pairwise _ _ _).eq_of_mem_iff (List.pairwise_reverse.mpr h.openBraces_pairwise)
    fun b => ?_
  rw [mem_bracesAround, List.mem_reverse]
  constructor
  · rintro ⟨hb, hbrace, hpartner⟩
    rcases h.braces b (by omega) hbrace with ⟨frame, hframe, rfl⟩ | ⟨p, hp⟩
    · exact mem_openBraces.mpr ⟨frame, hframe, h.isBrace_of_mark hframe hbrace, rfl⟩
    · -- A brace closed by now would be closed behind the range, where there is only trivia.
      have := hquiet.le_of_loud (hloud b p hp) (hpartner p hp)
      exact absurd (h.lt (h.symm b p hp)) this.not_gt
  · intro hb
    obtain ⟨-, hbrace, hfree⟩ := h.of_mem_openBraces hb
    refine ⟨hinside b hb, hbrace, fun p hp => ?_⟩
    rw [hfree] at hp
    cases hp

/-! ### Steps -/

variable {end_ : Text} {run : Run} {ending : Ending} {nesting : Array Nat}

theorem Sound.loud (h : s.Sound tokens end_ i) (a b : Nat) (hab : partnerIn s.partners a = some b) :
    Loud tokens b := by
  have hmark {k : Nat} {c : Char} (hk : tokenIs tokens (·.isMark c) k) : Loud tokens k := by
    obtain ⟨t, ht, hmark⟩ := tokenIs_iff.mp hk
    exact ⟨t, ht, not_isTrivia hmark⟩
  rcases h.partners a b hab with ⟨-, pair, -, hopener, hcloser⟩ | ⟨-, pair, -, hopener, hcloser⟩
  · exact hmark hcloser
  · exact hmark hopener

theorem Sound.linked (h : s.Sound tokens end_ i) :
    ∀ l ∈ s.run.indices.toList.getLast?, Linked tokens partners closures l i :=
  fun l hl => ⟨h.run.lt l (List.mem_of_getLast? hl), .inl (h.quiet l hl)⟩

namespace Housed

/-- The segment of a run knows the braces around it. -/
theorem toSegment (hn : s.Nested tokens i) (hs : s.Sound tokens end_ i) {j : Nat} (hj : j ≤ i + 1)
    (hlt : ∀ k ∈ run.indices.toList, k < j)
    (hrun : run.Housed tokens s.partners s.closures (openBraces s.stack)) (hne : run.indices ≠ #[])
    (hquiet : ∀ l ∈ run.indices.toList.getLast?, Quiet tokens l i)
    (hlabel : ending.label → ending.boundary = run.indices.toList.getLast?) :
    (toSegment tokens s.partners run ending).Housed tokens s.partners s.closures ∧
      (toSegment tokens s.partners run ending).first < j ∧
      (toSegment tokens s.partners run ending).last < j := by
  obtain ⟨f, rest, hlist⟩ : ∃ f rest, run.indices.toList = f :: rest :=
    List.exists_cons_of_ne_nil (by simpa using hne)
  obtain ⟨l, hl⟩ : ∃ l, run.indices.toList.getLast? = some l := by
    rw [hlist]
    exact ⟨_, List.getLast?_eq_some_getLast (by simp)⟩
  have hfirst : (Scan.toSegment tokens s.partners run ending).first = f := by
    change run.indices.toList.headD 0 = f
    rw [hlist]
    rfl
  have hlast : (Scan.toSegment tokens s.partners run ending).last = l := toSegment_last hl
  have hf : f ∈ run.indices.toList := by simp [hlist]
  have hfj : f < j := hlt f hf
  have haround : bracesAround tokens s.partners f l = (openBraces s.stack).reverse :=
    hn.bracesAround_eq hs.loud (by omega) (hrun.inside f hf) (hquiet l hl)
  refine ⟨⟨hrun.chain, ?_, ?_, fun h => ?_⟩, ?_, ?_⟩
  · rw [hfirst, hlast, haround, List.getLast?_reverse]
    exact hrun.container
  · rw [hfirst, hlast, haround, List.length_reverse]
    exact hrun.depth
  · rw [hlast, ← hl]
    exact hlabel h
  · rwa [hfirst]
  · rw [hlast]
    exact hlt l (List.mem_of_getLast? hl)

theorem mono (h : s.Housed tokens i) : s.Housed tokens (i + 1) :=
  { h with
    segments := fun seg hseg => ⟨(h.segments seg hseg).1, by have := h.segments seg hseg; omega⟩
    closures := fun c hc => ⟨Nat.lt_succ_of_lt (h.closures c hc).1, (h.closures c hc).2⟩ }

/-- What is closed by the end of a run, with the run. -/
theorem segments_close (h : s.Housed tokens i) (hn : s.Nested tokens i) (hs : s.Sound tokens end_ i)
    {j : Nat} (hij : i ≤ j) (hj : j ≤ i + 1) (hlt : ∀ k ∈ run.indices.toList, k < j)
    (hrun : run.Housed tokens s.partners s.closures (openBraces s.stack))
    (hquiet : ∀ l ∈ run.indices.toList.getLast?, Quiet tokens l i)
    (hlabel : ending.label → ending.boundary = run.indices.toList.getLast?) {seg : Segment}
    (hseg : seg ∈ (Scan.close tokens { s with run, nesting } ending).segments) :
    seg.Housed tokens s.partners s.closures ∧ seg.first < j ∧ seg.last < j := by
  have hold (hseg : seg ∈ s.segments) :
      seg.Housed tokens s.partners s.closures ∧ seg.first < j ∧ seg.last < j := by
    obtain ⟨hhoused, hfirst, hlast⟩ := h.segments seg hseg
    exact ⟨hhoused, by omega, by omega⟩
  rw [Scan.close_segments] at hseg
  split_ifs at hseg with hempty
  · exact hold hseg
  · rcases List.mem_cons.mp hseg with rfl | hseg
    · exact toSegment hn hs hj hlt hrun hempty hquiet hlabel
    · exact hold hseg

theorem close (h : s.Housed tokens i) (hn : s.Nested tokens i) (hs : s.Sound tokens end_ i)
    (hlt : ∀ k ∈ run.indices.toList, k < i + 1)
    (hrun : run.Housed tokens s.partners s.closures (openBraces s.stack))
    (hquiet : ∀ l ∈ run.indices.toList.getLast?, Quiet tokens l i)
    (hlabel : ending.label → ending.boundary = run.indices.toList.getLast?) :
    (Scan.close tokens { s with run, nesting } ending).Housed tokens (i + 1) := by
  constructor
  · rw [close_partners, close_closures, close_stack]
    exact .of_empty (close_run_indices _ _) (by simpa using hrun.container)
      (by simpa using hrun.depth)
  · rw [close_partners, close_closures, close_stack]
    exact h.frames
  · rw [close_partners, close_closures]
    exact fun seg hseg =>
      h.segments_close hn hs (Nat.le_succ i) (Nat.le_refl _) hlt hrun hquiet hlabel hseg
  · rw [close_partners, close_closures, close_stack]
    exact h.mono.closures

/-- The run with the token at hand. -/
theorem push (h : s.Housed tokens i) (hn : s.Nested tokens i) (hs : s.Sound tokens end_ i) :
    (s.run.push i).Housed tokens s.partners s.closures (openBraces s.stack) :=
  h.run.push hs.linked fun _ hb => (hn.of_mem_openBraces hb).1

theorem segments_grow (h : s.Housed tokens i) (hgrows : s.Grows i s') {seg : Segment}
    (hseg : seg ∈ s.segments) :
    seg.Housed tokens s'.partners s'.closures ∧ seg.first < i + 1 ∧ seg.last < i + 1 := by
  obtain ⟨hhoused, hfirst, hlast⟩ := h.segments seg hseg
  exact ⟨hhoused.grows hgrows hfirst.le hlast, by omega, by omega⟩

section

variable (h : s.Housed tokens i) (hn : s.Nested tokens i) (hs : s.Sound tokens end_ i)
  (hrun : s.run.Same run)
include h hn hs hrun

/-- A run that ends in front of the token leaves its segment as it is while brackets close. -/
theorem segments_end (hgrows : s.Grows i s') (hlabel : ending.label = false) {seg : Segment}
    (hseg : seg ∈ (Scan.close tokens { s with run, nesting } ending).segments) :
    seg.Housed tokens s'.partners s'.closures ∧ seg.first < i + 1 ∧ seg.last < i + 1 := by
  obtain ⟨hhoused, hfirst, hlast⟩ := h.segments_close hn hs (Nat.le_refl i) (Nat.le_succ i)
    (hrun.indices ▸ hs.run.lt) (h.run.congr hrun) (hrun.indices ▸ hs.quiet) (by simp [hlabel]) hseg
  exact ⟨hhoused.grows hgrows hfirst.le hlast, by omega, by omega⟩

theorem ended (hlabel : ending.label = false) :
    (Scan.close tokens { s with run, nesting } ending).Housed tokens (i + 1) := by
  refine h.close hn hs (fun k hk => ?_) (h.run.congr hrun) (hrun.indices ▸ hs.quiet) (by simp [hlabel])
  rw [hrun.indices] at hk
  exact Nat.lt_succ_of_lt (hs.run.lt k hk)

end

section

variable {above below : List Frame} {frame : Frame}

theorem of_stack (h : s.Housed tokens i) (hstack : s.stack = above ++ frame :: below) :
    frame.Housed tokens s.partners s.closures below := by
  have hframes := h.frames
  rw [hstack] at hframes
  exact hframes.of_append.1

theorem frames_below (h : s.Housed tokens i) (hn : s.Nested tokens i)
    (hstack : s.stack = above ++ frame :: below) (hgrows : s.Grows i s') :
    EachFrame (Frame.Housed tokens s'.partners s'.closures) below := by
  have hframes := h.frames
  rw [hstack] at hframes
  refine hframes.of_append.2.imp fun f b hf _ hhoused => hhoused.grows hgrows (hn.index_lt f ?_)
  simp [hstack, hf]

/-- An opening bracket leaves the closures open. -/
theorem closures_above (h : s.Housed tokens i) (frame : Frame) (c : Nat) (hc : c ∈ s.closures) :
    c < i + 1 ∧ ((∃ resume depth, .closure c resume depth ∈ frame :: s.stack) ∨
      ∃ p, partnerIn s.partners c = some p) := by
  obtain ⟨hlt, ⟨resume, depth, hmem⟩ | hpaired⟩ := h.closures c hc
  · exact ⟨Nat.lt_succ_of_lt hlt, .inl ⟨resume, depth, List.mem_cons_of_mem frame hmem⟩⟩
  · exact ⟨Nat.lt_succ_of_lt hlt, .inr hpaired⟩

/-- What was open inside a bracket that closes is no closure, but the bracket may be one. -/
theorem closures_below (h : s.Housed tokens i) (hstack : s.stack = above ++ frame :: below)
    (habove : ∀ f ∈ above, f.isBrace = false) (hgrows : s.Grows i s')
    (hpaired : partnerIn s'.partners frame.index = some i) (hstack' : s'.stack = below)
    (hclosures : s'.closures = s.closures) (c : Nat) (hc : c ∈ s'.closures) : c < i + 1 ∧
      ((∃ resume depth, .closure c resume depth ∈ s'.stack) ∨
        ∃ p, partnerIn s'.partners c = some p) := by
  rw [hclosures] at hc
  rw [hstack']
  obtain ⟨hlt, ⟨resume, depth, hmem⟩ | ⟨p, hp⟩⟩ := h.closures c hc
  · refine ⟨Nat.lt_succ_of_lt hlt, ?_⟩
    rw [hstack] at hmem
    rcases List.mem_append.mp hmem with hmem | hmem
    · cases habove _ hmem
    · rcases List.mem_cons.mp hmem with rfl | hmem
      · exact .inr ⟨i, hpaired⟩
      · exact .inl ⟨resume, depth, hmem⟩
  · exact ⟨Nat.lt_succ_of_lt hlt, .inr ⟨p, hgrows.kept c p hp⟩⟩

end

/-- One step of the scan. -/
theorem step (h : s.Housed tokens i) (hn : s.Nested tokens i) (hs : s.Sound tokens end_ i)
    (ht : tokens[i]? = some t) (hstep : Step tokens end_ { s with nesting } i t s') :
    s'.Housed tokens (i + 1) := by
  have hgrows := hn.grows ht hstep
  have hpush := h.push hn hs
  have hpaired {frame : Frame} (hframe : frame ∈ s.stack) :=
    hn.pair_opener (Array.getElem?_eq_some_iff.mp ht).1 hframe
  cases hstep with
  | pass run hrun htrivia => exact { h.mono with run := h.run.congr hrun }
  | newline run hrun => exact h.ended hn hs hrun rfl
  | terminator run hrun => exact h.ended hn hs hrun rfl
  | label hmark hgroup =>
    refine h.close hn hs ?_ hpush (fun l hl => ?_) fun _ => (Run.getLast?_push s.run i).symm
    · exact (hs.push ⟨t, ht, not_isTrivia hmark⟩).run.lt
    · obtain rfl : i = l := by simpa [Run.push] using hl
      intro k hik hki
      omega
  | take run hrun => exact { h.mono with run := hpush.congr hrun }
  | openGroup mark hmark hopen =>
    exact { h.mono with
      run := by simpa [Scan.openGroup] using hpush
      frames := ⟨trivial, h.frames⟩
      closures := h.closures_above (.group mark i) }
  | openBlock run headers hrun hmark hgroup =>
    constructor
    case run => exact .fresh _
    case frames =>
      simp only [close_partners, close_closures]
      exact ⟨fun hi => (h.closures i hi).1.false, h.frames⟩
    case segments => exact fun seg hseg => h.segments_end hn hs hrun hgrows rfl hseg
    case closures =>
      simp only [close_partners, close_closures]
      exact h.closures_above (.block i)
  | openClosure run hrun hmark =>
    constructor
    case run => exact .fresh _
    case frames =>
      refine ⟨⟨List.mem_cons_self, (hpush.congr hrun).grows hgrows⟩, ?_⟩
      exact h.frames.imp fun frame below hframe _ hhoused =>
        hhoused.grows hgrows (hn.index_lt frame hframe)
    case segments => exact fun seg hseg => h.segments_grow hgrows hseg
    case closures =>
      intro c hc
      rcases List.mem_cons.mp hc with rfl | hc
      · exact ⟨Nat.lt_succ_self c, .inl ⟨run, s.groupDepth, List.mem_cons_self⟩⟩
      · exact h.closures_above _ c hc
  | closeGroup above mark k below hstack habove hclosed =>
    replace hstack : s.stack = above ++ .group mark k :: below := hstack
    have hframe : .group mark k ∈ s.stack := by simp [hstack]
    have hgroups (f : Frame) (hf : f ∈ above) := (habove f hf).1
    constructor
    case run =>
      rw [hstack, openBraces_append hgroups, openBraces_cons_group] at hpush
      exact hpush.grows hgrows
    case frames => exact h.frames_below hn hstack hgrows
    case segments => exact fun seg hseg => h.segments_grow hgrows hseg
    case closures => exact h.closures_below hstack hgroups hgrows (hpaired hframe) rfl rfl
  | closeBlock above k below hstack habove hmark =>
    replace hstack : s.stack = above ++ .block k :: below := hstack
    have hframe : .block k ∈ s.stack := by simp [hstack]
    constructor
    case run => exact .fresh below
    case frames => exact h.frames_below hn hstack hgrows
    case segments => exact fun seg hseg => h.segments_end hn hs .rfl hgrows rfl hseg
    case closures =>
      refine h.closures_below hstack habove hgrows ?_ rfl (by simp [pair])
      simpa [pair, Frame.index] using hpaired hframe
  | closeClosure above k resume depth below hstack habove hmark =>
    replace hstack : s.stack = above ++ .closure k resume depth :: below := hstack
    have hframe : .closure k resume depth ∈ s.stack := by simp [hstack]
    have hpaired := hpaired hframe
    obtain ⟨hk, hresume⟩ := h.of_stack hstack
    obtain ⟨hlt, -, -, hlast⟩ := hs.stack _ hframe
    constructor
    case run =>
      refine (hresume.grows hgrows).push (fun l hl => ?_) fun b hb => ?_
      · obtain rfl : k = l := Option.some.inj (hlast.symm.trans hl)
        exact ⟨hlt, .inr ⟨hgrows.closures_subset hk, by simpa [pair, Frame.index] using hpaired⟩⟩
      · refine (hn.of_mem_openBraces (b := b) ?_).1
        rw [hstack, openBraces_append habove, openBraces_cons_closure]
        exact List.mem_cons_of_mem k hb
    case frames => exact h.frames_below hn hstack hgrows
    case segments => exact fun seg hseg => h.segments_end hn hs .rfl hgrows rfl hseg
    case closures =>
      refine h.closures_below hstack habove hgrows ?_ rfl (by simp [pair])
      simpa [pair, Frame.index] using hpaired

end Housed

theorem Housed.start :
    Housed tokens { partners := Array.replicate tokens.size none } 0 where
  run := .of_empty rfl rfl rfl
  frames := trivial
  segments := by simp
  closures := by simp

/-- What holds of the scan before an index. -/
structure Invariant (tokens : Array Token) (end_ : Text) (s : Scan) (i : Nat) : Prop where
  nested : s.Nested tokens i
  sound : s.Sound tokens end_ i
  housed : s.Housed tokens i

theorem Invariant.step (h : s.Invariant tokens end_ i) (ht : tokens[i]? = some t)
    (following : Nat → Option Nat) :
    (s.step tokens end_ following i t).Invariant tokens end_ (i + 1) :=
  ⟨h.nested.step ht following, h.sound.step ht,
    h.housed.step h.nested h.sound ht (step_spec s following)⟩

theorem scanned_invariant (list : List Token) (end_ : Text) :
    (scanned list end_).Invariant list.toArray end_ list.length :=
  scanned_induction list end_ ⟨.start, .start, .start⟩ fun _ _ _ following h ht => h.step ht following

end Scan

end Outline

/-! ### Tokens held

A scan holds tokens in segments, in the run, and in the runs that closures interrupt. A step moves
indices between them and adds its own or none, so no token is held twice. -/

namespace Outline

/-- What waits for the end of a closure. -/
def Frame.held : Frame → List Nat
  | .closure _ resume _ => resume.indices.toList
  | _ => []

theorem held_of_not_isBrace {above : List Frame} (habove : ∀ frame ∈ above, frame.isBrace = false) :
    above.flatMap Frame.held = [] := by
  refine List.flatMap_eq_nil_iff.mpr fun frame hframe => ?_
  cases frame with
  | group => rfl
  | block k | closure k resume depth => cases habove _ hframe

namespace Scan

/-- All tokens in segments and runs. -/
def held (s : Scan) : List Nat :=
  s.segments.flatMap (·.indices) ++ (s.run.indices.toList ++ s.stack.flatMap Frame.held)

/-- Why a step holds no token. -/
inductive Skips (end_ : Text) (s : Scan) (i : Nat) (t : Token) (s' : Scan) : Prop
  | trivia (ht : t.isTrivia)
  | terminator (ht : t.isPunct end_) (hgroup : s.groupDepth = 0)
    (hends : s'.segments = s.segments ∨
      ∃ seg ∈ s'.segments, seg.boundary = some i ∧ seg.terminated)
  | opensBlock (ht : t.isMark '{') (hclosures : s'.closures = s.closures)
  | endsBlock (ht : t.isMark '}') (k : Nat) (hframe : .block k ∈ s.stack)
    (hpartners : s'.partners = (s.pair k i).partners)

variable {end_ : Text}

theorem held_close (s : Scan) (ending : Ending) : (s.close tokens ending).held.Perm s.held := by
  unfold close
  split
  · exact .refl _
  · simp only [held, Run.restart, List.flatMap_cons, List.append_assoc, List.nil_append]
    exact List.perm_append_comm_assoc _ _ _

theorem held_push (s : Scan) (i : Nat) : held { s with run := s.run.push i } |>.Perm (i :: s.held) := by
  refine List.perm_iff_count.mpr fun k => ?_
  simp only [held, Run.push, Array.toList_push, List.count_append, List.count_cons, List.count_nil]
  omega

theorem held_congr (hsegments : s'.segments = s.segments)
    (hrun : s'.run.indices = s.run.indices)
    (hstack : s'.stack.flatMap Frame.held = s.stack.flatMap Frame.held) : s'.held = s.held := by
  rw [held, hsegments, hrun, hstack, held]

/-- A step holds its token besides what was held, or skips it. -/
theorem Step.held (h : Step tokens end_ s i t s') :
    s'.held.Perm (i :: s.held) ∨ s'.held.Perm s.held ∧ Skips end_ s i t s' := by
  have hsame {run : Run} (hrun : s.run.Same run) : Scan.held { s with run } = s.held :=
    held_congr rfl hrun.indices rfl
  have hclose {run : Run} (hrun : s.run.Same run) (ending : Ending) :
      (Scan.close tokens { s with run } ending).held.Perm s.held := by
    rw [← hsame hrun]
    exact held_close _ _
  have hpush {run : Run} (hrun : (s.run.push i).Same run) :
      (Scan.held { s with run }).Perm (i :: s.held) := by
    rw [@held_congr { s with run := s.run.push i } { s with run } rfl hrun.indices rfl]
    exact held_push s i
  cases h with
  | pass run hrun ht =>
    rw [hsame hrun]
    exact .inr ⟨.refl _, .trivia ht⟩
  | newline run hrun ht =>
    refine .inr ⟨hclose hrun _, .trivia ?_⟩
    rw [Lexeme.isTrivia, ht]
    rfl
  | terminator run hrun ht hmark hgroup =>
    refine .inr ⟨hclose hrun _, .terminator ht hgroup ?_⟩
    rw [close_segments]
    split
    · exact .inl rfl
    · exact .inr ⟨_, List.mem_cons_self, rfl, rfl⟩
  | label => exact .inl ((held_close _ _).trans (held_push s i))
  | take run hrun => exact .inl (hpush hrun)
  | openGroup mark hmark ht => exact .inl (hpush .rfl)
  | openBlock run headers hrun ht hgroup =>
    refine .inr ⟨?_, .opensBlock ht (by simp)⟩
    refine .trans (.of_eq ?_) (hclose hrun { boundary := some i, opensBlock := true })
    simp [Scan.held, freshRun, Frame.held]
  | openClosure run hrun ht =>
    refine .inl (.trans ?_ (hpush hrun))
    simp [Scan.held, freshRun, Frame.held]
  | closeGroup above mark k below hstack habove ht =>
    refine .inl (.trans (.of_eq ?_) (held_push s i))
    simp [Scan.held, hstack, held_of_not_isBrace fun f hf => (habove f hf).1, Frame.held,
      pair]
  | closeBlock above k below hstack habove ht =>
    refine .inr ⟨?_, .endsBlock ht k (by simp [hstack]) (by simp [pair])⟩
    refine .trans (.of_eq ?_) (@held_close tokens s { boundary := some i })
    simp [Scan.held, freshRun, hstack, held_of_not_isBrace habove, Frame.held, pair]
  | closeClosure above k resume depth below hstack habove ht =>
    refine .inl (.trans ?_ ((@held_close tokens s { boundary := some i }).cons i))
    refine List.perm_iff_count.mpr fun m => ?_
    simp [Scan.held, hstack, held_of_not_isBrace habove, Frame.held, pair, Run.push,
      List.count_cons, List.count_append]
    omega

/-- No token is held twice, and none from an index on. -/
structure Holding (s : Scan) (i : Nat) : Prop where
  nodup : s.held.Nodup
  lt : ∀ k ∈ s.held, k < i

theorem Holding.step (h : s.Holding i) {nesting : Array Nat}
    (hstep : Step tokens end_ { s with nesting } i t s') : s'.Holding (i + 1) := by
  rcases hstep.held with hperm | ⟨hperm, -⟩
  · constructor
    · exact hperm.nodup_iff.mpr (List.nodup_cons.mpr ⟨fun hi => (h.lt i hi).false, h.nodup⟩)
    · intro k hk
      rcases List.mem_cons.mp (hperm.mem_iff.mp hk) with rfl | hk
      · exact Nat.lt_succ_self k
      · exact Nat.lt_succ_of_lt (h.lt k hk)
  · exact ⟨hperm.nodup_iff.mpr h.nodup, fun k hk => Nat.lt_succ_of_lt (h.lt k (hperm.mem_iff.mp hk))⟩

theorem scanned_holding (list : List Token) (end_ : Text) : (scanned list end_).Holding list.length :=
  scanned_induction list end_ ⟨List.nodup_nil, by simp [held]⟩ fun s _ _ following h _ =>
    h.step (step_spec s following)

end Scan

end Outline

end HouseStyle
