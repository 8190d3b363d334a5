import HouseStyle.Proofs.Outline.Forest
import HouseStyle.Proofs.Outline.Groups
import HouseStyle.Proofs.Outline.Pairs

/-! How a segment without an end of its own comes about. A newline outside all groups cuts it off, or
the brace around it closes, or the text ends. Between its last token and there the scan changes
nothing, and as long as every bracket has a partner no group is open there. -/

namespace HouseStyle.Outline

/-! ### The next significant token -/

/-- The first significant token after an index, as the scan is told of it. -/
def nextAfter (list : List Token) (i : Nat) : Option Nat :=
  ((significantFrom 0 list).toArray[i + 1]?).getD none

theorem significantFrom_getElem? (i : Nat) (list : List Token) (k : Nat) :
    ((significantFrom i list)[k]?).getD none =
      ((list.drop k).findIdx? fun t => !t.isTrivia).map (· + (i + k)) := by
  induction list generalizing i k with
  | nil => simp [significantFrom]
  | cons t rest ih =>
    cases k with
    | zero =>
      have hlater := ih (i + 1) 0
      rw [List.drop_zero, ← List.head?_eq_getElem?] at hlater
      simp only [significantFrom, List.getElem?_cons_zero, Option.getD_some, List.drop_zero,
        List.findIdx?_cons]
      cases ht : t.isTrivia
      · simp
      · rw [if_pos rfl, hlater]
        simp [Function.comp_def]
        congr 1
        funext
        omega
    | succ k =>
      have := ih (i + 1) k
      simp only [significantFrom, List.getElem?_cons_succ, List.drop_succ_cons]
      rw [this]
      congr 1
      funext
      omega

theorem nextAfter_eq_some {list : List Token} {i j : Nat} :
    nextAfter list i = some j ↔ i < j ∧ Loud list.toArray j ∧ Quiet list.toArray i j := by
  have hfound : nextAfter list i =
      ((list.drop (i + 1)).findIdx? fun t => !t.isTrivia).map (· + (i + 1)) := by
    rw [nextAfter, List.getElem?_toArray, significantFrom_getElem?, Nat.zero_add]
  rw [hfound, Option.map_eq_some_iff]
  constructor
  · rintro ⟨n, hn, rfl⟩
    obtain ⟨hlt, hloud, hquiet⟩ := List.findIdx?_eq_some_iff_getElem.mp hn
    rw [List.length_drop] at hlt
    simp only [List.getElem_drop] at hloud hquiet
    refine ⟨by omega, ⟨list[i + 1 + n], ?_, by simpa using hloud⟩, fun m him hmn => ?_⟩
    · rw [List.getElem?_toArray, Nat.add_comm n, List.getElem?_eq_getElem]
    · obtain ⟨d, rfl⟩ : ∃ d, m = i + 1 + d := ⟨m - (i + 1), by omega⟩
      refine tokenIs_iff.mpr ⟨list[i + 1 + d], ?_, by simpa using hquiet d (by omega)⟩
      rw [List.getElem?_toArray, List.getElem?_eq_getElem]
  · rintro ⟨hij, ⟨t, ht, hloud⟩, hquiet⟩
    rw [List.getElem?_toArray] at ht
    obtain ⟨hlt, rfl⟩ := List.getElem?_eq_some_iff.mp ht
    refine ⟨j - (i + 1), List.findIdx?_eq_some_iff_getElem.mpr ⟨?_, ?_, fun m hm => ?_⟩, by omega⟩
    · rw [List.length_drop]
      omega
    · simp only [List.getElem_drop, show i + 1 + (j - (i + 1)) = j by omega, hloud]
      rfl
    · obtain ⟨t, ht, htrivia⟩ := tokenIs_iff.mp (hquiet (i + 1 + m) (by omega) (by omega))
      rw [List.getElem?_toArray] at ht
      obtain ⟨_, rfl⟩ := List.getElem?_eq_some_iff.mp ht
      simpa [List.getElem_drop] using htrivia

namespace Scan

/-! ### The states of a scan -/

/-- The state before the token at an index. -/
def before (list : List Token) (end_ : Text) (k : Nat) : Scan :=
  run_ list.toArray end_ (nextAfter list) { partners := Array.replicate list.toArray.size none } 0
    (list.take k)

variable {list : List Token} {end_ : Text} {k : Nat} {t : Token}

theorem before_zero :
    before list end_ 0 = { partners := Array.replicate list.toArray.size none } := rfl

theorem before_succ (ht : list[k]? = some t) :
    before list end_ (k + 1) = (before list end_ k).step list.toArray end_ (nextAfter list) k t := by
  obtain ⟨hk, rfl⟩ := List.getElem?_eq_some_iff.mp ht
  rw [before, List.take_add_one, ht, run_append, List.length_take, Nat.min_eq_left hk.le,
    Nat.zero_add]
  rfl

theorem before_length : before list end_ list.length = scanned list end_ := by
  rw [before, List.take_length]
  rfl

theorem before_induction {P : Scan → Nat → Prop} (list : List Token) (end_ : Text)
    (hstart : P { partners := Array.replicate list.toArray.size none } 0)
    (hstep : ∀ s i t following, P s i → list.toArray[i]? = some t →
      P (s.step list.toArray end_ following i t) (i + 1)) (hk : k ≤ list.length) :
    P (before list end_ k) k := by
  induction k with
  | zero => exact hstart
  | succ k ih =>
    have ht := List.getElem?_eq_getElem (show k < list.length by omega)
    rw [before_succ ht]
    exact hstep _ k _ _ (ih (by omega)) (by rwa [List.getElem?_toArray])

theorem before_invariant (hk : k ≤ list.length) :
    (before list end_ k).Invariant list.toArray end_ k :=
  before_induction (P := fun s i => s.Invariant list.toArray end_ i) list end_
    ⟨.start, .start, .start⟩
    (fun _ _ _ following h ht => h.step ht following) hk

theorem before_grouped (hk : k ≤ list.length) : (before list end_ k).Grouped :=
  before_induction (P := fun s _ => s.Grouped) list end_ ⟨rfl, trivial⟩
    (fun s _ _ following h _ => h.step (step_spec s following)) hk

/-! ### Ending a run early -/

section

variable {tokens : Array Token} {s : Scan} {i : Nat} {following : Nat → Option Nat}

theorem classify_classify (partners : Array (Option Nat)) (run : Run) :
    classify tokens partners (classify tokens partners run).1 = classify tokens partners run := by
  obtain ⟨indices, container, depth, assigned, head⟩ := run
  cases head with
  | some head => rfl
  | none =>
    simp only [classify]
    cases hhead : head? tokens partners indices.toList with
    | some head => rfl
    | none => simp [hhead]

theorem classify_of_empty (partners : Array (Option Nat)) {run : Run} (h : run.indices = #[]) :
    (classify tokens partners run).1 = run := by
  unfold classify
  split
  · rfl
  · simp [h, head?_nil]

/-- Looking for the leading word does not change the segment that a run makes. -/
theorem close_classify (s : Scan) (ending : Ending) :
    Scan.close tokens { s with run := (classify tokens s.partners s.run).1 } ending =
      s.close tokens ending := by
  by_cases hempty : s.run.indices = #[]
  · rw [classify_of_empty s.partners hempty]
  have hsame := @classify_same tokens s.partners s.run
  have hne : (classify tokens s.partners s.run).1.isEmpty = false ∧ s.run.isEmpty = false := by
    simpa [Run.isEmpty, hsame.indices] using hempty
  simp only [close, hne, Bool.false_eq_true, if_false, toSegment, classify_classify, Run.restart,
    hsame.indices, hsame.container, hsame.depth]

theorem close_continues (s : Scan) (following : Option Nat) (ending : Ending) :
    Scan.close tokens { s with run := (continues tokens s following).1 } ending =
      s.close tokens ending := by
  rcases continues_run s following with h | h <;> rw [h]
  exact close_classify s ending

theorem close_of_empty (h : s.run.indices = #[]) (ending : Ending) : s.close tokens ending = s := by
  rw [close, if_pos (by simp [Run.isEmpty, h])]

@[simp] theorem close_close (s : Scan) (ending ending' : Ending) :
    (s.close tokens ending).close tokens ending' = s.close tokens ending :=
  close_of_empty (close_run_indices s ending) ending'

theorem close_with_nesting (s : Scan) (nesting : Array Nat) (ending : Ending) :
    Scan.close tokens { s with nesting } ending = { s.close tokens ending with nesting } := by
  unfold close
  split <;> rfl

/-- A state without how deep its tokens stand. -/
def bare (s : Scan) : Scan := { s with nesting := #[] }

theorem step_newline (ht : t.kind = .newline) :
    s.step tokens end_ following i t =
      Scan.newline tokens (following i) i { s with nesting := s.nesting.push s.stack.length } := by
  simp [step, ht]

theorem step_trivia (htrivia : t.isTrivia) (ht : t.kind ≠ .newline) :
    s.step tokens end_ following i t = { s with nesting := s.nesting.push s.stack.length } := by
  simp [step, ht, htrivia]

theorem step_closeBrace (ht : t.isMark '}') :
    s.step tokens end_ following i t =
      Scan.closeBrace tokens i { s with nesting := s.nesting.push s.stack.length } := by
  have hkind : t.kind ≠ .newline := by
    intro hkind
    simp [Lexeme.isMark, Lexeme.isPunct, hkind] at ht
  have hmark (c : Char) (hc : '}' ≠ c) : t.isMark c = false := not_isMark ht hc
  simp [step, significant, hkind, not_isTrivia ht, hmark, ht]

/-- A newline may find the leading word of the run, and does nothing else or ends the run. -/
theorem newline_cases (s : Scan) (following : Option Nat) (i : Nat) :
    (∃ run, s.newline tokens following i = { s with run } ∧
      ∀ ending, Scan.close tokens { s with run } ending = s.close tokens ending) ∨
    (s.groupDepth = 0 ∧ s.run.indices ≠ #[] ∧
      s.newline tokens following i = s.close tokens { boundary := some i }) := by
  unfold newline
  split
  · next hwaits =>
    simp only
    split
    · exact .inl ⟨_, rfl, close_continues s following⟩
    · exact .inr ⟨hwaits.1, by simpa [Run.isEmpty] using hwaits.2, close_continues s following _⟩
  · exact .inl ⟨s.run, rfl, fun _ => rfl⟩

theorem newline_of_empty (h : s.run.indices = #[]) (following : Option Nat) (i : Nat) :
    s.newline tokens following i = s := by
  rw [newline, if_neg (by simp [Run.isEmpty, h])]

/-- Trivia that does not end a run leaves it to end as it would have before. -/
theorem bare_close_step (htrivia : t.isTrivia)
    (hne : (s.step tokens end_ following i t).run.indices ≠ #[]) (ending : Ending) :
    ((s.step tokens end_ following i t).close tokens ending).bare = (s.close tokens ending).bare := by
  by_cases hnewline : t.kind = .newline
  · rw [step_newline hnewline] at hne ⊢
    rcases @newline_cases tokens { s with nesting := s.nesting.push s.stack.length }
      (following i) i with ⟨run, heq, hclose⟩ | ⟨-, -, heq⟩
    · rw [heq, hclose, close_with_nesting]
      rfl
    · rw [heq] at hne
      exact absurd (close_run_indices _ _) hne
  · rw [step_trivia htrivia hnewline, close_with_nesting]
    rfl

/-- Trivia finds nothing to do where there is no run. -/
theorem bare_step_of_empty (htrivia : t.isTrivia) (h : s.run.indices = #[]) :
    (s.step tokens end_ following i t).bare = s.bare := by
  by_cases hnewline : t.kind = .newline
  · rw [step_newline hnewline, newline_of_empty]
    · rfl
    · exact h
  · rw [step_trivia htrivia hnewline]
    rfl

/-- A closing brace ends the run first, if there is a brace to close. -/
theorem closeBrace_spec (s : Scan) (i : Nat) :
    (braceOpener? s.stack = none ∧ (s.closeBrace tokens i).segments = s.segments) ∨
    ((braceOpener? s.stack).isSome ∧
      (s.closeBrace tokens i).segments = (s.close tokens { boundary := some i }).segments ∧
      s.closeBrace tokens i = (s.close tokens { boundary := some i }).closeBrace tokens i) := by
  unfold closeBrace
  rw [close_stack]
  cases braceOpener? s.stack with
  | none => exact .inl ⟨rfl, rfl⟩
  | some found =>
    obtain ⟨frame, below⟩ := found
    refine .inr ⟨rfl, ?_, by simp⟩
    cases frame <;> rfl

theorem step_of_brace (ht : t.isMark '}') (hopen : (braceOpener? s.stack).isSome) :
    s.step tokens end_ following i t =
      (s.close tokens { boundary := some i }).step tokens end_ following i t := by
  rw [step_closeBrace ht, step_closeBrace ht]
  rcases @closeBrace_spec tokens { s with nesting := s.nesting.push s.stack.length } i
    with ⟨hnone, -⟩ | ⟨-, -, heq⟩
  · rw [show braceOpener? s.stack = none from hnone] at hopen
    cases hopen
  · rw [close_with_nesting] at heq
    rw [heq]
    simp

/-- Whether a token cuts off a run: a newline outside all groups does, and a brace that closes. -/
inductive Cuts (s : Scan) (t : Token) : Prop
  | newline (ht : t.kind = .newline) (hgroup : s.groupDepth = 0)
  | brace (ht : t.isMark '}') (hopen : (braceOpener? s.stack).isSome)

/-- A step makes a segment that says how it ended, or it cuts off the run as if that had been over
before. -/
theorem step_segments (s : Scan) (following : Nat → Option Nat) (i : Nat) (t : Token) :
    (s.step tokens end_ following i t).segments = s.segments ∨
    (∃ seg, (s.step tokens end_ following i t).segments = seg :: s.segments ∧
      (seg.terminated ∨ seg.opensBlock ∨ seg.label)) ∨
    (s.Cuts t ∧ s.run.indices ≠ #[] ∧
      (s.step tokens end_ following i t).segments =
        toSegment tokens s.partners s.run { boundary := some i } :: s.segments ∧
      s.step tokens end_ following i t =
        (s.close tokens { boundary := some i }).step tokens end_ following i t) := by
  by_cases hnewline : t.kind = .newline
  · rw [step_newline hnewline, step_newline hnewline]
    rcases @newline_cases tokens { s with nesting := s.nesting.push s.stack.length }
      (following i) i with ⟨run, heq, -⟩ | ⟨hgroup, hne, heq⟩
    · exact .inl (by rw [heq])
    · refine .inr (.inr ⟨.newline hnewline hgroup, hne, ?_, ?_⟩)
      · rw [heq, close_segments, if_neg hne]
      · rw [heq, close_with_nesting, newline_of_empty]
        · simp
        · exact close_run_indices s _
  by_cases hbrace : t.isMark '}'
  · rcases @closeBrace_spec tokens { s with nesting := s.nesting.push s.stack.length } i
      with ⟨-, heq⟩ | ⟨hopen, hsegments, -⟩
    · rw [step_closeBrace hbrace]
      exact .inl heq
    · rw [close_with_nesting, ← @step_closeBrace end_ t tokens s i following hbrace] at hsegments
      by_cases hne : s.run.indices = #[]
      · exact .inl (by rw [hsegments, close_of_empty hne])
      · refine .inr (.inr ⟨.brace hbrace hopen, hne, ?_, step_of_brace hbrace hopen⟩)
        rw [hsegments, close_segments, if_neg hne]
  · have hstep := @step_spec tokens end_ i t s following
    generalize s.step tokens end_ following i t = s' at hstep
    have hclose (run : Run) (nesting : Array Nat) {ending : Ending}
        (hends : ending.terminated ∨ ending.opensBlock ∨ ending.label) :
        (Scan.close tokens { s with run, nesting } ending).segments = s.segments ∨
          ∃ seg, (Scan.close tokens { s with run, nesting } ending).segments = seg :: s.segments ∧
            (seg.terminated ∨ seg.opensBlock ∨ seg.label) := by
      rw [close_segments]
      split
      · exact .inl rfl
      · exact .inr ⟨_, rfl, hends⟩
    cases hstep with
    | pass | take | openGroup | openClosure | closeGroup => exact .inl rfl
    | newline run hrun ht => exact absurd ht hnewline
    | closeBlock above k below hstack habove ht => exact absurd ht hbrace
    | closeClosure above k resume depth below hstack habove ht => exact absurd ht hbrace
    | terminator run => exact (hclose run _ (.inl rfl)).imp_right .inl
    | label => exact (hclose (s.run.push i) _ (.inr (.inr rfl))).imp_right .inl
    | openBlock run => exact (hclose run _ (.inr (.inl rfl))).imp_right .inl

end

/-! ### Where a run is cut off -/

/-- The ending of a run that is cut off at an index, or by the end of the text. -/
def cutOff (list : List Token) (k : Nat) : Ending := { boundary := list[k]?.map fun _ => k }

/-- A segment that its run makes where it is cut off at an index. -/
structure CutAt (list : List Token) (end_ : Text) (seg : Segment) (k : Nat) : Prop where
  le : k ≤ list.length
  ne : (before list end_ k).run.indices ≠ #[]
  segment : seg = toSegment list.toArray (before list end_ k).partners (before list end_ k).run
    (cutOff list k)
  cuts : ∀ t, list[k]? = some t → (before list end_ k).Cuts t ∧
    before list end_ (k + 1) = ((before list end_ k).close list.toArray (cutOff list k)).step
      list.toArray end_ (nextAfter list) k t

theorem exists_cutAt_of_before {seg : Segment} (hk : k ≤ list.length)
    (hseg : seg ∈ (before list end_ k).segments)
    (hopen : ¬(seg.terminated ∨ seg.opensBlock ∨ seg.label)) : ∃ j, CutAt list end_ seg j := by
  induction k with
  | zero => cases hseg
  | succ k ih =>
    have hlt : k < list.length := hk
    have ht := List.getElem?_eq_getElem hlt
    have hbefore := @before_succ list end_ k _ ht
    rw [hbefore] at hseg
    rcases @step_segments end_ list.toArray (before list end_ k)
      (nextAfter list) k list[k] with hsame | ⟨last, hsegments, hends⟩ | ⟨hcuts, hne, hsegments, heq⟩
    · exact ih hlt.le (hsame ▸ hseg)
    · rw [hsegments] at hseg
      rcases List.mem_cons.mp hseg with rfl | hseg
      · exact absurd hends hopen
      · exact ih hlt.le hseg
    · rw [hsegments] at hseg
      rcases List.mem_cons.mp hseg with rfl | hseg
      · refine ⟨k, hlt.le, hne, by simp [cutOff, ht], fun t ht' => ?_⟩
        obtain rfl := Option.some.inj (ht.symm.trans ht')
        refine ⟨hcuts, ?_⟩
        rw [hbefore, heq]
        simp [cutOff, ht]
      · exact ih hlt.le hseg

/-- A segment that does not say how it ended was cut off. -/
theorem exists_cutAt {seg : Segment} (hseg : seg ∈ (Outline.ofTokens list end_).segments)
    (hopen : ¬(seg.terminated ∨ seg.opensBlock ∨ seg.label)) : ∃ k, CutAt list end_ seg k := by
  have hmem := (ofTokens_segments_perm list end_).mem_iff.mp hseg
  rw [← before_length, close_segments] at hmem
  split at hmem
  · exact exists_cutAt_of_before (Nat.le_refl _) hmem hopen
  · next hne =>
    rcases List.mem_cons.mp hmem with rfl | hmem
    · exact ⟨list.length, Nat.le_refl _, hne, by simp [cutOff], by simp⟩
    · exact exists_cutAt_of_before (Nat.le_refl _) hmem hopen

/-! ### Lost brackets -/

/-- An index with neither an open bracket nor a partner any more. -/
structure Lost (s : Scan) (i m : Nat) : Prop where
  lt : m < i
  notOpen : ∀ frame ∈ s.stack, frame.index ≠ m
  free : partnerIn s.partners m = none

section

variable {tokens : Array Token} {s s' : Scan} {i m : Nat}

theorem partnerIn_pair_eq_none (hfree : partnerIn s.partners m = none) {opening closing : Nat}
    (ho : m ≠ opening) (hc : m ≠ closing) : partnerIn (s.pair opening closing).partners m = none := by
  by_contra hsome
  obtain ⟨b, hb⟩ := Option.ne_none_iff_exists'.mp hsome
  rcases partnerIn_pair s hb with hold | ⟨heq, -⟩ | ⟨heq, -⟩
  · rw [hfree] at hold
    cases hold
  · exact ho heq
  · exact hc heq

/-- What is lost stays lost. -/
theorem Lost.step (h : s.Lost i m) {nesting : Array Nat}
    (hstep : Step tokens end_ { s with nesting } i t s') : s'.Lost (i + 1) m := by
  have hlt := Nat.lt_succ_of_lt h.lt
  cases hstep.turn with
  | keep hopen hclose hstack hpartners =>
    exact ⟨hlt, by rw [hstack]; exact h.notOpen, by rw [hpartners]; exact h.free⟩
  | opened frame hindex hmark hcloser hstack hpartners =>
    refine ⟨hlt, fun f hf => ?_, by rw [hpartners]; exact h.free⟩
    rw [hstack] at hf
    rcases List.mem_cons.mp hf with rfl | hf
    · rw [hindex]
      exact h.lt.ne'
    · exact h.notOpen f hf
  | closed above frame below hold habove hclosed hstack hpartners =>
    replace hold : s.stack = above ++ frame :: below := hold
    refine ⟨hlt, fun f hf => h.notOpen f ?_, ?_⟩
    · rw [hstack] at hf
      simp [hold, hf]
    · rw [hpartners]
      exact partnerIn_pair_eq_none h.free (h.notOpen frame (by simp [hold])).symm h.lt.ne

theorem Lost.scanned (hk : k ≤ list.length) (h : (before list end_ k).Lost k m) :
    partnerIn (scanned list end_).partners m = none := by
  have hlost : ∀ d, k + d ≤ list.length → (before list end_ (k + d)).Lost (k + d) m := by
    intro d
    induction d with
    | zero => exact fun _ => h
    | succ d ih =>
      intro hd
      have ht := List.getElem?_eq_getElem (show k + d < list.length by omega)
      rw [← Nat.add_assoc, before_succ ht]
      exact (ih (by omega)).step (step_spec _ _)
  have := (hlost (list.length - k) (by omega)).free
  rwa [Nat.add_sub_cancel' hk, before_length] at this

theorem closeBrace_open {frame : Frame} {below : List Frame}
    (h : braceOpener? s.stack = some (frame, below)) (i : Nat) :
    (s.closeBrace tokens i).stack = below ∧
      (s.closeBrace tokens i).partners = (s.pair frame.index i).partners := by
  unfold closeBrace
  rw [h]
  cases frame <;> simp [pair]

theorem step_closes {frame : Frame} {below : List Frame} (ht : t.isMark '}')
    (h : braceOpener? s.stack = some (frame, below)) (following : Nat → Option Nat) (i : Nat) :
    (s.step tokens end_ following i t).stack = below ∧
      (s.step tokens end_ following i t).partners = (s.pair frame.index i).partners := by
  rw [step_closeBrace ht]
  exact closeBrace_open (s := { s with nesting := s.nesting.push s.stack.length }) h i

/-- A brace that closes loses a group that is open inside it. -/
theorem Nested.lost (hn : s.Nested tokens i) {top : Frame} {rest : List Frame}
    (hstack : s.stack = top :: rest) (htop : top.isBrace = false) (ht : t.isMark '}')
    (hopen : (braceOpener? s.stack).isSome) (following : Nat → Option Nat) :
    (s.step tokens end_ following i t).Lost (i + 1) top.index := by
  obtain ⟨⟨frame, below⟩, hfound⟩ := Option.isSome_iff_exists.mp hopen
  obtain ⟨above, hold, hbrace, -⟩ := braceOpener?_eq_some hfound
  obtain ⟨hlt, hfree, -⟩ := hn.waits top (by simp [hstack])
  have hunder : ∀ f ∈ frame :: below, f.index < top.index := by
    have hsorted := hn.sorted
    cases above with
    | nil =>
      obtain ⟨rfl, -⟩ := List.cons.inj (hstack.symm.trans hold)
      rw [htop] at hbrace
      cases hbrace
    | cons first above =>
      obtain ⟨rfl, -⟩ := List.cons.inj (hstack.symm.trans hold)
      rw [hold, List.cons_append] at hsorted
      exact fun f hf => List.rel_of_pairwise_cons hsorted (List.mem_append_right above hf)
  obtain ⟨hbelow, hpartners⟩ := @step_closes end_ t tokens s frame below ht hfound following i
  refine ⟨Nat.lt_succ_of_lt hlt, fun f hf => ?_, ?_⟩
  · rw [hbelow] at hf
    exact (hunder f (List.mem_cons_of_mem frame hf)).ne
  · rw [hpartners]
    exact partnerIn_pair_eq_none hfree (hunder frame List.mem_cons_self).ne' hlt.ne

end

/-- Where every bracket has a partner no group is open where a run is cut off. -/
theorem CutAt.groupDepth_eq_zero {seg : Segment} (h : CutAt list end_ seg k)
    (hpaired : ∀ m t, list[m]? = some t → isBracket t →
      ((Outline.ofTokens list end_).partner? m).isSome) :
    (before list end_ k).groupDepth = 0 := by
  have hnested := (@before_invariant list end_ k h.le).nested
  have hdepth := (@before_grouped list end_ k h.le).depth
  by_contra hgroup
  obtain ⟨top, rest, hstack, htop⟩ : ∃ top rest, (before list end_ k).stack = top :: rest ∧
      top.isBrace = false := by
    rw [hdepth] at hgroup
    cases hstack : (before list end_ k).stack with
    | nil => simp [hstack, openGroups] at hgroup
    | cons top rest =>
      refine ⟨top, rest, rfl, ?_⟩
      by_contra hbrace
      rw [hstack, openGroups_cons_brace (by simpa using hbrace)] at hgroup
      exact hgroup rfl
  obtain ⟨hlt, hfree, hmark, c, hc⟩ := hnested.waits top (by simp [hstack])
  -- The group on top of the stack has no partner, and none is made for it from here on.
  have hlost : partnerIn (scanned list end_).partners top.index = none := by
    cases ht : list[k]? with
    | none =>
      have hend : k = list.length := h.le.antisymm (List.getElem?_eq_none_iff.mp ht)
      rwa [hend, before_length] at hfree
    | some t =>
      have hk := (List.getElem?_eq_some_iff.mp ht).1
      refine Lost.scanned (k := k + 1) hk ?_
      rw [before_succ ht]
      cases (h.cuts t ht).1 with
      | newline _ hzero => exact absurd hzero hgroup
      | brace hbrace hopen => exact hnested.lost hstack htop hbrace hopen _
  obtain ⟨t, ht, hmark⟩ := tokenIs_iff.mp hmark
  have hbracket : isBracket t :=
    List.any_eq_true.mpr ⟨_, (closer?_eq_some hc).1, by simp [hmark]⟩
  have := hpaired top.index t (by rwa [← List.getElem?_toArray]) hbracket
  rw [ofTokens_partner?, hlost] at this
  cases this

/-! ### Waiting for the end -/

/-- A segment that its run makes at an index. -/
structure MadeAt (list : List Token) (end_ : Text) (seg : Segment) (k : Nat) : Prop where
  le : k ≤ list.length
  ne : (before list end_ k).run.indices ≠ #[]
  segment : ∃ ending,
    seg = toSegment list.toArray (before list end_ k).partners (before list end_ k).run ending

theorem CutAt.madeAt {seg : Segment} (h : CutAt list end_ seg k) : MadeAt list end_ seg k :=
  ⟨h.le, h.ne, _, h.segment⟩

namespace MadeAt

variable {seg : Segment} (h : MadeAt list end_ seg k)
include h

theorem indices_eq : seg.indices = (before list end_ k).run.indices.toList := by
  obtain ⟨ending, hseg⟩ := h.segment
  rw [hseg]
  rfl

theorem toHead_eq :
    seg.toHead =
      (classify list.toArray (before list end_ k).partners (before list end_ k).run).2 := by
  obtain ⟨ending, hseg⟩ := h.segment
  rw [hseg]
  rfl

/-- Only trivia stands between the last token of the segment and where it is made. -/
theorem quiet : seg.last < k ∧ Quiet list.toArray seg.last k := by
  have hsound := (@before_invariant list end_ k h.le).sound
  obtain ⟨l, hl⟩ : ∃ l, (before list end_ k).run.indices.toList.getLast? = some l := by
    rw [← Option.ne_none_iff_exists']
    simpa using h.ne
  have hlast : seg.last = l := by
    obtain ⟨ending, hseg⟩ := h.segment
    rw [hseg]
    exact toSegment_last hl
  rw [hlast]
  exact ⟨hsound.run.lt l (List.mem_of_getLast? hl), hsound.quiet l hl⟩

/-- Behind the last token of the segment its run waits for the end. -/
theorem waiting {j : Nat} (hj : seg.last < j) (hjk : j ≤ k) :
    (before list end_ j).run.indices ≠ #[] ∧
      ∀ ending, ((before list end_ k).close list.toArray ending).bare =
        ((before list end_ j).close list.toArray ending).bare := by
  obtain ⟨d, hd⟩ := Nat.exists_eq_add_of_le hjk
  induction d generalizing j with
  | zero =>
    obtain rfl : k = j := hd
    exact ⟨h.ne, fun _ => rfl⟩
  | succ d ih =>
    obtain ⟨hne, hbare⟩ := @ih (j + 1) (by omega) (by omega) (by omega)
    have hlt := h.le
    have ht := List.getElem?_eq_getElem (show j < list.length by omega)
    have htrivia : list[j].isTrivia := by
      rw [← tokenIs_of_getElem? (p := fun t => t.isTrivia) (List.getElem?_toArray.trans ht)]
      exact h.quiet.2 j hj (by omega)
    rw [before_succ ht] at hne hbare
    refine ⟨fun hempty => hne ?_, fun ending =>
      (hbare ending).trans (bare_close_step htrivia hne ending)⟩
    have hsame := congrArg (fun s => s.run.indices)
      (@bare_step_of_empty end_ _ list.toArray _ j (nextAfter list) htrivia hempty)
    exact hsame.trans hempty

end MadeAt

end Scan
end HouseStyle.Outline
