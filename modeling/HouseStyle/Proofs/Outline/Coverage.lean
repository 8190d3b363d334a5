import HouseStyle.Proofs.Outline.Born
import HouseStyle.Proofs.Outline.Forest
import HouseStyle.Proofs.Outline.Groups
import HouseStyle.Token.Lexer

/-! Which code no segment has. The braces of blocks and the terminators of statements are left out on
purpose. At the end of the text only the innermost run becomes a segment, and a run that waits for
the end of a closure is lost if the closure never ends. -/

namespace HouseStyle.Outline

namespace Scan

variable {tokens : Array Token} {end_ : Text} {s s' : Scan} {i k : Nat} {t : Token}

/-- Why a token that carries code may be held nowhere. -/
inductive Spares (tokens : Array Token) (end_ : Text) (s : Scan) (k : Nat) : Prop
  | opensBlock (hmark : tokenIs tokens (·.isMark '{') k) (hblock : k ∉ s.closures)
  | endsBlock (hmark : tokenIs tokens (·.isMark '}') k) (b : Nat)
    (hpair : partnerIn s.partners k = some b) (hblock : b ∉ s.closures)
  | terminator (hmark : tokenIs tokens (·.isPunct end_) k)
    (houtside : OutsideGroups tokens s.partners k)
    (hends : (∃ seg ∈ s.segments, seg.boundary = some k ∧ seg.terminated) ∨
      ∀ seg ∈ s.segments, seg.boundary ≠ some k)

/-- All code before an index is held or spared, and segments end before the index. -/
structure Covers (tokens : Array Token) (end_ : Text) (s : Scan) (i : Nat) : Prop where
  covers : ∀ k < i, Loud tokens k → k ∈ s.held ∨ s.Spares tokens end_ k
  boundary : ∀ seg ∈ s.segments, ∀ b, seg.boundary = some b → b < i

theorem Step.segments (h : Step tokens end_ s i t s') :
    s'.segments = s.segments ∨
      ∃ seg, s'.segments = seg :: s.segments ∧ seg.boundary = some i := by
  have hclose (run : Run) {ending : Ending} (hboundary : ending.boundary = some i) :
      (Scan.close tokens { s with run } ending).segments = s.segments ∨
        ∃ seg, (Scan.close tokens { s with run } ending).segments = seg :: s.segments ∧
          seg.boundary = some i := by
    rw [close_segments]
    split
    · exact .inl rfl
    · exact .inr ⟨_, rfl, hboundary⟩
  cases h with
  | pass | take | openGroup | openClosure | closeGroup => exact .inl rfl
  | newline run | terminator run | openBlock run => exact hclose run rfl
  | label => exact hclose (s.run.push i) rfl
  | closeBlock | closeClosure => exact hclose s.run rfl

theorem Spares.step (h : s.Spares tokens end_ k) (hk : k < i) (hn : s.Nested tokens i)
    (ht : tokens[i]? = some t) {nesting : Array Nat}
    (hstep : Step tokens end_ { s with nesting } i t s') : s'.Spares tokens end_ k := by
  have hgrows := hn.grows ht hstep
  have hblock {b : Nat} (hb : b < i) (hold : b ∉ s.closures) : b ∉ s'.closures := by
    rcases hgrows.closures with heq | heq
    · rwa [heq]
    · rw [heq, List.mem_cons, not_or]
      exact ⟨hb.ne, hold⟩
  cases h with
  | opensBlock hmark hold => exact .opensBlock hmark (hblock hk hold)
  | endsBlock hmark b hpair hold =>
    exact .endsBlock hmark b (hgrows.kept k b hpair) (hblock (hn.lt (hn.symm k b hpair)) hold)
  | terminator hmark houtside hends =>
    refine .terminator hmark (hgrows.outsideGroups hk.le houtside) ?_
    rcases hstep.segments with hsame | ⟨seg, hsegments, hboundary⟩
    · rwa [hsame]
    · rw [hsegments]
      refine hends.imp (fun ⟨seg', hmem, hseg'⟩ => ⟨seg', List.mem_cons_of_mem seg hmem, hseg'⟩) ?_
      intro hnone seg' hmem
      rcases List.mem_cons.mp hmem with rfl | hmem
      · rw [hboundary]
        exact fun heq => hk.ne' (Option.some.inj heq)
      · exact hnone seg' hmem

/-- A token that a step skips is spared, unless it is trivia. -/
theorem Skips.spares {nesting : Array Nat} (h : Skips end_ { s with nesting } i t s')
    (hi : s.Invariant tokens end_ i) (hg : s.Grouped) (hc : s.Covers tokens end_ i)
    (ht : tokens[i]? = some t) (hloud : t.isTrivia = false)
    (hstep : Step tokens end_ { s with nesting } i t s') : s'.Spares tokens end_ i := by
  have hgrows := hi.nested.grows ht hstep
  have his {p : Token → Bool} (hp : p t) : tokenIs tokens p i := by
    rwa [tokenIs_of_getElem? ht]
  cases h with
  | trivia htrivia =>
    rw [hloud] at htrivia
    cases htrivia
  | terminator hmark hgroup hends =>
    have houtside := hi.nested.outsideGroups (hg.depth.symm.trans hgroup)
    refine .terminator (his hmark) (hgrows.outsideGroups (Nat.le_refl i) houtside) ?_
    rcases hends with hsame | hends
    · right
      intro seg hseg hboundary
      replace hsame : s'.segments = s.segments := hsame
      rw [hsame] at hseg
      exact (hc.boundary seg hseg i hboundary).false
    · exact .inl hends
  | opensBlock hmark hclosures =>
    refine .opensBlock (his hmark) fun hmem => ?_
    replace hclosures : s'.closures = s.closures := hclosures
    rw [hclosures] at hmem
    exact (hi.housed.closures i hmem).1.false
  | endsBlock hmark b hframe hpartners =>
    replace hframe : .block b ∈ s.stack := hframe
    have hlt : b < i := hi.nested.index_lt _ hframe
    have hsize := (Array.getElem?_eq_some_iff.mp ht).1
    refine .endsBlock (his hmark) b ?_ fun hmem => ?_
    · rw [hpartners, partnerIn_pair_eq _ (by simp only [hi.nested.room]; omega)
        (by simp only [hi.nested.room]; exact hsize), if_pos rfl]
    · obtain ⟨below, hblock⟩ := hi.housed.frames.exists_below hframe
      rcases hgrows.closures with heq | heq
      · exact hblock (heq ▸ hmem)
      · rw [heq] at hmem
        exact hblock ((List.mem_cons.mp hmem).resolve_left hlt.ne)

theorem Covers.step (h : s.Covers tokens end_ i) (hi : s.Invariant tokens end_ i) (hg : s.Grouped)
    (ht : tokens[i]? = some t) {nesting : Array Nat}
    (hstep : Step tokens end_ { s with nesting } i t s') : s'.Covers tokens end_ (i + 1) := by
  constructor
  · intro k hk hloud
    have hheld : k ∈ s.held → k ∈ s'.held := by
      intro hk
      rcases hstep.held with hperm | ⟨hperm, -⟩
      · exact hperm.mem_iff.mpr (List.mem_cons_of_mem i hk)
      · exact hperm.mem_iff.mpr hk
    rcases Nat.lt_succ_iff_lt_or_eq.mp hk with hk | rfl
    · rcases h.covers k hk hloud with hmem | hspares
      · exact .inl (hheld hmem)
      · exact .inr (hspares.step hk hi.nested ht hstep)
    · obtain ⟨t', ht', hloud⟩ := hloud
      obtain rfl := Option.some.inj (ht.symm.trans ht')
      rcases hstep.held with hperm | ⟨-, hskips⟩
      · exact .inl (hperm.mem_iff.mpr List.mem_cons_self)
      · exact .inr (hskips.spares hi hg h ht hloud hstep)
  · intro seg hseg b hb
    rcases hstep.segments with hsame | ⟨last, hsegments, hboundary⟩
    · replace hsame : s'.segments = s.segments := hsame
      rw [hsame] at hseg
      exact Nat.lt_succ_of_lt (h.boundary seg hseg b hb)
    · replace hsegments : s'.segments = last :: s.segments := hsegments
      rw [hsegments] at hseg
      rcases List.mem_cons.mp hseg with rfl | hseg
      · obtain rfl := Option.some.inj (hboundary.symm.trans hb)
        exact Nat.lt_succ_self i
      · exact Nat.lt_succ_of_lt (h.boundary seg hseg b hb)

/-- What holds of the scan before an index, with the code that it has gone through. -/
structure Account (tokens : Array Token) (end_ : Text) (s : Scan) (i : Nat) : Prop where
  invariant : s.Invariant tokens end_ i
  grouped : s.Grouped
  covers : s.Covers tokens end_ i

theorem scanned_account (list : List Token) (end_ : Text) :
    (scanned list end_).Account list.toArray end_ list.length := by
  refine scanned_induction list end_ ⟨⟨.start, .start, .start⟩, ⟨rfl, trivial⟩, ⟨?_, by simp⟩⟩ ?_
  · intro k hk
    omega
  · exact fun s i t following h ht =>
      ⟨h.invariant.step ht following, h.grouped.step (step_spec s following),
        h.covers.step h.invariant h.grouped ht (step_spec s following)⟩

end Scan

/-! ### The code of an outline -/

/-- Whether a segment is being built at an index: it has begun and is not over, and the index is
inside none of its closures. -/
def Builds (o : Outline) (seg : Segment) (k : Nat) : Prop :=
  seg.first < k ∧ (∀ b, seg.boundary = some b → k ≤ b) ∧
    ∀ c ∈ seg.indices, c ∈ o.closures → ∀ p, o.partner? c = some p → ¬(c < k ∧ k < p)

/-- Why a token that carries code may be in no segment. -/
inductive Omits (o : Outline) (end_ : Text) (k : Nat) : Prop
  | opensBlock (hmark : o.at_ k (·.isMark '{')) (hblock : k ∉ o.closures)
  | endsBlock (hmark : o.at_ k (·.isMark '}')) (b : Nat) (hpair : o.partner? k = some b)
    (hblock : b ∉ o.closures)
  /-- The terminator ends a segment, or stands where none is being built. -/
  | terminator (hmark : o.at_ k (·.isPunct end_)) (houtside : OutsideGroups o.tokens o.partners k)
    (hends : (∃ seg ∈ o.segments, seg.boundary = some k ∧ seg.terminated) ∨
      ∀ seg ∈ o.segments, ¬o.Builds seg k)

/-- Whether a token is in a run that ends at the brace of a closure, where the closure never ends. No
token of the run is in a segment. -/
structure Strands (o : Outline) (k c : Nat) : Prop where
  isClosure : c ∈ o.closures
  isOpen : o.partner? c = none
  run : ∃ run : List Nat, k ∈ run ∧ run.getLast? = some c ∧
    run.IsChain (Linked o.tokens o.partners o.closures) ∧
    ∀ m ∈ run, ∀ seg ∈ o.segments, m ∉ seg.indices

/-- All code of an outline is in segments but what is omitted and what is stranded, and the brace of
a closure that never ends is in none. -/
structure Coverage (o : Outline) (end_ : Text) : Prop where
  covered : ∀ k, Loud o.tokens k →
    (∃ seg ∈ o.segments, k ∈ seg.indices) ∨ o.Omits end_ k ∨ ∃ c, o.Strands k c
  lost : ∀ c ∈ o.closures, o.partner? c = none → ∀ seg ∈ o.segments, c ∉ seg.indices

section

variable {list : List Token} {end_ : Text} {k c : Nat}

/-- A segment that is being built at code outside all segments ends there. -/
theorem boundary_of_builds {seg : Segment} (hseg : seg ∈ (Outline.ofTokens list end_).segments)
    (hloud : Loud list.toArray k)
    (hnone : ∀ seg ∈ (Outline.ofTokens list end_).segments, k ∉ seg.indices)
    (hbuilds : (Outline.ofTokens list end_).Builds seg k) : seg.boundary = some k := by
  have hsound := (ofTokens_sound list end_).segments seg hseg
  obtain ⟨hfirst, hboundary, houtside⟩ := hbuilds
  have hnot : k ∉ seg.indices := hnone seg hseg
  have hlast : seg.last ≤ k := by
    by_contra hlast
    have hhoused := ofTokens_housed list end_ seg hseg
    obtain ⟨c, p, hadj, hclosure, hpair, hck, hkp⟩ :=
      hhoused.exists_closure hsound hloud hnot hfirst (by omega)
    exact houtside c (mem_of_adjacent hadj).1 hclosure p hpair ⟨hck, hkp⟩
  have hlast : seg.last < k := hlast.lt_of_ne fun heq => hnot (heq ▸ hsound.last_mem)
  cases hsound.ends with
  | text hnone hquiet =>
    have hend := hquiet.le_of_loud hloud hlast
    obtain ⟨t, ht, -⟩ := hloud
    exact absurd (Array.getElem?_eq_some_iff.mp ht).1 hend.not_gt
  | label hlabel heq =>
    have := hboundary _ heq
    omega
  | token b heq hlt hquiet =>
    have := hboundary b heq
    have := hquiet.le_of_loud hloud hlast
    rw [heq, show b = k by omega]

theorem mem_segments_of_scanned {seg : Segment} (hseg : seg ∈ (Scan.scanned list end_).segments) :
    seg ∈ (Outline.ofTokens list end_).segments := by
  refine (ofTokens_segments_perm list end_).mem_iff.mpr ?_
  rw [Scan.close_segments]
  split
  · exact hseg
  · exact List.mem_cons_of_mem _ hseg

/-- The segment that the end of the text makes has no boundary. -/
theorem scanned_of_mem_segments {seg : Segment} (hseg : seg ∈ (Outline.ofTokens list end_).segments) :
    seg ∈ (Scan.scanned list end_).segments ∨ seg.boundary = none := by
  replace hseg := (ofTokens_segments_perm list end_).mem_iff.mp hseg
  rw [Scan.close_segments] at hseg
  split at hseg
  · exact .inl hseg
  · rcases List.mem_cons.mp hseg with rfl | hseg
    · exact .inr rfl
    · exact .inl hseg

/-- What is held behind the last token is in a segment or waits for the end of a closure. -/
theorem segment_or_waiting (hk : k ∈ (Scan.scanned list end_).held) :
    (∃ seg ∈ (Outline.ofTokens list end_).segments, k ∈ seg.indices) ∨
      ∃ frame ∈ (Scan.scanned list end_).stack, k ∈ frame.held := by
  have hclose := @Scan.held_close list.toArray (Scan.scanned list end_) { boundary := none }
  rw [← hclose.mem_iff, Scan.held, Scan.close_run_indices, Scan.close_stack] at hk
  simp only [List.mem_append, List.mem_flatMap, List.not_mem_nil, false_or] at hk
  rcases hk with ⟨seg, hseg, hk⟩ | hk
  · exact .inl ⟨seg, (ofTokens_segments_perm list end_).mem_iff.mpr hseg, hk⟩
  · exact .inr hk

/-- What waits for the end of a closure is in no segment. -/
theorem not_mem_of_waiting {frame : Frame} (hframe : frame ∈ (Scan.scanned list end_).stack)
    (hk : k ∈ frame.held) : ∀ seg ∈ (Outline.ofTokens list end_).segments, k ∉ seg.indices := by
  intro seg hseg hmem
  have hclose := @Scan.held_close list.toArray (Scan.scanned list end_) { boundary := none }
  have hnodup := hclose.nodup_iff.mpr (Scan.scanned_holding list end_).nodup
  rw [Scan.held, Scan.close_stack] at hnodup
  refine (List.nodup_append.mp hnodup).2.2 k ?_ k ?_ rfl
  · exact List.mem_flatMap.mpr ⟨seg, (ofTokens_segments_perm list end_).mem_iff.mp hseg, hmem⟩
  · exact List.mem_append_right _ (List.mem_flatMap.mpr ⟨frame, hframe, hk⟩)

end

/-- The code of any token list is covered. -/
theorem ofTokens_coverage (list : List Token) (end_ : Text) :
    (Outline.ofTokens list end_).Coverage end_ := by
  have hscanned := Scan.scanned_account list end_
  have hclosures {c : Nat} : c ∈ (Outline.ofTokens list end_).closures ↔
      c ∈ (Scan.scanned list end_).closures := mem_ofTokens_closures
  have hstack {frame : Frame} (hframe : frame ∈ (Scan.scanned list end_).stack) :
      (Outline.ofTokens list end_).partner? frame.index = none := by
    rw [ofTokens_partner?]
    exact (hscanned.invariant.nested.waits frame hframe).2.1
  constructor
  · intro k hloud
    replace hloud : Loud list.toArray k := hloud
    by_cases hmem : ∃ seg ∈ (Outline.ofTokens list end_).segments, k ∈ seg.indices
    · exact .inl hmem
    right
    have hnone : ∀ seg ∈ (Outline.ofTokens list end_).segments, k ∉ seg.indices :=
      fun seg hseg hk => hmem ⟨seg, hseg, hk⟩
    have hlt : k < list.length := by
      obtain ⟨t, ht, -⟩ := hloud
      simpa using (Array.getElem?_eq_some_iff.mp ht).1
    rcases hscanned.covers.covers k hlt hloud with hheld | hspares
    · obtain ⟨frame, hframe, hk⟩ := (segment_or_waiting hheld).resolve_left hmem
      cases frame with
      | group | block => cases hk
      | closure c resume depth =>
        obtain ⟨below, hclosure, hresume⟩ := hscanned.invariant.housed.frames.exists_below hframe
        refine .inr ⟨c, hclosures.mpr hclosure, hstack hframe, resume.indices.toList, hk,
          (hscanned.invariant.sound.stack _ hframe).2.2.2, ?_, fun m hm => not_mem_of_waiting hframe hm⟩
        rw [ofTokens_partners]
        exact hresume.chain.imp fun _ _ => Linked.mono fun _ => hclosures.mpr
    · left
      cases hspares with
      | opensBlock hmark hblock => exact .opensBlock hmark (hclosures.not.mpr hblock)
      | endsBlock hmark b hpair hblock =>
        refine .endsBlock hmark b ?_ (hclosures.not.mpr hblock)
        rwa [ofTokens_partner?]
      | terminator hmark houtside hends =>
        refine .terminator hmark ?_ ?_
        · rwa [ofTokens_partners]
        · refine hends.imp (fun ⟨seg, hseg, hends⟩ => ⟨seg, mem_segments_of_scanned hseg, hends⟩) ?_
          intro hends seg hseg hbuilds
          have hboundary := boundary_of_builds hseg hloud hnone hbuilds
          rcases scanned_of_mem_segments hseg with hseg | htext
          · exact hends seg hseg hboundary
          · rw [htext] at hboundary
            cases hboundary
  · intro c hc hfree seg hseg
    obtain ⟨-, ⟨resume, depth, hframe⟩ | ⟨p, hp⟩⟩ :=
      hscanned.invariant.housed.closures c (hclosures.mp hc)
    · have hlast := (hscanned.invariant.sound.stack _ hframe).2.2.2
      exact not_mem_of_waiting hframe (List.mem_of_getLast? hlast) seg hseg
    · rw [ofTokens_partner?, hp] at hfree
      cases hfree

example : (Outline.ofTokens (tokenize "f \x7b x") ";").segments.map (·.indices) = [[4]] := by
  decide +kernel

/-! ### Depth in groups

The number that the scan keeps is that of the groups on its stack above the innermost brace, and the
number kept for a closure is that of the groups around the closure, whichever brackets have no partner.
So a closing bracket never closes more groups than are counted, and nothing but a closing brace ends a
segment while a group is open. -/

namespace Scan

variable {tokens : Array Token} {list : List Token} {end_ : Text} {s s' : Scan} {i k : Nat} {t : Token}

theorem Nested.group_mark (h : s.Nested tokens i) {mark : Char} {c : Nat}
    (hframe : .group mark c ∈ s.stack) : mark = '(' ∨ mark = '[' := by
  obtain ⟨-, -, -, closer, hcloser⟩ := h.waits _ hframe
  simp only [Frame.closer?] at hcloser
  split_ifs at hcloser with hround hsquare
  · exact .inl hround
  · exact .inr hsquare

/-- A closing bracket closes groups that are counted. -/
theorem Grouped.opener_le (h : s.Grouped) {mark : Char} {above opening : Nat} {below : List Frame}
    (hopener : groupOpener? mark s.stack = some (above, opening, below)) :
    above + 1 + openGroups below = s.groupDepth := by
  obtain ⟨frames, hstack, hlength, hframes⟩ := groupOpener?_eq_some hopener
  rw [h.depth, hstack, openGroups_append fun f hf => (hframes f hf).1, openGroups_cons_group, hlength]
  omega

/-- A token that ends a segment is a closing brace or stands outside all groups. -/
theorem Step.ends (h : Step tokens end_ s i t s') :
    s'.segments = s.segments ∨ t.isMark '}' ∨ s.groupDepth = 0 := by
  cases h with
  | pass | take | openGroup | openClosure | closeGroup => exact .inl rfl
  | newline run hrun ht hgroup => exact .inr (.inr hgroup)
  | terminator run hrun ht hmark hgroup => exact .inr (.inr hgroup)
  | label ht hgroup => exact .inr (.inr hgroup)
  | openBlock run headers hrun ht hgroup => exact .inr (.inr hgroup)
  | closeBlock above k below hstack habove ht => exact .inr (.inl ht)
  | closeClosure above k resume depth below hstack habove ht => exact .inr (.inl ht)

theorem before_ends (ht : list[k]? = some t)
    (hends : (before list end_ (k + 1)).segments ≠ (before list end_ k).segments) :
    t.isMark '}' ∨ openGroups (before list end_ k).stack = 0 := by
  have hgrouped := @before_grouped list end_ k (List.getElem?_eq_some_iff.mp ht).1.le
  rw [before_succ ht] at hends
  have hstep := @step_spec list.toArray end_ k t (before list end_ k) (nextAfter list)
  rcases hstep.ends with hsame | hbrace | hgroup
  · exact absurd hsame hends
  · exact .inl hbrace
  · exact .inr (hgrouped.depth.symm.trans hgroup)

/-- A segment comes with the token that is its boundary. -/
theorem exists_ends {seg : Segment} (hk : k ≤ list.length) (hseg : seg ∈ (before list end_ k).segments) :
    ∃ b < k, seg.boundary = some b ∧
      (before list end_ (b + 1)).segments ≠ (before list end_ b).segments := by
  induction k with
  | zero => cases hseg
  | succ k ih =>
    have ht := List.getElem?_eq_getElem (show k < list.length from hk)
    have hstep := @step_spec list.toArray end_ k list[k] (before list end_ k) (nextAfter list)
    rw [← before_succ ht] at hstep
    have hold (hseg : seg ∈ (before list end_ k).segments) : ∃ b < k + 1, seg.boundary = some b ∧
        (before list end_ (b + 1)).segments ≠ (before list end_ b).segments := by
      obtain ⟨b, hb, hends⟩ := ih (Nat.le_of_succ_le hk) hseg
      exact ⟨b, Nat.lt_succ_of_lt hb, hends⟩
    rcases hstep.segments with hsame | ⟨last, hsegments, hboundary⟩
    · exact hold (hsame ▸ hseg)
    · replace hsegments : (before list end_ (k + 1)).segments =
          last :: (before list end_ k).segments := hsegments
      rw [hsegments] at hseg
      rcases List.mem_cons.mp hseg with rfl | hseg
      · exact ⟨k, Nat.lt_succ_self k, hboundary, by simp [hsegments]⟩
      · exact hold hseg

end Scan

open Scan

/-- Before every token the scan counts the groups that are open inside the innermost brace, each closure
has on record how many are open around it, and a closing bracket closes no more groups than are
counted. Unless a closing brace ends it, a segment ends where no group is open inside the innermost
brace, so newlines, terminators and the colons of labels end none elsewhere. -/
theorem groupDepth_exact (list : List Token) (end_ : Text) :
    (∀ k ≤ list.length,
      (before list end_ k).groupDepth = openGroups (before list end_ k).stack ∧
      (∀ mark c, .group mark c ∈ (before list end_ k).stack → mark = '(' ∨ mark = '[') ∧
      (∀ above c resume depth below,
        (before list end_ k).stack = above ++ .closure c resume depth :: below →
        depth = openGroups below) ∧
      ∀ mark above opening below,
        groupOpener? mark (before list end_ k).stack = some (above, opening, below) →
        above + 1 ≤ (before list end_ k).groupDepth) ∧
    (∀ k t, list[k]? = some t →
      (before list end_ (k + 1)).segments ≠ (before list end_ k).segments →
      t.isMark '}' ∨ openGroups (before list end_ k).stack = 0) ∧
    ∀ seg ∈ (Outline.ofTokens list end_).segments, ∀ k ∈ seg.boundary, ∃ t, list[k]? = some t ∧
      (t.isMark '}' ∨ openGroups (before list end_ k).stack = 0) := by
  refine ⟨fun k hk => ?_, fun k t => before_ends, fun seg hseg k hboundary => ?_⟩
  · have hgrouped := @before_grouped list end_ k hk
    refine ⟨hgrouped.depth, fun mark c => (before_invariant hk).nested.group_mark,
      fun above c resume depth below hstack => ?_, ?_⟩
    · have hframes := hgrouped.frames
      rw [hstack] at hframes
      exact hframes.of_append.1
    · intro mark above opening below hopener
      have := hgrouped.opener_le hopener
      omega
  · rcases scanned_of_mem_segments hseg with hseg | hnone
    · rw [← before_length] at hseg
      obtain ⟨b, hb, hends, hnew⟩ := exists_ends (Nat.le_refl _) hseg
      obtain rfl := Option.some.inj (hends.symm.trans hboundary)
      have ht := List.getElem?_eq_getElem hb
      exact ⟨_, ht, before_ends ht hnew⟩
    · rw [hnone] at hboundary
      cases hboundary

end HouseStyle.Outline
