import HouseStyle.Proofs.Outline.Bindings
import HouseStyle.Proofs.Outline.Tail

/-! Brackets within a segment. What closes in a segment opens in it, and what opens in front of its
leading word closes there too, so behind the word nothing stands less deep than the word. Two neighbours
that are no brackets stand as deep as each other. -/

namespace HouseStyle.Outline

/-- Closing brackets of a run have their partners in it. -/
def OpensWithin (partners : Array (Option Nat)) (indices : List Nat) : Prop :=
  ∀ x ∈ indices, ∀ y, partnerIn partners x = some y → y < x → y ∈ indices

variable {tokens : Array Token} {end_ : Text} {s s' : Scan} {i : Nat} {t : Token}
  {partners : Array (Option Nat)} {indices : List Nat}

namespace OpensWithin

theorem nil : OpensWithin partners [] := by simp [OpensWithin]

/-- Brackets that are paired later have partners behind the run. -/
theorem grows (h : OpensWithin s.partners indices) (hgrows : s.Grows i s')
    (hlt : ∀ x ∈ indices, x < i) : OpensWithin s'.partners indices := by
  intro x hx y hxy hyx
  have := hlt x hx
  rcases hgrows.added x y hxy with hold | rfl | rfl
  · exact h x hx y hold hyx
  · omega
  · omega

theorem push (h : OpensWithin partners indices)
    (hi : ∀ y, partnerIn partners i = some y → y < i → y ∈ indices) :
    OpensWithin partners (indices ++ [i]) := by
  intro x hx y hxy hyx
  refine List.mem_append_left _ ?_
  rcases List.mem_append.mp hx with hx | hx
  · exact h x hx y hxy hyx
  · obtain rfl := List.mem_singleton.mp hx
    exact hi y hxy hyx

end OpensWithin

namespace Scan

/-- What is collected opens what it closes. -/
structure OpensWithin (s : Scan) : Prop where
  run : Outline.OpensWithin s.partners s.run.indices.toList
  frames : ∀ frame ∈ s.stack, Outline.OpensWithin s.partners frame.held
  segments : ∀ seg ∈ s.segments, Outline.OpensWithin s.partners seg.indices

theorem OpensWithin.step (h : s.OpensWithin) (hn : s.Nested tokens i) (hs : s.Sound tokens end_ i)
    (hheld : s.Holding i) (hg : s.Gathered) (ht : tokens[i]? = some t) {nesting : Array Nat}
    (hstep : Step tokens end_ { s with nesting } i t s') : s'.OpensWithin := by
  have hgrows := hn.grows ht hstep
  have hi := (Array.getElem?_eq_some_iff.mp ht).1
  have hrun : Outline.OpensWithin s'.partners s.run.indices.toList :=
    h.run.grows hgrows fun x hx => hheld.lt x (by simp [held, hx])
  have hframes : ∀ frame ∈ s.stack, Outline.OpensWithin s'.partners frame.held := fun frame hf =>
    (h.frames frame hf).grows hgrows fun x hx => hheld.lt x (by
      simp only [held, List.mem_append, List.mem_flatMap]
      exact .inr (.inr ⟨frame, hf, hx⟩))
  have hsegments : ∀ seg ∈ s.segments, Outline.OpensWithin s'.partners seg.indices := fun seg hseg =>
    (h.segments seg hseg).grows hgrows fun x hx => hheld.lt x (by
      simp only [held, List.mem_append, List.mem_flatMap]
      exact .inl ⟨seg, hseg, hx⟩)
  -- A token that closes nothing has no partner in front of it.
  have hpush (hkept : s'.partners = s.partners) :
      Outline.OpensWithin s'.partners (s.run.indices.toList ++ [i]) := by
    refine hrun.push fun y hy => ?_
    rw [hkept, hn.fresh i (Nat.le_refl i)] at hy
    cases hy
  have hclosed {run : Run} {ending : Ending}
      (hindices : Outline.OpensWithin s'.partners run.indices.toList) :
      ∀ seg ∈ (Scan.close tokens { s with nesting, run } ending).segments,
        Outline.OpensWithin s'.partners seg.indices := by
    intro seg hseg
    rcases mem_segments_close hseg with hseg | rfl
    · exact hsegments seg hseg
    · exact hindices
  cases hstep with
  | pass run hsame => exact ⟨hsame.indices ▸ hrun, hframes, hsegments⟩
  | newline run hsame | terminator run hsame =>
    refine ⟨by simp [Outline.OpensWithin], by simpa using hframes, hclosed ?_⟩
    rwa [hsame.indices]
  | label =>
    refine ⟨by simp [Outline.OpensWithin], by simpa using hframes, hclosed ?_⟩
    rw [Run.push, Array.toList_push]
    exact hpush (by simp)
  | take run hsame =>
    refine ⟨?_, hframes, hsegments⟩
    rw [hsame.indices, Run.push, Array.toList_push]
    exact hpush rfl
  | openGroup =>
    refine ⟨?_, List.forall_mem_cons.mpr ⟨.nil, hframes⟩, hsegments⟩
    rw [openGroup, Run.push, Array.toList_push]
    exact hpush rfl
  | openBlock run headers hsame =>
    refine ⟨.nil, List.forall_mem_cons.mpr ⟨.nil, hframes⟩, hclosed ?_⟩
    rwa [hsame.indices]
  | openClosure run hsame =>
    refine ⟨.nil, List.forall_mem_cons.mpr ⟨?_, hframes⟩, hsegments⟩
    rw [Frame.held, hsame.indices, Run.push, Array.toList_push]
    exact hpush rfl
  | closeGroup above mark k below hstack habove =>
    replace hstack : s.stack = above ++ .group mark k :: below := hstack
    refine ⟨?_, fun frame hf => hframes frame (by simp [hstack, hf]), hsegments⟩
    rw [Run.push, Array.toList_push]
    refine hrun.push fun y hy _ => ?_
    have hgroup : .group mark k ∈ s.stack := by simp [hstack]
    have hpair := hn.pair_closer hi hgroup
    obtain rfl : k = y := Option.some.inj (hpair.symm.trans hy)
    refine hg.run (.group mark k) ?_
    rw [hstack, List.takeWhile_append_of_pos (by simpa using fun f hf => (habove f hf).1),
      List.takeWhile_cons_of_pos rfl]
    simp
  | closeBlock above k below hstack =>
    replace hstack : s.stack = above ++ .block k :: below := hstack
    exact ⟨.nil, fun frame hf => hframes frame (by simp [hstack, hf]), hclosed hrun⟩
  | closeClosure above k resume depth below hstack =>
    replace hstack : s.stack = above ++ .closure k resume depth :: below := hstack
    refine ⟨?_, fun frame hf => hframes frame (by simp [hstack, hf]), hclosed hrun⟩
    rw [Run.push, Array.toList_push]
    refine OpensWithin.push (hframes (.closure k resume depth) (by simp [hstack])) fun y hy _ => ?_
    have hclosure : .closure k resume depth ∈ s.stack := by simp [hstack]
    have hpair := hn.pair_closer hi hclosure
    rw [pair, close_partners] at hy
    obtain rfl : k = y := Option.some.inj (hpair.symm.trans hy)
    exact List.mem_of_getLast? (hs.stack (.closure k resume depth) hclosure).2.2.2

theorem before_opensWithin {list : List Token} {k : Nat} (hk : k ≤ list.length) :
    (before list end_ k).OpensWithin :=
  (before_induction (P := fun s i => (s.Invariant list.toArray end_ i ∧ s.Holding i) ∧
      (s.Grouped ∧ s.Gathered) ∧ s.OpensWithin) list end_
    ⟨⟨⟨.start, .start, .start⟩, List.nodup_nil, by simp [held]⟩, ⟨⟨rfl, trivial⟩, by simp [Run.Gathers], trivial⟩,
      .nil, by simp, by simp⟩
    (fun s i _ following h ht =>
      have hstep := step_spec s following
      ⟨⟨h.1.1.step ht following, h.1.2.step hstep⟩, ⟨h.2.1.1.step hstep, h.2.1.2.step h.2.1.1 hstep⟩,
        h.2.2.step h.1.1.nested h.1.1.sound h.1.2 h.2.1.2 ht hstep⟩) hk).2.2

end Scan

/-! ### Behind the leading word -/

/-- A bracket in front of the leading word is in a group that is over before the word. -/
theorem lasting_skips (tokens : Array Token) :
    Lasting tokens fun partners indices head => indices.Pairwise (· < ·) →
      ∃ l, indices[head.lead]? = some l ∧ ∀ x ∈ indices, x < l → tokenIs tokens isBracket x →
        ∃ c d, partnerIn partners c = some d ∧ c ≤ x ∧ x ≤ d ∧ d < l where
  found := by
    intro partners indices head hhead hsorted
    obtain ⟨l, rest, t, hfrom, -, rfl⟩ := head?_eq_some.mp hhead
    obtain ⟨us, hus⟩ := @fromHead_suffix tokens partners indices
    have hle : ∀ k ∈ fromHead tokens partners indices, l ≤ k := by
      intro k hk
      have hbehind := hus ▸ hsorted
      rw [hfrom] at hk hbehind
      replace hbehind := (List.pairwise_append.mp hbehind).2.1
      rcases List.mem_cons.mp hk with rfl | hk
      · exact Nat.le_refl _
      · exact (List.rel_of_pairwise_cons hbehind hk).le
    refine ⟨l, ?_, fun x hx hxl hbracket => ?_⟩
    · rw [hfrom] at hus
      simp [← hus]
    · obtain ⟨c, d, hcd, hcx, hxd, hbefore⟩ :=
        fromHead_skips hsorted hx hbracket fun hmem => hxl.not_ge (hle x hmem)
      exact ⟨c, d, hcd, hcx, hxd, hbefore l (by simp [hfrom])⟩
  push := by
    intro partners indices head i h hsorted
    obtain ⟨l, hl, hskips⟩ := h (List.pairwise_append.mp hsorted).1
    have hlt := (List.getElem?_eq_some_iff.mp hl).1
    refine ⟨l, by rwa [List.getElem?_append_left hlt], fun x hx hxl => hskips x ?_ hxl⟩
    refine (List.mem_append.mp hx).resolve_right fun hx => ?_
    have := (List.pairwise_append.mp hsorted).2.2 l (List.mem_of_getElem? hl) x hx
    omega
  grow := by
    intro partners partners' indices head hgrow h hsorted
    obtain ⟨l, hl, hskips⟩ := h hsorted
    refine ⟨l, hl, fun x hx hxl hbracket => ?_⟩
    obtain ⟨c, d, hcd, hc⟩ := hskips x hx hxl hbracket
    exact ⟨c, d, hgrow c d hcd, hc⟩

section

variable {list : List Token} {seg : Segment} (hseg : seg ∈ (Outline.ofTokens list end_).segments)
include hseg

theorem ofTokens_opensWithin {x y : Nat} (hx : x ∈ seg.indices)
    (hxy : (Outline.ofTokens list end_).partner? x = some y) (hyx : y < x) : y ∈ seg.indices := by
  have hwithin := @Scan.before_opensWithin end_ list list.length (Nat.le_refl _)
  rw [Scan.before_length] at hwithin
  rw [ofTokens_partner?] at hxy
  rcases Scan.mem_segments_close ((ofTokens_segments_perm list end_).mem_iff.mp hseg) with hmem | rfl
  · exact hwithin.segments seg hmem x hx y hxy hyx
  · exact hwithin.run x hx y hxy hyx

/-- What closes behind the leading word opens behind it. -/
theorem lead_lt_partner {l x y : Nat} (hhead : seg.toHead ≠ noHead)
    (hl : seg.indices[seg.lead]? = some l)
    (hplain : (Outline.ofTokens list end_).at_ l isBracket = false) (hx : x ∈ seg.indices)
    (hlx : l < x) (hxy : (Outline.ofTokens list end_).partner? x = some y) (hyx : y < x) : l < y := by
  have hyx' := partner_symm hxy
  have hbracket := isBracket_of_partner hyx'
  by_contra hle
  have hyl : y < l := by
    refine lt_of_le_of_ne (by omega) ?_
    rintro rfl
    rw [hplain] at hbracket
    cases hbracket
  obtain ⟨l', hl', hskips⟩ := (ofTokens_led (lasting_skips list.toArray) hseg).resolve_left hhead
    ((ofTokens_sound list end_).segments seg hseg).inOrder.pairwise
  obtain rfl := Option.some.inj (hl.symm.trans hl')
  obtain ⟨c, d, hcd, hcy, hyd, hdl⟩ :=
    hskips y (ofTokens_opensWithin hseg hx hxy hyx) hyl hbracket
  -- The pair would come out of the group that is over before the word.
  have := partner_within hcd hyx' hcy hyd
  omega

end

/-! ### Neighbours -/

namespace Scan

variable {list : List Token} {m p : Nat}

/-- A token with no partner in front of it leaves no fewer brackets open. -/
theorem stack_length_le_succ (hm : m < list.length)
    (hopen : ∀ y, (Outline.ofTokens list end_).partner? m = some y → m < y) :
    (before list end_ m).stack.length ≤ (before list end_ (m + 1)).stack.length := by
  have ht := List.getElem?_eq_getElem hm
  have hturn := @step_turn list.toArray end_ m list[m] (before list end_ m) (nextAfter list)
  have hinv := @before_invariant list end_ m hm.le
  have hpartner (y : Nat) (hy : partnerIn (before list end_ (m + 1)).partners m = some y) : m < y :=
    hopen y ((partner_before_iff (by omega)).mp hy).1
  rw [← before_succ ht] at hturn
  cases hturn with
  | keep _ _ hstack => exact (congrArg List.length hstack).ge
  | opened frame hindex hmark hcloser hstack =>
    replace hstack : (before list end_ (m + 1)).stack = frame :: (before list end_ m).stack := hstack
    rw [hstack, List.length_cons]
    exact Nat.le_succ _
  | closed above frame below hold habove hclosed hstack hpartners =>
    replace hold : (before list end_ m).stack = above ++ frame :: below := hold
    have hframe : frame ∈ (before list end_ m).stack := by simp [hold]
    have hpair := hinv.nested.pair_closer (by simpa using hm) hframe
    have := hpartner frame.index (hpartners ▸ hpair)
    have := (hinv.sound.stack frame hframe).index_lt
    omega

/-- Of two neighbours the second one stands no less deep, unless it closes a bracket. -/
theorem nestingAt_le_of_quiet (hquiet : Quiet list.toArray p m) (hpm : p < m) (hm : m < list.length)
    (hopen : ∀ y, (Outline.ofTokens list end_).partner? m = some y → m < y) :
    (Outline.ofTokens list end_).nestingAt p ≤ (Outline.ofTokens list end_).nestingAt m := by
  have hstack := @stack_before_of_quiet list end_ p m hquiet hpm hm.le
  have hle := stack_length_le_succ hm hopen
  rw [hstack] at hle
  rw [ofTokens_nestingAt_eq_min (hpm.trans hm), ofTokens_nestingAt_eq_min hm, hstack]
  omega

end Scan

/-! ### Depth behind the leading word -/

theorem lead_suffix {seg : Segment} {l : Nat} (hl : seg.indices[seg.lead]? = some l) :
    l :: seg.indices.drop (seg.lead + 1) <:+ seg.indices := by
  obtain ⟨hlt, rfl⟩ := List.getElem?_eq_some_iff.mp hl
  rw [← List.drop_eq_getElem_cons hlt]
  exact List.drop_suffix _ _

section

variable {list : List Token} {seg : Segment} {l : Nat}
  (hseg : seg ∈ (Outline.ofTokens list end_).segments) (hhead : seg.toHead ≠ noHead)
  (hl : seg.indices[seg.lead]? = some l)
  (hplain : (Outline.ofTokens list end_).at_ l isBracket = false)
include hseg hhead hl hplain

/-- Nothing behind the leading word stands less deep. -/
theorem nestingAt_lead_le {m : Nat} (hm : m ∈ l :: seg.indices.drop (seg.lead + 1)) :
    (Outline.ofTokens list end_).nestingAt l ≤ (Outline.ofTokens list end_).nestingAt m := by
  have hsound := (ofTokens_sound list end_).segments seg hseg
  have hsuffix := lead_suffix hl
  have hsorted := hsound.inOrder.pairwise.sublist hsuffix.sublist
  induction m using Nat.strong_induction_on with
  | _ m ih =>
  rcases List.mem_cons.mp hm with rfl | hm'
  · exact Nat.le_refl _
  have hlm := List.rel_of_pairwise_cons hsorted hm'
  have hmem := hsuffix.subset hm
  obtain ⟨t, ht, -⟩ := hsound.inOrder.loud m hmem
  have hlt : m < list.length := (Array.getElem?_eq_some_iff.mp ht).1
  by_cases hcloses : ∃ y < m, (Outline.ofTokens list end_).partner? m = some y
  · -- A closing bracket stands as deep as its partner, which is behind the word too.
    obtain ⟨y, hym, hmy⟩ := hcloses
    have hly := lead_lt_partner hseg hhead hl hplain hmem hlm hmy hym
    rw [nestingAt_partner hmy]
    refine ih y hym ?_
    have hy := ofTokens_opensWithin hseg hmem hmy hym
    obtain ⟨us, hus⟩ := hsuffix
    rw [← hus] at hy
    refine (List.mem_append.mp hy).resolve_left fun hy => ?_
    have := hsound.inOrder.pairwise
    rw [← hus] at this
    exact ((List.pairwise_append.mp this).2.2 y hy l List.mem_cons_self).asymm hly
  · have hopen (y : Nat) (hy : (Outline.ofTokens list end_).partner? m = some y) : m < y := by
      have := partner_ne hy
      by_contra hle
      exact hcloses ⟨y, by omega, hy⟩
    obtain ⟨p, hadj⟩ := exists_adjacent (a := l) hm'
    have hlinked := rel_of_adjacent ((ofTokens_housed list end_ seg hseg).chain.suffix hsuffix) hadj
    obtain ⟨hpm, hquiet | ⟨-, hclosure⟩⟩ := hlinked
    · exact (ih p hpm (mem_of_adjacent hadj).1).trans
        (Scan.nestingAt_le_of_quiet hquiet hpm hlt hopen)
    · exact absurd (hopen p (partner_symm hclosure)) hpm.asymm

/-- What stands right before a token on the level of the leading word, if that is no bracket, is on
its level too. -/
theorem exists_prev_on_level {j : Nat} (hj : j ∈ seg.indices.drop (seg.lead + 1))
    (hjplain : (Outline.ofTokens list end_).at_ j isBracket = false)
    (hlevel : (Outline.ofTokens list end_).nestingAt j = (Outline.ofTokens list end_).nestingAt l) :
    ∃ p, [p, j] <:+: l :: seg.indices.drop (seg.lead + 1) ∧
      (Outline.ofTokens list end_).next? p = some j ∧
      (Outline.ofTokens list end_).nestingAt p = (Outline.ofTokens list end_).nestingAt l := by
  have hsound := (ofTokens_sound list end_).segments seg hseg
  have hsuffix := lead_suffix hl
  obtain ⟨p, hadj⟩ := exists_adjacent (a := l) hj
  have hpartner (y : Nat) : (Outline.ofTokens list end_).partner? j ≠ some y := fun hy => by
    rw [isBracket_of_partner hy] at hjplain
    cases hjplain
  obtain ⟨hpj, hquiet | ⟨-, hclosure⟩⟩ :=
    rel_of_adjacent ((ofTokens_housed list end_ seg hseg).chain.suffix hsuffix) hadj
  · have hloud := hsound.inOrder.loud j (hsuffix.subset (List.mem_cons_of_mem l hj))
    refine ⟨p, hadj, nextAfter_eq_some.mpr ⟨hpj, hloud, hquiet⟩, Nat.le_antisymm ?_ ?_⟩
    · obtain ⟨t, ht, -⟩ := hloud
      rw [← hlevel]
      exact Scan.nestingAt_le_of_quiet hquiet hpj (Array.getElem?_eq_some_iff.mp ht).1
        fun y hy => absurd hy (hpartner y)
    · exact nestingAt_lead_le hseg hhead hl hplain (mem_of_adjacent hadj).1
  · exact absurd (partner_symm hclosure) (hpartner p)

end

end HouseStyle.Outline
