import HouseStyle.Proofs.Outline.Levels
import HouseStyle.Proofs.Outline.Wrapped

/-! Parentheses around the tail of a header, in a text whose brackets are all paired. -/

namespace HouseStyle.Outline.Scan

variable {list list' : List Token} {end_ : Text} {seg : Segment} {known : List Nat}
  {a z k m x : Nat}

/-- The keyword stands on the line of the tail. -/
def SameLine (list : List Token) (known : List Nat) (a : Nat) : Prop :=
  ∀ i t p, known.getLast? = some p → p < i → i < a → list[i]? = some t → t.kind ≠ .newline

theorem filter_lt_prefix {l : List Nat} (h : l.Pairwise (· < ·)) (x : Nat) :
    l.filter (· < x) <+: l := by
  induction l with
  | nil => simp
  | cons y l ih =>
    obtain ⟨hy, hl⟩ := List.pairwise_cons.mp h
    by_cases hyx : y < x
    · rw [List.filter_cons_of_pos (by simpa using hyx)]
      exact (List.prefix_cons_inj y).mpr (ih hl)
    · rw [List.filter_eq_nil_iff.mpr]
      · exact List.nil_prefix
      · intro w hw
        rcases List.mem_cons.mp hw with rfl | hw
        · simpa using hyx
        · have := hy w hw
          simp
          omega

/-- Outside all groups a terminator that is no bracket is taken for one. -/
theorem step_terminator {tokens : Array Token} {s : Scan} {t : Token} {following : Nat → Option Nat}
    (hplain : isBracket t = false) (ht : t.isPunct end_) (hgroup : s.groupDepth = 0) :
    s.step tokens end_ following x t =
      Scan.terminator tokens x { s with nesting := s.nesting.push s.stack.length } := by
  have hnot : ∀ pair ∈ brackets, t.isMark pair.1 = false ∧ t.isMark pair.2 = false := by
    simpa [isBracket] using hplain
  simp only [brackets, List.forall_mem_cons, List.not_mem_nil, IsEmpty.forall_iff, implies_true,
    and_true] at hnot
  have hpunct : t.kind = .punctuation ∧ t.text = end_ := by
    simpa [Lexeme.isPunct] using ht
  simp [step, significant, hpunct, Lexeme.isTrivia, TokenKind.isTrivia, hnot, hgroup, ht]

namespace Tail

variable (h : Tail list end_ seg known a z k)
include h

theorem loud_before (hline : SameLine list known a) :
    ∀ i t, i < a → list[i]? = some t → t.kind = .newline →
      ∃ m, Loud list.toArray m ∧ i < m ∧ m < a := by
  intro i t hia ht hnewline
  obtain ⟨p, hp, -, hpa⟩ := h.exists_keyword
  have hloud := h.loud (h.known_subset (List.mem_of_getLast? hp))
  refine ⟨p, hloud, ?_, hpa⟩
  rcases Nat.lt_trichotomy i p with hlt | rfl | hgt
  · exact hlt
  · obtain ⟨u, hu, hcode⟩ := hloud
    obtain rfl := Option.some.inj (ht.symm.trans (List.getElem?_toArray.symm.trans hu))
    simp [Lexeme.isTrivia, TokenKind.isTrivia, hnewline] at hcode
  · exact absurd hnewline (hline i t p hp hgt hia ht)

theorem run_last (hstack : (before list end_ (z + 1)).stack = (before list end_ a).stack) :
    (before list end_ (z + 1)).run.indices.toList = seg.indices := by
  have hle := h.made.le
  have haz := h.first_le_last
  have hzk := h.lt_end.1
  rw [h.run_eq (by omega) (by omega), List.filter_eq_self]
  · intro x hx
    have hsorted := (@before_invariant list end_ k hle).sound.run.inOrder
    rw [← h.made.indices_eq] at hsorted
    obtain ⟨tail, hindices, -, hz⟩ := h.indices
    have hlast : seg.indices.getLast? = some z := by
      rw [hindices, List.getLast?_append, hz]
      rfl
    have := hsorted.le_getLast hx hlast
    simpa using Nat.lt_succ_of_le this
  · intro j resume depth hframe
    rw [hstack] at hframe
    exact (@before_invariant list end_ a (by omega)).nested.index_lt _ hframe

theorem headOf_last : headOf list.toArray (before list end_ (z + 1)) = seg.toHead := by
  have hlast := h.last_eq
  have hzk := h.lt_end.1
  obtain ⟨hne, hbare⟩ := h.made.waiting (show seg.last < z + 1 by omega) (by omega)
  obtain ⟨ending, hseg⟩ := h.made.segment
  have hsegments := congrArg Scan.segments (hbare ending)
  simp only [bare, close_segments, if_neg h.made.ne, if_neg hne, ← hseg] at hsegments
  have := (List.cons.inj hsegments).1
  exact (congrArg Segment.toHead this).symm

theorem group_last : (before list end_ (z + 1)).groupDepth = 0 := by
  obtain ⟨hzk, hquiet⟩ := h.lt_end
  have hle := h.made.le
  have hgroup := h.group
  rwa [(@before_grouped list end_ _ hle).depth, stack_before_of_quiet hquiet hzk hle,
    ← (@before_grouped list end_ (z + 1) (by omega)).depth] at hgroup

/-! ### On the level of the tail -/

section

variable (hpaired : (Outline.ofTokens list end_).AllPaired)
include hpaired

/-- On the level of its first token no more brackets are open in a tail than before it. -/
theorem stack_eq (hax : a ≤ x) (hxz : x ≤ z) (hplain : tokenIs list.toArray isBracket x = false)
    (hlevel : (Outline.ofTokens list end_).nestingAt x = (Outline.ofTokens list end_).nestingAt a) :
    (before list end_ x).stack = (before list end_ a).stack ∧
      (before list end_ (x + 1)).stack = (before list end_ a).stack := by
  have hle := h.made.le
  have hzk := h.lt_end.1
  have hlength := length_stretch h.first_le_last (show z < list.length by omega)
  obtain ⟨pairs, hdyck⟩ := h.exists_dyck hpaired
  obtain ⟨top, htop⟩ := @Dyck.exists_top _ end_ _ _ _ hdyck (stands_stretch list a z) (x - a) (by omega)
  rw [Nat.add_sub_cancel' hax] at htop
  have ht := List.getElem?_eq_getElem (show x < list.length by omega)
  rw [tokenIs_of_getElem? (List.getElem?_toArray.trans ht)] at hplain
  have hkept := @Dyck.step_other list.toArray end_ (nextAfter list) (before list end_ x) _ hplain x
  rw [← before_succ ht] at hkept
  rw [ofTokens_nestingAt_eq_min (by omega), ofTokens_nestingAt_eq_min (by omega), hkept, htop,
    List.length_append] at hlevel
  obtain rfl : top = [] := by
    rw [← List.length_eq_zero_iff]
    omega
  exact ⟨htop, hkept.trans htop⟩

/-- There no group is open either. -/
theorem group_eq (hm : m ≤ list.length) (hstack : (before list end_ m).stack = (before list end_ a).stack) :
    (before list end_ m).groupDepth = 0 := by
  have hle := h.made.le
  have hzk := h.lt_end.1
  have hlength := length_stretch h.first_le_last (show z < list.length by omega)
  obtain ⟨pairs, hdyck⟩ := h.exists_dyck hpaired
  have hkept := (@Dyck.nestingAt_shift list list end_ _ _ _ _ _ hdyck (stands_stretch list a z)
    (stands_stretch list a z) rfl).1.1
  rw [hlength] at hkept
  have := h.group_last
  rwa [(@before_grouped list end_ _ (by omega)).depth, hkept, ← hstack,
    ← (@before_grouped list end_ m hm).depth] at this

omit hpaired in
/-- and the run has the tokens so far. -/
theorem run_level (ham : a ≤ m) (hmz : m ≤ z + 1)
    (hstack : (before list end_ m).stack = (before list end_ a).stack) :
    (before list end_ m).run.indices.toList = seg.indices.filter (· < m) := by
  have hle := h.made.le
  have hzk := h.lt_end.1
  rcases ham.lt_or_eq with hlt | rfl
  · refine h.run_eq hlt (by omega) fun j resume depth hframe => ?_
    rw [hstack] at hframe
    exact (@before_invariant list end_ a (by omega)).nested.index_lt _ hframe
  · rw [h.run_entry, h.filter_known]

omit hpaired in
/-- The word of a control structure that leads the run there leads the header. -/
theorem toHead_level (ham : a ≤ m) (hmz : m ≤ z + 1)
    (hstack : (before list end_ m).stack = (before list end_ a).stack)
    (hkind : (headOf list.toArray (before list end_ m)).kind = .controlHeader) :
    headOf list.toArray (before list end_ m) = seg.toHead := by
  have hle := h.made.le
  have hzk := h.lt_end.1
  have hfound := head?_of_headOf (show m ≤ list.length by omega) rfl hkind
  rw [h.run_level ham hmz hstack] at hfound
  obtain ⟨rest, hrest⟩ := filter_lt_prefix h.pairwise m
  have hlonger := @Lasting.grow list.toArray _ (lasting_control list.toArray)
    (before list end_ m).partners (before list end_ k).partners _
    (headOf list.toArray (before list end_ m)) (fun c d hcd => by
      obtain ⟨hcd, hc, hd⟩ := (partner_before_iff (by omega)).mp hcd
      exact (partner_before_iff hle).mpr ⟨hcd, by omega, by omega⟩) (fun _ => hfound) hkind
  have hlater : head? list.toArray (before list end_ k).partners
      (seg.indices.filter (· < m) ++ rest) = some (headOf list.toArray (before list end_ m)) :=
    ((head?_append_iff hkind).mpr hlonger).1
  rw [hrest] at hlater
  have hlast := head?_of_headOf hle h.made.toHead_eq.symm h.kind
  rw [← h.made.indices_eq] at hlast
  exact Option.some.inj (hlater.symm.trans hlast)

/-- A terminator on the level of the tail keeps its place in the header of a loop only. -/
theorem keyword_eq_for (hx : x ∈ seg.indices) (hax : a ≤ x)
    (hplain : tokenIs list.toArray isBracket x = false)
    (hterminator : tokenIs list.toArray (·.isPunct end_) x)
    (hlevel : (Outline.ofTokens list end_).nestingAt x = (Outline.ofTokens list end_).nestingAt a) :
    seg.keyword = "for" := by
  have hle := h.made.le
  have hzk := h.lt_end.1
  have hxz : x ≤ z := by
    have hsorted := (@before_invariant list end_ k hle).sound.run.inOrder
    rw [← h.made.indices_eq] at hsorted
    refine hsorted.le_getLast hx ?_
    obtain ⟨tail, hindices, -, hz⟩ := h.indices
    rw [hindices, List.getLast?_append, hz]
    rfl
  obtain ⟨hstack, hstack'⟩ := h.stack_eq hpaired hax hxz hplain hlevel
  have ht := List.getElem?_eq_getElem (show x < list.length by omega)
  rw [tokenIs_of_getElem? (List.getElem?_toArray.trans ht)] at hplain hterminator
  have hrun := h.run_level (show a ≤ x + 1 by omega) (by omega) hstack'
  rw [before_succ ht, step_terminator hplain hterminator (h.group_eq hpaired (by omega) hstack)] at hrun
  have hhead : (headOf list.toArray (before list end_ x)).kind = .controlHeader ∧
      (headOf list.toArray (before list end_ x)).keyword = "for" := by
    by_contra hother
    rw [headOf] at hother
    simp only [Scan.terminator, hother, if_false, close_run_indices] at hrun
    have hmem : x ∈ seg.indices.filter (· < x + 1) := by simpa using hx
    rw [← hrun] at hmem
    simp at hmem
  rw [show seg.keyword = seg.toHead.keyword from rfl, ← h.toHead_level hax (by omega) hstack hhead.1]
  exact hhead.2

end

/-! ### The header with its parentheses -/

/-- With the tail in parentheses the scan has the header in its run behind them. -/
theorem wrapped (henc : Encloses list list' a z) (hpaired : (Outline.ofTokens list end_).AllPaired)
    (hline : SameLine list known a) :
    ∃ tail, seg.indices = known ++ tail ∧ tail ≠ [] ∧
      (before list end_ (z + 1)).Wrapped list.toArray list'.toArray (spread a z) [] [] seg.indices
        (known.map (spread a z) ++ a :: tail.map (spread a z) ++ [z + 2])
        (before list' end_ (z + 3)) ∧
      headOf list'.toArray (before list' end_ (z + 3)) = seg.toHead ∧
      (Outline.ofTokens list' end_).partner? a = some (z + 2) := by
  obtain ⟨pairs, hdyck⟩ := h.exists_dyck hpaired
  obtain ⟨tail, hwrapped, hhead, hpartner, hkeeps, hstack⟩ := wrapped_stretch henc (h.loud_before hline)
    (fun _ => id) (h.guard _ [] []) hdyck
  rw [h.run_entry] at hwrapped
  have hindices := hwrapped.indices.symm.trans (h.run_last hstack)
  refine ⟨tail, hindices.symm, ?_, hindices ▸ hwrapped, ?_, ?_⟩
  · rintro rfl
    have := h.mem_first
    rw [← hindices, List.append_nil] at this
    exact ((h.mem_known_iff h.mem_first).mp this).false
  · refine hwrapped.headOf_new henc h.kind h.headOf_last h.lead fun found hfound => ?_
    rw [hhead] at hfound
    exact (headOf_of_head (hkeeps found hfound)).symm.trans h.headOf_last
  · have hlt := henc.lt_length
    have hlength := henc.length
    exact ((partner_before_iff (by omega)).mp hpartner).1

end Tail

/-! ### A newline behind the parentheses -/

section

variable {tokens tokens' : Array Token} {s s' : Scan} {following following' : Option Nat} {i l : Nat}

/-- A newline ends a run unless it carries on. -/
theorem newline_eq_close (hcut : (continues tokens s following).2 = false) (hgroup : s.groupDepth = 0)
    (hne : s.run.indices ≠ #[]) (i : Nat) :
    s.newline tokens following i = s.close tokens { boundary := some i } := by
  rw [newline, if_pos ⟨hgroup, by simpa [Run.isEmpty] using hne⟩]
  simp only [hcut, Bool.false_eq_true, if_false]
  exact close_continues s following { boundary := some i }

theorem continues_of_newline (hcut : (s.newline tokens following i).run.indices = #[])
    (hgroup : s.groupDepth = 0) (hne : s.run.indices ≠ #[]) :
    (continues tokens s following).2 = false := by
  by_contra hcarries
  rw [newline, if_pos ⟨hgroup, by simpa [Run.isEmpty] using hne⟩] at hcut
  simp only [hcarries, if_true] at hcut
  rcases continues_run s following with hrun | hrun <;> rw [hrun] at hcut
  · exact hne hcut
  · rw [(classify_same s.partners s.run).indices] at hcut
    exact hne hcut

/-- What ends a control header ends it behind a parenthesis too. -/
theorem continues_paren (hcut : (continues tokens s following).2 = false)
    (hkind : (headOf tokens s).kind = .controlHeader) (hlast : s'.run.indices.back? = some l)
    (hmark : tokenIs tokens' (·.isMark ')') l)
    (hnext : (following'.bind (tokens'[·]?)).map (·.toLexeme) =
      (following.bind (tokens[·]?)).map (·.toLexeme)) :
    (continues tokens' s' following').2 = false := by
  obtain ⟨t, ht, hmark⟩ := tokenIs_iff.mp hmark
  have hparen : t.kind = .punctuation ∧ t.text = [.char ')'] := by
    simpa [Lexeme.isMark, Lexeme.isPunct] using hmark
  have htrailing : trailingContinuation.contains ([.char ')'] : Text) = false := by decide +kernel
  have hexpects (run : Run) : expectsBlock tokens run (classify tokens s.partners s.run).2 = true := by
    rw [headOf] at hkind
    simp [expectsBlock, hkind]
  simp only [continues, hlast, Option.map_some, Option.getD_some, tokenIs_of_getElem? ht, hparen,
    Lexeme.isKeyword, htrailing]
  simp only [continues, hexpects] at hcut
  cases hupcoming : following.bind (tokens[·]?) with
  | none =>
    rw [hupcoming, Option.map_none, Option.map_eq_none_iff] at hnext
    simp [hnext]
  | some u =>
    rw [hupcoming] at hnext hcut
    obtain ⟨u', hu', hlexeme⟩ := Option.map_eq_some_iff.mp hnext
    simp only [hu', hlexeme]
    split_ifs at hcut ⊢ <;> simp_all

end

/-! ### To the end of the text -/

/-- From where both scans stand alike behind the parentheses they do the same. -/
theorem mirrors_closed (henc : Encloses list list' a z) {base base' : List Segment} {j : Nat}
    (hj : z < j) (hle : j ≤ list.length)
    (hs : (before list end_ j).Mirrors list.toArray list'.toArray (spread a z) base base'
      (before list' end_ (j + 2))) :
    ((scanned list end_).close list.toArray { boundary := none }).Mirrors list.toArray list'.toArray
      (spread a z) base base' ((scanned list' end_).close list'.toArray { boundary := none }) := by
  have hend := mirrors_behind_parens henc hj hle (Nat.le_refl _) hs
  rw [← henc.length, before_length, before_length] at hend
  exact hend.close henc.renames { boundary := none }

end HouseStyle.Outline.Scan

namespace HouseStyle

open Outline

/-- A header with parentheses around its tail. -/
def Segment.enclosed (s : Segment) (a z : Nat) (known tail : List Nat) : Segment :=
  { s.rename (spread a z) with
    indices := known.map (spread a z) ++ a :: tail.map (spread a z) ++ [z + 2] }

namespace Outline

namespace Scan

variable {list list' : List Token} {end_ : Text} {seg : Segment} {known : List Nat} {a z k : Nat}

namespace Tail

variable (h : Tail list end_ seg known a z k) (henc : Encloses list list' a z)
  (hpaired : (Outline.ofTokens list end_).AllPaired) (hline : SameLine list known a)
include h henc hpaired hline

/-- A header opens its block as before. -/
theorem block_closed (hblock : BlockAt list end_ seg k) :
    ∃ tail rest, seg.indices = known ++ tail ∧
      ((scanned list end_).close list.toArray { boundary := none }).Mirrors list.toArray
        list'.toArray (spread a z) (seg :: rest)
        (seg.enclosed a z known tail :: rest.map (Segment.rename (spread a z)))
        ((scanned list' end_).close list'.toArray { boundary := none }) := by
  obtain ⟨hzk, hquiet⟩ := h.lt_end
  obtain ⟨t, ht, -⟩ := tokenIs_iff.mp hblock.mark
  have hlt := (List.getElem?_eq_some_iff.mp (List.getElem?_toArray.symm.trans ht)).1
  obtain ⟨tail, hindices, -, hwrapped, hhead', -⟩ := h.wrapped henc hpaired hline
  obtain ⟨hseg', -, hs⟩ := hwrapped.block henc hblock.mark hzk hquiet h.headOf_last hhead' h.kind
    h.group_last (List.ne_nil_of_mem h.mem_first) (by simp)
  have hseg : headerAt list end_ k = seg := hblock.segment.symm
  rw [hseg', hseg] at hs
  exact ⟨tail, _, hindices, mirrors_closed henc (by omega) hlt hs⟩

/-- Where the old scan cuts off a header the new one has cut it off or has it in its run. -/
theorem cut_before (hcut : CutAt list end_ seg k) :
    ∃ tail rest, seg.indices = known ++ tail ∧
      (∀ boundary, ∃ boundary',
        ((before list end_ k).close list.toArray (cutOff list k)).Mirrors list.toArray list'.toArray
          (spread a z) (seg :: rest)
          ({ seg.enclosed a z known tail with boundary := boundary' } ::
            rest.map (Segment.rename (spread a z)))
          ((before list' end_ (k + 2)).close list'.toArray { boundary })) ∧
      ((before list' end_ (k + 2)).run.indices = #[] ∨
        (before list' end_ (k + 2)).run.indices.back? = some (z + 2)) := by
  have hle := hcut.le
  have haz := henc.le
  have hlength := henc.length
  obtain ⟨hzk, hquiet⟩ := h.lt_end
  obtain ⟨tail, hindices, -, hwrapped, hhead', -⟩ := h.wrapped henc hpaired hline
  have hne' : (before list' end_ (z + 3)).run.indices ≠ #[] := by
    intro hempty
    have := hwrapped.indices'
    simp [hempty] at this
  obtain ⟨hne, hwaiting⟩ := h.made.waiting (show seg.last < z + 1 by rw [h.last_eq]; omega) (by omega)
  have hclosed := hwaiting (cutOff list k)
  have hsegments := congrArg Scan.segments hclosed
  simp only [bare, close_segments, if_neg h.made.ne, if_neg hne, ← hcut.segment] at hsegments
  obtain ⟨hseg, hrest⟩ := List.cons.inj hsegments
  -- However the new scan ends the run, it then stands as the old one does.
  have hsame (boundary : Option Nat) {s' : Scan}
      (hs' : s'.bare = ((before list' end_ (z + 3)).close list'.toArray { boundary }).bare) :
      ((before list end_ k).close list.toArray (cutOff list k)).Mirrors list.toArray list'.toArray
        (spread a z) (seg :: (before list end_ k).segments)
        ({ seg.enclosed a z known tail with boundary } ::
          (before list end_ k).segments.map (Segment.rename (spread a z))) s' := by
    obtain ⟨hseg', hs⟩ := hwrapped.close h.headOf_last hhead' (List.ne_nil_of_mem h.mem_first)
      (by simp) (cutOff list k).boundary boundary
    have hcutOff : ({ boundary := (cutOff list k).boundary } : Ending) = cutOff list k := rfl
    rw [hseg', hcutOff, ← hseg, ← hrest] at hs
    exact hs.congr hclosed hs'
  have htrivia : ∀ m, z + 3 ≤ m → m < k + 2 → tokenIs list'.toArray (·.isTrivia) m := by
    intro m hzm hmk
    have := henc.renames.tokenIs_map (·.isTrivia) (m - 2)
    rw [spread_of_gt (show z < m - 2 by omega) (by omega), show m - 2 + 2 = m by omega] at this
    rw [this]
    exact hquiet (m - 2) (by omega) (by omega)
  refine ⟨tail, (before list end_ k).segments, hindices, ?_⟩
  rcases @waits_or_cut list' end_ _ _ (show z + 3 ≤ k + 2 by omega) (by omega) htrivia hne' with
    ⟨hopen, hwaits⟩ | ⟨b, hempty, hbare⟩
  · refine ⟨fun boundary => ⟨boundary, hsame boundary (hwaits _)⟩, .inr ?_⟩
    have hsegments' := congrArg Scan.segments (hwaits { boundary := none })
    simp only [bare, close_segments, if_neg hopen, if_neg hne'] at hsegments'
    have hrun := congrArg Segment.indices (List.cons.inj hsegments').1
    simp only [toSegment, hwrapped.indices'] at hrun
    rw [← Array.getLast?_toList, hrun, List.getLast?_concat]
  · refine ⟨fun boundary => ⟨some b, hsame (some b) ?_⟩, .inl hempty⟩
    rw [close_of_empty hempty, hbare]

/-- A header that is cut off stays so, by the same token or by a line break before it. -/
theorem cut_closed (hcut : CutAt list end_ seg k) :
    ∃ tail rest boundary, seg.indices = known ++ tail ∧
      ((scanned list end_).close list.toArray { boundary := none }).Mirrors list.toArray
        list'.toArray (spread a z) (seg :: rest)
        ({ seg.enclosed a z known tail with boundary } :: rest.map (Segment.rename (spread a z)))
        ((scanned list' end_).close list'.toArray { boundary := none }) := by
  have hle := hcut.le
  have haz := henc.le
  have hzk := h.lt_end.1
  have hlength := henc.length
  have hplace : spread a z k = k + 2 := spread_of_gt hzk (by omega)
  obtain ⟨tail, rest, hindices, hsame, hrun⟩ := h.cut_before henc hpaired hline hcut
  cases ht : list[k]? with
  | none =>
    -- The text ends.
    have hend : k = list.length := hle.antisymm (List.getElem?_eq_none_iff.mp ht)
    obtain ⟨boundary, hs⟩ := hsame none
    refine ⟨tail, rest, boundary, hindices, ?_⟩
    rwa [cutOff, ht, hend, ← hlength, before_length, before_length] at hs
  | some t =>
    have hk := (List.getElem?_eq_some_iff.mp ht).1
    obtain ⟨t', ht', hlexeme⟩ := henc.renames.exists_token ht
    rw [hplace] at ht'
    obtain ⟨boundary, hs⟩ := hsame (some (k + 2))
    obtain ⟨hcuts, hnext⟩ := hcut.cuts t ht
    have hgroup' : (before list' end_ (k + 2)).groupDepth = 0 := by
      have := hs.groupDepth
      rw [close_groupDepth, close_groupDepth] at this
      exact this.trans h.group
    refine ⟨tail, rest, boundary, hindices, mirrors_closed henc (show z < k + 1 by omega) hk ?_⟩
    cases hcuts with
    | newline hnewline =>
      have htrivia : t.isTrivia := by simp [Lexeme.isTrivia, TokenKind.isTrivia, hnewline]
      have hempty := @close_run_indices list.toArray (before list end_ k) (cutOff list k)
      have hafter := @bare_step_of_empty end_ t list.toArray _ k (nextAfter list) htrivia hempty
      rw [← hnext] at hafter
      refine hs.congr hafter ?_
      rw [before_succ ht']
      rcases hrun with hrun | hrun
      · rw [close_of_empty hrun]
        exact bare_step_of_empty (by rwa [hlexeme]) hrun
      · have hne : (before list' end_ (k + 2)).run.indices ≠ #[] := by
          intro hempty
          simp [hempty] at hrun
        have hcutOld : (continues list.toArray (before list end_ k) (nextAfter list k)).2 = false := by
          have hrun := (congrArg (fun s : Scan => s.run.indices) hafter).trans hempty
          rw [before_succ ht, step_newline hnewline] at hrun
          exact continues_of_newline (s := { before list end_ k with
            nesting := (before list end_ k).nesting.push (before list end_ k).stack.length })
            hrun h.group hcut.ne
        have hcutNew :
            (continues list'.toArray (before list' end_ (k + 2)) (nextAfter list' (k + 2))).2 = false := by
          refine continues_paren hcutOld (by rw [headOf, ← h.made.toHead_eq]; exact h.kind) hrun ?_ ?_
          · obtain ⟨u, hu, hmark⟩ := henc.closer
            rwa [tokenIs_of_getElem? (List.getElem?_toArray.trans hu)]
          · rw [← hplace, henc.nextAfter_spread (henc.ne_of_newline ht hnewline) fun hka =>
              absurd hka (by omega)]
            cases nextAfter list k with
            | none => rfl
            | some j => exact henc.renames.lexeme j
        rw [step_newline (by rwa [hlexeme]), newline_eq_close (by exact hcutNew) (by exact hgroup')
          (by exact hne), close_with_nesting]
        rfl
    | brace hbrace hopen =>
      have hopen' : (braceOpener? (before list' end_ (k + 2)).stack).isSome := by
        have hstack := hs.stack
        rw [close_stack, close_stack] at hstack
        rw [hstack, braceOpener?_map, Option.isSome_map]
        exact hopen
      rw [before_succ ht', hnext, step_of_brace (by rwa [hlexeme]) hopen', ← hplace]
      rw [← hplace] at hs
      refine hs.step henc.renames (List.getElem?_toArray.trans ht) hlexeme (fun frame hframe => ?_)
        fun hnewline => henc.nextAfter_spread (henc.ne_of_newline ht hnewline) fun hka =>
          absurd hka (by omega)
      rw [close_stack] at hframe
      exact index_lt_size ht frame hframe

end Tail

end Scan

/-! ### The outline -/

/-- What parentheses around the tail of a header change in an outline: the header has them, and what
is in them stands one deeper. -/
structure Parenthesized (o o' : Outline) (seg seg' : Segment) (a z : Nat) : Prop where
  segments : o'.segments = o.segments.map (reformed (spread a z) seg seg')
  partners : ∀ j, o'.partner? (spread a z j) = (o.partner? j).map (spread a z)
  closures : o'.closures = o.closures.map (spread a z)
  parens : o'.partner? a = some (z + 2)
  level : o'.nestingAt a = o.nestingAt a
  levels : ∀ j, a ≤ j → j ≤ z → o'.nestingAt (j + 1) = o.nestingAt j + 1

section

variable {list list' : List Token} {end_ : Text} {seg : Segment} {known : List Nat} {a z k : Nat}

/-- A control header has a tail where it is made: at its block, where it is cut off or at its
terminator. -/
theorem exists_tail (hpaired : (Outline.ofTokens list end_).AllPaired)
    (hseg : seg ∈ (Outline.ofTokens list end_).segments) (hkind : seg.kind = .controlHeader)
    (hindices : ∃ tail, seg.indices = known ++ tail ∧ tail.head? = some a ∧ tail.getLast? = some z)
    (hlead : seg.lead < known.length)
    (hwords : ∀ x ∈ known.drop seg.lead, tokenIs list.toArray isBracket x = false) :
    ∃ k, Scan.Tail list end_ seg known a z k ∧
      (Scan.BlockAt list end_ seg k ∨
        seg.opensBlock = false ∧ (Scan.CutAt list end_ seg k ∨ seg.terminated)) := by
  by_cases hopens : seg.opensBlock
  · obtain ⟨k, hblock⟩ := Scan.exists_blockAt hseg hopens
    exact ⟨k, ⟨hblock.madeAt, hblock.group, hindices, hlead, hwords, hkind⟩, .inl hblock⟩
  have hclosed : seg.opensBlock = false := by simpa using hopens
  by_cases hterminated : seg.terminated
  · obtain ⟨k, hmade, hgroup⟩ := Scan.exists_madeAt_of_terminated hseg hterminated
    exact ⟨k, ⟨hmade, hgroup, hindices, hlead, hwords, hkind⟩, .inr ⟨hclosed, .inr hterminated⟩⟩
  have hlabel : ¬seg.label := fun h =>
    (((ofTokens_sound list end_).segments seg hseg).label h).1 hkind
  obtain ⟨k, hcut⟩ := Scan.exists_cutAt hseg (by simp [hopens, hterminated, hlabel])
  have hgroup := hcut.groupDepth_eq_zero fun m t ht => hpaired m t (List.getElem?_toArray.trans ht)
  exact ⟨k, ⟨hcut.madeAt, hgroup, hindices, hlead, hwords, hkind⟩, .inr ⟨hclosed, .inl hcut⟩⟩

/-- The same words stand in the parentheses. -/
theorem Encloses.map_stretch (henc : Encloses list list' a z) :
    (Scan.stretch list' (a + 1) (z + 1)).map (·.toLexeme) =
      (Scan.stretch list a z).map (·.toLexeme) := by
  refine List.ext_getElem? fun m => ?_
  rw [List.getElem?_map, List.getElem?_map, Scan.stretch, Scan.stretch, List.getElem?_take,
    List.getElem?_take, List.getElem?_drop, List.getElem?_drop,
    show z + 1 + 1 - (a + 1) = z + 1 - a by omega]
  split
  · next hm =>
    have := henc.renames.lexeme (a + m)
    rwa [List.getElem?_toArray, List.getElem?_toArray, spread_of_mem (by omega) (by omega),
      Nat.add_right_comm] at this
  · rfl

/-- What is in the parentheses stands one deeper, and they stand where it stood. -/
theorem Scan.Tail.levels (h : Scan.Tail list end_ seg known a z k) (henc : Encloses list list' a z)
    (hpaired : (Outline.ofTokens list end_).AllPaired) (hline : Scan.SameLine list known a)
    (hparens : (Outline.ofTokens list' end_).partner? a = some (z + 2)) :
    (Outline.ofTokens list' end_).nestingAt a = (Outline.ofTokens list end_).nestingAt a ∧
      ∀ j, a ≤ j → j ≤ z → (Outline.ofTokens list' end_).nestingAt (j + 1) =
        (Outline.ofTokens list end_).nestingAt j + 1 := by
  have hle := henc.le
  have hlt := henc.lt_length
  have hlength := Scan.length_stretch hle hlt
  have hlength' := henc.length
  obtain ⟨pairs, hdyck⟩ := h.exists_dyck hpaired
  have hstack := congrArg List.length
    (@Scan.mirrors_front _ _ end_ _ _ _ henc (h.loud_before hline) (Nat.le_refl a)).stack
  rw [List.length_map] at hstack
  obtain ⟨t, ht, hmark⟩ := henc.opener
  obtain ⟨frame, hframe, -⟩ := @Dyck.step_opener list'.toArray end_ (nextAfter list')
    (Scan.before list' end_ a) t ('(', ')') (by decide) hmark a
  rw [← Scan.before_succ ht] at hframe
  have hopened := congrArg List.length hframe
  rw [List.length_cons, hstack] at hopened
  have hlevels (j : Nat) (haj : a ≤ j) (hjz : j ≤ z) :
      (Outline.ofTokens list' end_).nestingAt (j + 1) =
        (Outline.ofTokens list end_).nestingAt j + 1 := by
    have := (@Dyck.nestingAt_shift list list' end_ _ _ _ _ _ hdyck (Scan.stands_stretch list a z)
      (Scan.stands_stretch list' (a + 1) (z + 1)) henc.map_stretch).2 (j - a) (by omega)
    rw [hopened, Nat.add_sub_cancel' haj, show a + 1 + (j - a) = j + 1 by omega] at this
    omega
  refine ⟨Nat.le_antisymm ?_ ?_, hlevels⟩
  · have := nestingAt_lt_of_between hparens (show a < a + 1 by omega) (by omega)
    have := hlevels a (Nat.le_refl a) hle
    omega
  · rw [Scan.ofTokens_nestingAt_eq_min (by omega), Scan.ofTokens_nestingAt_eq_min (by omega), hstack,
      hopened]
    omega

/-- Parentheses around the tail of a header, where the keyword stands on its line. -/
theorem Scan.Tail.parenthesized (h : Scan.Tail list end_ seg known a z k) (henc : Encloses list list' a z)
    (hpaired : (Outline.ofTokens list end_).AllPaired) (hline : Scan.SameLine list known a)
    (hends : Scan.BlockAt list end_ seg k ∨ seg.opensBlock = false ∧ Scan.CutAt list end_ seg k) :
    ∃ tail boundary, seg.indices = known ++ tail ∧
      (seg.opensBlock → boundary = seg.boundary.map (spread a z)) ∧
      (Outline.ofTokens list end_).Parenthesized (Outline.ofTokens list' end_) seg
        { seg.enclosed a z known tail with boundary } a z := by
  obtain ⟨tail, rest, boundary, hindices, hboundary, hs⟩ : ∃ tail rest boundary,
      seg.indices = known ++ tail ∧ (seg.opensBlock → boundary = seg.boundary.map (spread a z)) ∧
      ((Scan.scanned list end_).close list.toArray { boundary := none }).Mirrors list.toArray
        list'.toArray (spread a z) (seg :: rest)
        ({ seg.enclosed a z known tail with boundary } :: rest.map (Segment.rename (spread a z)))
        ((Scan.scanned list' end_).close list'.toArray { boundary := none }) := by
    rcases hends with hblock | ⟨hopens, hcut⟩
    · obtain ⟨tail, rest, hindices, hs⟩ := h.block_closed henc hpaired hline hblock
      exact ⟨tail, rest, _, hindices, fun _ => rfl, hs⟩
    · obtain ⟨tail, rest, boundary, hindices, hs⟩ := h.cut_closed henc hpaired hline hcut
      exact ⟨tail, rest, boundary, hindices, by simp [hopens], hs⟩
  obtain ⟨tail', -, -, -, -, hparens⟩ := h.wrapped henc hpaired hline
  obtain ⟨hlevel, hlevels⟩ := h.levels henc hpaired hline hparens
  obtain ⟨hsegments, hpartners, hclosures⟩ := ofTokens_reformed henc.renames.mono hs (by
    obtain ⟨p, hp, -, -⟩ := h.exists_keyword
    obtain ⟨x, known, rfl⟩ := List.exists_cons_of_ne_nil (List.ne_nil_of_mem (List.mem_of_getLast? hp))
    simp [Segment.first, Segment.enclosed, hindices])
  exact ⟨tail, boundary, hindices, hboundary,
    ⟨hsegments, hpartners, hclosures, hparens, hlevel, hlevels⟩⟩

end

end Outline

end HouseStyle
