import HouseStyle.Proofs.Outline.Enclosed
import HouseStyle.Proofs.Outline.Tail

/-! A header with parentheses around the tokens behind its keyword. The scans meet where the group
opens and part again where it closes: from there on they do the same, and the headers that they make
differ by the parentheses. -/

namespace HouseStyle.Outline

variable {list list' : List Token} {tokens tokens' : Array Token} {end_ : Text} {a z b i j k : Nat}
  {t : Token} {s s' : Scan} {f : Nat → Nat} {base base' : List Segment} {head : Head}

namespace Scan

/-! ### The way in -/

section

variable (h : Encloses list list' a z)
  (hfront : ∀ k t, k < a → list[k]? = some t → t.kind = .newline →
    ∃ m, Loud list.toArray m ∧ k < m ∧ m < a)

/-- Where the group begins. -/
def entry (list : List Token) (end_ : Text) (a z : Nat) (allows : Option Head → Prop) : Entry where
  index := a
  known := (before list end_ a).run.indices.toList
  head := (before list end_ a).run.head
  allows
  under := (before list end_ a).stack
  under' := .group '(' a :: (before list end_ a).stack.map (Frame.rename (spread a z))

theorem openBraces_entry (list : List Token) (end_ : Text) (a z : Nat)
    (allows : Option Head → Prop) :
    openBraces (entry list end_ a z allows).under' =
      (openBraces (entry list end_ a z allows).under).map (spread a z) := by
  simp [entry, openBraces_map]

include h hfront

theorem wraps_entry {allows : Option Head → Prop} (hallows : allows (before list end_ a).run.head) :
    (before list end_ a).Wraps list.toArray list'.toArray (spread a z) [] []
        (entry list end_ a z allows) (before list' end_ (a + 1)) ∧
      (before list' end_ (a + 1)).stack = (entry list end_ a z allows).under' := by
  have hs := @mirrors_front _ _ end_ _ _ _ h hfront (Nat.le_refl a)
  obtain ⟨t, ht, hmark⟩ := h.opener
  have hbare := @bare_step_openGroup list'.toArray end_ (nextAfter list') a t '(' (.inl rfl) hmark
    (before list' end_ a)
  rw [← before_succ ht] at hbare
  have hstack : (before list' end_ (a + 1)).stack = (entry list end_ a z allows).under' := by
    rw [stack_congr hbare]
    simp [openGroup, entry, hs.stack]
  have hrun : (before list end_ a).run.Wraps (spread a z) (entry list end_ a z allows)
      ((before list' end_ a).run.push a) := by
    rw [hs.run]
    exact ⟨⟨[], by simp [entry], by simp [entry, Run.push, Run.rename]⟩, rfl, rfl, hallows, rfl⟩
  have hopened : (before list end_ a).Wraps list.toArray list'.toArray (spread a z) [] []
      (entry list end_ a z allows) ((before list' end_ a).openGroup '(' a) := by
    refine ⟨⟨[], by simp, rfl, ?_⟩, ?_, hrun, { hs with stack := rfl, groupDepth := rfl, run := rfl }⟩
    · simp [openGroup, entry, hs.stack]
    · simp [openGroup, hs.groupDepth]
  exact ⟨hopened.congr rfl hbare, hstack⟩

end

/-! ### The way out -/

/-- States behind the parentheses. -/
structure Wrapped (tokens tokens' : Array Token) (f : Nat → Nat) (base base' : List Segment)
    (indices indices' : List Nat) (s s' : Scan) : Prop where
  mirrors : s.Mirrors tokens tokens' f base base' { s' with run := s.run.rename f }
  indices : s.run.indices.toList = indices
  indices' : s'.run.indices.toList = indices'
  container : s'.run.container = s.run.container.map f
  depth : s'.run.depth = s.run.depth

theorem Wrapped.congr {indices indices' : List Nat} {r r' : Scan}
    (hs : s.Wrapped tokens tokens' f base base' indices indices' s') (hr : r.bare = s.bare)
    (hr' : r'.bare = s'.bare) : r.Wrapped tokens tokens' f base base' indices indices' r' := by
  obtain ⟨stack, groupDepth, run, partners, nesting, segments, headers, closures⟩ := s
  obtain ⟨stack', groupDepth', run', partners', nesting', segments', headers', closures'⟩ := s'
  cases r
  cases r'
  cases hr
  cases hr'
  exact ⟨{ hs.mirrors with stack := hs.mirrors.stack }, hs.indices, hs.indices', hs.container, hs.depth⟩

/-- The closing parenthesis. -/
theorem Wraps.leave {e : Entry} (h : Encloses list list' a z)
    (hs : (before list end_ (z + 1)).Wraps list.toArray list'.toArray (spread a z) base base' e
      (before list' end_ (z + 2))) (he : e.index = a)
    (hstack : (before list end_ (z + 1)).stack = e.under)
    (hstack' : (before list' end_ (z + 2)).stack =
      .group '(' a :: e.under.map (Frame.rename (spread a z))) :
    ∃ more, (before list end_ (z + 1)).Wrapped list.toArray list'.toArray (spread a z) base base'
      (e.known ++ more) (e.known.map (spread a z) ++ a :: more.map (spread a z) ++ [z + 2])
      (before list' end_ (z + 3)) ∧ (before list' end_ (z + 3)).run.head = e.head ∧
      partnerIn (before list' end_ (z + 3)).partners a = some (z + 2) := by
  obtain ⟨t, ht, hmark⟩ := h.closer
  have hbare := @bare_step_closeGroup list'.toArray end_ (nextAfter list') _ (z + 2) t _ '(' ')' a
    hstack' rfl hmark
  rw [← before_succ ht] at hbare
  obtain ⟨more, hmore, hmore'⟩ := hs.run.indices
  have hle := h.le
  have hlt := h.lt_length
  have hlength := h.length
  have hroom : (before list' end_ (z + 2)).partners.size = list'.length :=
    hs.mirrors.room'.trans List.size_toArray
  refine ⟨more, Wrapped.congr ⟨?_, hmore, ?_, ?_, ?_⟩ rfl hbare, ?_, ?_⟩
  · refine { hs.mirrors with stack := ?_, groupDepth := ?_, run := rfl, room' := ?_, partners := ?_ }
    · simp [hstack]
    · simp [hs.groupDepth]
    · simpa [pair] using hroom
    · intro j
      have hne : spread a z j ≠ a ∧ spread a z j ≠ z + 2 := by
        unfold spread
        split_ifs <;> omega
      refine .trans ?_ (hs.mirrors.partners j)
      simp only
      rw [partnerIn_pair_eq (before list' end_ (z + 2)) (by omega) (by omega), if_neg hne.2, if_neg hne.1]
      rfl
  · simp [Run.push, hmore', he]
  · exact hs.run.container
  · exact hs.run.depth
  · have := congrArg (fun s => s.run.head) hbare
    exact this.trans hs.run.head'
  · have := congrArg (fun s => partnerIn s.partners a) hbare
    refine this.trans ?_
    change partnerIn ((before list' end_ (z + 2)).pair a (z + 2)).partners a = _
    rw [partnerIn_pair_eq (before list' end_ (z + 2)) (by omega) (by omega), if_neg (by omega),
      if_pos rfl]

/-- A stretch in parentheses adds the same tokens to the run, without the parentheses. -/
theorem wrapped_stretch (h : Encloses list list' a z)
    (hfront : ∀ k t, k < a → list[k]? = some t → t.kind = .newline →
      ∃ m, Loud list.toArray m ∧ k < m ∧ m < a)
    {allows : Option Head → Prop} (hallows : allows (before list end_ a).run.head)
    (hguard : Guard list list' end_ (spread a z) [] [] (entry list end_ a z allows) a (z + 1))
    {pairs : List (Nat × Nat)} (hdyck : Dyck a (stretch list a z) pairs) :
    ∃ more, (before list end_ (z + 1)).Wrapped list.toArray list'.toArray (spread a z) [] []
        ((before list end_ a).run.indices.toList ++ more)
        ((before list end_ a).run.indices.toList.map (spread a z) ++ a :: more.map (spread a z) ++
          [z + 2]) (before list' end_ (z + 3)) ∧
      (before list' end_ (z + 3)).run.head = (before list end_ a).run.head ∧
      partnerIn (before list' end_ (z + 3)).partners a = some (z + 2) ∧
      allows (before list end_ (z + 1)).run.head ∧
      (before list end_ (z + 1)).stack = (before list end_ a).stack := by
  have hlength := length_stretch h.le h.lt_length
  obtain ⟨hs, hstack⟩ := wraps_entry h hfront hallows
  have hmoved := h.moved
  rw [← hlength] at hmoved hguard
  obtain ⟨hs, hkept, hkept'⟩ := hs.run_dyck h.renames (openBraces_entry list end_ a z allows) hdyck
    (stands_stretch list a z) hmoved hguard
  rw [hlength] at hs hkept hkept'
  obtain ⟨more, hleft, hhead, hpartner⟩ := hs.leave h rfl hkept (hkept'.trans hstack)
  exact ⟨more, hleft, hhead, hpartner, hs.run.head, hkept⟩

/-! ### Up to the block -/

section

variable (h : Encloses list list' a z) {known more : List Nat}
  (hs : (before list end_ (z + 1)).Wrapped list.toArray list'.toArray (spread a z) [] []
    (known ++ more) (known.map (spread a z) ++ a :: more.map (spread a z) ++ [z + 2])
    (before list' end_ (z + 3)))
  (hkind : head.kind = .controlHeader)
include h hs hkind

/-- A keyword in front of the parentheses leads both runs, or none. -/
theorem Wrapped.head?_iff :
    head? list.toArray (before list end_ (z + 1)).partners (known ++ more) = some head ∧
        head.lead < known.length ↔
      head? list'.toArray (before list' end_ (z + 3)).partners
          (known.map (spread a z) ++ (a :: more.map (spread a z) ++ [z + 2])) = some head ∧
        head.lead < (known.map (spread a z)).length := by
  rw [head?_append_iff hkind, head?_append_iff hkind,
    h.renames.head?_map hs.mirrors.partners]

theorem Wrapped.headOf_new (hhead : headOf list.toArray (before list end_ (z + 1)) = head)
    (hlead : head.lead < known.length)
    (hcached : ∀ found ∈ (before list' end_ (z + 3)).run.head, found = head) :
    headOf list'.toArray (before list' end_ (z + 3)) = head := by
  have hfound := head?_of_headOf (show z + 1 ≤ list.length from h.lt_length) hhead hkind
  rw [hs.indices] at hfound
  refine headOf_eq hcached ?_
  rw [hs.indices', List.append_assoc]
  exact ((hs.head?_iff h hkind).mp ⟨hfound, hlead⟩).1

theorem Wrapped.headOf_old (hhead : headOf list'.toArray (before list' end_ (z + 3)) = head)
    (hlead : head.lead < known.length)
    (hcached : ∀ found ∈ (before list end_ (z + 1)).run.head, found = head) :
    headOf list.toArray (before list end_ (z + 1)) = head := by
  have hlength := h.length
  have hlt := h.lt_length
  have hfound := head?_of_headOf (show z + 3 ≤ list'.length by omega) hhead hkind
  rw [hs.indices', List.append_assoc] at hfound
  refine headOf_eq hcached ?_
  rw [hs.indices]
  exact ((hs.head?_iff h hkind).mpr ⟨hfound, by simpa using hlead⟩).1

end

/-- A run that looked for its leading word. -/
structure Looked (tokens : Array Token) (s : Scan) (run : Run) : Prop where
  indices : run.indices = s.run.indices
  container : run.container = s.run.container
  depth : run.depth = s.run.depth
  head : (classify tokens s.partners run).2 = headOf tokens s

section

variable {following : Nat → Option Nat} {u : Token}

/-- The run of a control header carries on to the brace of its block. -/
theorem bare_step_before_block (htrivia : t.isTrivia)
    (hnext : t.kind = .newline → (following i).bind (tokens[·]?) = some u) (hu : u.isMark '{')
    (hkind : (headOf tokens s).kind = .controlHeader) :
    ∃ run, (s.step tokens end_ following i t).bare = bare { s with run } ∧ s.Looked tokens run := by
  have hsame : s.Looked tokens s.run := ⟨rfl, rfl, rfl, rfl⟩
  by_cases hnewline : t.kind = .newline
  · have hclassified : s.Looked tokens (classify tokens s.partners s.run).1 := by
      have := @classify_same tokens s.partners s.run
      exact ⟨this.indices, this.container, this.depth, by rw [classify_classify, headOf]⟩
    have hexpects (run : Run) : expectsBlock tokens run (classify tokens s.partners s.run).2 = true := by
      rw [headOf] at hkind
      simp [expectsBlock, hkind]
    have hnot : u.kind = .punctuation ∧ u.text = [.char '{'] := by
      simpa [Lexeme.isMark, Lexeme.isPunct] using hu
    have hleading : leadingContinuation.contains ([.char '{'] : Text) = false := by decide +kernel
    have hcarries : continues tokens s (following i) = (s.run, true) ∨
        continues tokens s (following i) = ((classify tokens s.partners s.run).1, true) := by
      simp only [continues, hnext hnewline, hnot, hleading, hexpects]
      split_ifs <;> simp_all
    have hnoted : continues tokens { s with nesting := s.nesting.push s.stack.length } (following i) =
        continues tokens s (following i) := rfl
    rw [step_newline hnewline, newline, hnoted]
    rcases hcarries with hcarries | hcarries <;> rw [hcarries]
    · exact ⟨s.run, by split <;> rfl, hsame⟩
    · split
      · exact ⟨_, rfl, hclassified⟩
      · exact ⟨_, rfl, hsame⟩
  · rw [step_trivia htrivia hnewline]
    exact ⟨_, rfl, hsame⟩

/-- The brace of a block ends the control header before it. -/
theorem bare_step_block (ht : t.isMark '{') (hgroup : s.groupDepth = 0) (hne : s.run.indices ≠ #[])
    (hkind : (headOf tokens s).kind = .controlHeader) :
    (s.step tokens end_ following i t).bare =
      bare { s with
        segments := toSegment tokens s.partners s.run { boundary := some i, opensBlock := true } ::
          s.segments
        headers := (i, toSegment tokens s.partners s.run
          { boundary := some i, opensBlock := true }) :: s.headers
        stack := .block i :: s.stack
        run := freshRun (.block i :: s.stack) } := by
  have hwaits : s.groupDepth = 0 ∧ !s.run.isEmpty := ⟨hgroup, by simpa [Run.isEmpty] using hne⟩
  have hexpects (run : Run) : expectsBlock tokens run (classify tokens s.partners s.run).2 = true := by
    rw [headOf] at hkind
    simp [expectsBlock, hkind]
  have hempty : (classify tokens s.partners s.run).1.isEmpty = false := by
    simpa [Run.isEmpty] using hne
  rw [bare_step_openBrace ht, openBrace, if_pos hwaits]
  simp only [hgroup, hexpects, hempty, or_true, and_true, if_true, Bool.false_eq_true, if_false,
    toSegment_classify]

end

theorem Wrapped.looked {indices indices' : List Nat} {run run' : Run}
    (hs : s.Wrapped tokens tokens' f base base' indices indices' s') (hrun : s.Looked tokens run)
    (hrun' : s'.Looked tokens' run') :
    Wrapped tokens tokens' f base base' indices indices' { s with run } { s' with run := run' } where
  mirrors := { hs.mirrors with run := rfl }
  indices := by rw [hrun.indices, hs.indices]
  indices' := by rw [hrun'.indices, hs.indices']
  container := by rw [hrun.container, hrun'.container, hs.container]
  depth := by rw [hrun.depth, hrun'.depth, hs.depth]

section

variable {indices indices' : List Nat} (h : Encloses list list' a z)
  (hb : tokenIs list.toArray (·.isMark '{') b) (hzb : z < b) (hquiet : Quiet list.toArray z b)
  (hs : (before list end_ (z + 1)).Wrapped list.toArray list'.toArray (spread a z) base base'
    indices indices' (before list' end_ (z + 3)))
  (hhead : headOf list.toArray (before list end_ (z + 1)) = head)
  (hhead' : headOf list'.toArray (before list' end_ (z + 3)) = head)
  (hkind : head.kind = .controlHeader)
include h hb hquiet hs hhead hhead' hkind

/-- Up to the brace of the block both runs carry on. -/
theorem Wrapped.carry (hj : z < j) (hjb : j ≤ b) :
    (before list end_ j).Wrapped list.toArray list'.toArray (spread a z) base base' indices indices'
        (before list' end_ (j + 2)) ∧
      headOf list.toArray (before list end_ j) = head ∧
      headOf list'.toArray (before list' end_ (j + 2)) = head ∧
      (before list end_ j).groupDepth = (before list end_ (z + 1)).groupDepth := by
  have hle := h.le
  obtain ⟨u, hu, hmark⟩ := tokenIs_iff.mp hb
  induction j, hj using Nat.le_induction with
  | base => exact ⟨hs, hhead, hhead', rfl⟩
  | succ j hj ih =>
    obtain ⟨hs, hhead, hhead', hgroup⟩ := ih (by omega)
    have hblt := (Array.getElem?_eq_some_iff.mp hu).1
    rw [List.size_toArray] at hblt
    have ht := List.getElem?_eq_getElem (show j < list.length by omega)
    have htrivia := hquiet j (by omega) (by omega)
    rw [tokenIs_of_getElem? (List.getElem?_toArray.trans ht)] at htrivia
    have hplace : spread a z j = j + 2 := spread_of_gt (by omega) (by omega)
    obtain ⟨t', ht', hlexeme⟩ := h.renames.exists_token ht
    obtain ⟨u', hu', hlexeme'⟩ := h.renames.exists_token (List.getElem?_toArray.symm.trans hu)
    rw [hplace] at ht'
    have hnext : nextAfter list j = some b :=
      nextAfter_eq_some.mpr ⟨by omega, ⟨u, hu, not_isTrivia hmark⟩,
        fun m hjm hmb => hquiet m (by omega) hmb⟩
    obtain ⟨run, hbare, hrun⟩ := @bare_step_before_block list.toArray end_ j list[j]
      (before list end_ j) (nextAfter list) u htrivia (fun _ => by rw [hnext]; exact hu) hmark
      (by rw [hhead, hkind])
    obtain ⟨run', hbare', hrun'⟩ := @bare_step_before_block list'.toArray end_ (j + 2) t'
      (before list' end_ (j + 2)) (nextAfter list') u' (by rwa [hlexeme])
      (fun hnewline => by
        rw [hlexeme] at hnewline
        rw [← hplace, h.nextAfter_spread (h.ne_of_newline ht hnewline) fun hja => absurd hja (by omega),
          hnext]
        simpa using hu')
      (by rwa [hlexeme']) (by rw [hhead', hkind])
    rw [← before_succ ht] at hbare
    rw [← before_succ ht'] at hbare'
    refine ⟨(hs.looked hrun hrun').congr hbare hbare', ?_, ?_, ?_⟩
    · rw [headOf_congr hbare]
      exact hrun.head.trans hhead
    · rw [headOf_congr hbare']
      exact hrun'.head.trans hhead'
    · exact (congrArg (fun s : Scan => s.groupDepth) hbare).trans hgroup

end

/-- The header that opens the block at a brace. -/
def headerAt (list : List Token) (end_ : Text) (b : Nat) : Segment :=
  toSegment list.toArray (before list end_ b).partners (before list end_ b).run
    { boundary := some b, opensBlock := true }

/-- The scans do the same again behind the brace of the block. The headers that they leave behind
differ in their tokens alone. -/
theorem Wrapped.block {indices indices' : List Nat} (h : Encloses list list' a z)
    (hb : tokenIs list.toArray (·.isMark '{') b) (hzb : z < b) (hquiet : Quiet list.toArray z b)
    (hs : (before list end_ (z + 1)).Wrapped list.toArray list'.toArray (spread a z) [] []
      indices indices' (before list' end_ (z + 3)))
    (hhead : headOf list.toArray (before list end_ (z + 1)) = head)
    (hhead' : headOf list'.toArray (before list' end_ (z + 3)) = head)
    (hkind : head.kind = .controlHeader) (hgroup : (before list end_ (z + 1)).groupDepth = 0)
    (hne : indices ≠ []) (hne' : indices' ≠ []) :
    headerAt list' end_ (b + 2) =
        { (headerAt list end_ b).rename (spread a z) with indices := indices' } ∧
      (headerAt list end_ b).indices = indices ∧
      (before list end_ (b + 1)).Mirrors list.toArray list'.toArray (spread a z)
        (headerAt list end_ b :: (before list end_ b).segments)
        (headerAt list' end_ (b + 2) ::
          (before list end_ b).segments.map (Segment.rename (spread a z)))
        (before list' end_ (b + 1 + 2)) := by
  have hle := h.le
  obtain ⟨u, hu, hmark⟩ := tokenIs_iff.mp hb
  obtain ⟨hs, hhead, hhead', hsame⟩ := hs.carry h hb hquiet hhead hhead' hkind hzb (Nat.le_refl b)
  have hgroup : (before list end_ b).groupDepth = 0 := hsame.trans hgroup
  have hgroup' : (before list' end_ (b + 2)).groupDepth = 0 := hs.mirrors.groupDepth.trans hgroup
  have hplace : spread a z b = b + 2 := spread_of_gt hzb (by omega)
  have ht := List.getElem?_toArray.symm.trans hu
  obtain ⟨u', hu', hlexeme⟩ := h.renames.exists_token ht
  rw [hplace] at hu'
  have hbare := @bare_step_block list.toArray end_ b u (before list end_ b) (nextAfter list) hmark
    hgroup (by rw [← hs.indices] at hne; simpa using hne) (by rw [hhead, hkind])
  have hbare' := @bare_step_block list'.toArray end_ (b + 2) u' (before list' end_ (b + 2))
    (nextAfter list') (by rwa [hlexeme]) hgroup' (by rw [← hs.indices'] at hne'; simpa using hne')
    (by rw [hhead', hkind])
  rw [← before_succ ht] at hbare
  rw [← before_succ hu'] at hbare'
  refine ⟨?_, hs.indices, Mirrors.congr ?_ hbare hbare'⟩
  · have hword : (headerAt list' end_ (b + 2)).toHead = (headerAt list end_ b).toHead :=
      hhead'.trans hhead.symm
    simp only [headerAt, toSegment] at hword ⊢
    simp only [Segment.rename, hword, hs.indices', hs.container, hs.depth, Option.map_some, hplace]
  · obtain ⟨later, hlater, hlater'⟩ := hs.mirrors.segments
    rw [List.append_nil] at hlater hlater'
    have hsegments : (before list' end_ (b + 2)).segments =
        (before list end_ b).segments.map (Segment.rename (spread a z)) := by
      rw [hlater]
      exact hlater'
    refine { hs.mirrors with stack := ?_, run := ?_, segments := ⟨[], rfl, ?_⟩ }
    · have := hs.mirrors.stack
      simp only at this
      simp [this, Frame.rename, hplace]
    · have := hs.mirrors.stack
      simp only at this
      rw [← freshRun_map, this]
      simp [Frame.rename, hplace]
    · simp only [hsegments]
      rfl

/-! ### Up to where the run is cut off -/

/-- A run behind which there is only trivia waits, or a newline has cut it off. -/
theorem waits_or_cut (hij : i ≤ j) (hj : j ≤ list.length)
    (htrivia : ∀ k, i ≤ k → k < j → tokenIs list.toArray (·.isTrivia) k)
    (hne : (before list end_ i).run.indices ≠ #[]) :
    ((before list end_ j).run.indices ≠ #[] ∧
        ∀ ending, ((before list end_ j).close list.toArray ending).bare =
          ((before list end_ i).close list.toArray ending).bare) ∨
      ∃ b, (before list end_ j).run.indices = #[] ∧ (before list end_ j).bare =
        ((before list end_ i).close list.toArray { boundary := some b }).bare := by
  induction j, hij using Nat.le_induction with
  | base => exact .inl ⟨hne, fun _ => rfl⟩
  | succ j hij ih =>
    have ht := List.getElem?_eq_getElem (show j < list.length from hj)
    have hquiet := htrivia j hij (Nat.lt_succ_self j)
    rw [tokenIs_of_getElem? (List.getElem?_toArray.trans ht)] at hquiet
    have hnext := @before_succ list end_ j _ ht
    rcases ih (by omega) fun k hik hkj => htrivia k hik (by omega) with ⟨hopen, hbare⟩ | ⟨b, hempty, hbare⟩
    · by_cases hcut : (before list end_ (j + 1)).run.indices = #[]
      · have hnewline : list[j].kind = .newline := by
          by_contra hnewline
          rw [hnext, step_trivia hquiet hnewline] at hcut
          exact hopen hcut
        refine .inr ⟨j, hcut, ?_⟩
        rw [← hbare, hnext, step_newline hnewline]
        rw [hnext, step_newline hnewline] at hcut
        rcases @newline_cases list.toArray { before list end_ j with
          nesting := (before list end_ j).nesting.push (before list end_ j).stack.length }
          (nextAfter list j) j with ⟨run, heq, hclose⟩ | ⟨-, -, heq⟩
        · rw [heq] at hcut ⊢
          rw [← close_of_empty hcut { boundary := some j }, hclose, close_with_nesting]
          rfl
        · rw [heq, close_with_nesting]
          rfl
      · refine .inl ⟨hcut, fun ending => (hbare ending).symm ▸ ?_⟩
        rw [hnext] at hcut ⊢
        rw [bare_close_step hquiet hcut, hbare]
    · have hsame := @bare_step_of_empty end_ _ list.toArray _ j (nextAfter list) hquiet hempty
      rw [← hnext] at hsame
      exact .inr ⟨b, (congrArg (fun s : Scan => s.run.indices) hsame).trans hempty, hsame.trans hbare⟩

/-- Runs that end behind the parentheses, each with an ending of its own. -/
theorem Wrapped.close {indices indices' : List Nat}
    (hs : s.Wrapped tokens tokens' f [] [] indices indices' s')
    (hhead : headOf tokens s = head) (hhead' : headOf tokens' s' = head)
    (hne : indices ≠ []) (hne' : indices' ≠ []) (boundary boundary' : Option Nat) :
    toSegment tokens' s'.partners s'.run { boundary := boundary' } =
        { (toSegment tokens s.partners s.run { boundary }).rename f with
          indices := indices', boundary := boundary' } ∧
      (s.close tokens { boundary }).Mirrors tokens tokens' f
        (toSegment tokens s.partners s.run { boundary } :: s.segments)
        (toSegment tokens' s'.partners s'.run { boundary := boundary' } ::
          s.segments.map (Segment.rename f))
        (s'.close tokens' { boundary := boundary' }) := by
  have hempty : s.run.isEmpty = false ∧ s'.run.isEmpty = false := by
    rw [← hs.indices] at hne
    rw [← hs.indices'] at hne'
    simpa [Run.isEmpty] using And.intro hne hne'
  constructor
  · have hword : (classify tokens' s'.partners s'.run).2 = (classify tokens s.partners s.run).2 :=
      hhead'.trans hhead.symm
    simp only [toSegment, Segment.rename, hword, hs.indices', hs.container, hs.depth]
  · obtain ⟨later, hlater, hlater'⟩ := hs.mirrors.segments
    rw [List.append_nil] at hlater hlater'
    have hsegments : s'.segments = s.segments.map (Segment.rename f) := by
      rw [hlater]
      exact hlater'
    simp only [Scan.close, hempty, Bool.false_eq_true, if_false]
    refine { hs.mirrors with run := ?_, segments := ⟨[], rfl, ?_⟩ }
    · simp [Run.restart, Run.rename, hs.container, hs.depth]
    · simp [hsegments]

/-! ### Putting parentheses -/

/-- The leading word, once it is known, is not forgotten. -/
def Keeps (head? later? : Option Head) : Prop := ∀ head ∈ head?, later? = some head

namespace Tail

variable {seg : Segment} {known : List Nat}

/-- The scan ends no run in the tail of a header. -/
theorem guard (ht : Tail list end_ seg known a z k) (f : Nat → Nat) (base base' : List Segment) :
    Guard list list' end_ f base base' (entry list end_ a z (Keeps (before list end_ a).run.head))
      a (z + 1) := by
  have hzk := ht.lt_end.1
  have hle := ht.made.le
  have haz := ht.first_le_last
  have hunder : ∀ frame ∈ (before list end_ a).stack, frame.index < a :=
    (@before_invariant list end_ a (by omega)).nested.index_lt
  have hne {j : Nat} (haj : a ≤ j) (hjz : j < z + 1)
      (hframes : ∀ i resume depth, .closure i resume depth ∈ (before list end_ (j + 1)).stack → i < a) :
      (before list end_ (j + 1)).run.indices ≠ #[] := by
    have hrun := ht.run_eq (show a < j + 1 by omega) (by omega) hframes
    intro hempty
    have hmem : a ∈ seg.indices.filter (· < j + 1) := by
      simpa using ⟨ht.mem_first, by omega⟩
    rw [← hrun, hempty] at hmem
    simp at hmem
  have hclosures {j i depth : Nat} {resume : Run} {top : List Frame}
      (htop : ∀ frame ∈ top, frame.isBrace = false)
      (hstack : (before list end_ j).stack =
        top ++ (entry list end_ a z (Keeps (before list end_ a).run.head)).under)
      (hframe : .closure i resume depth ∈ (before list end_ j).stack) : i < a := by
    rw [hstack] at hframe
    rcases List.mem_append.mp hframe with hframe | hframe
    · cases htop _ hframe
    · exact hunder _ hframe
  constructor
  · intro j t haj hjz htoken hother hgroup hs
    obtain ⟨top, htop, hstack, -⟩ := hs.stack
    have hkept := @Dyck.step_other list.toArray end_ (nextAfter list) (before list end_ j) t hother j
    have hcases := @bare_step_cases end_ t list.toArray hother (before list end_ j) (nextAfter list) j
    rw [← before_succ htoken] at hkept hcases
    rcases hcases with hempty | ⟨run, hbare, hrun, hhead⟩
    · exact absurd hempty (hne haj hjz fun i resume depth hframe =>
        hclosures htop hstack (hkept ▸ hframe))
    · exact ⟨run, hbare, hrun, fun head hhead' => hhead head (hs.run.head head hhead')⟩
  · intro j t haj hjz htoken hmark hgroup hs
    obtain ⟨top, htop, hstack, -⟩ := hs.stack
    have hcases := @bare_step_brace_cases end_ t list.toArray hmark (before list end_ j)
      (nextAfter list) j
    rw [← before_succ htoken] at hcases
    rcases hcases with ⟨hempty, hblock⟩ | ⟨run, hbare, hrun, hhead⟩
    · refine absurd hempty (hne haj hjz fun i resume depth hframe => ?_)
      rw [hblock] at hframe
      refine hclosures htop hstack ((List.mem_cons.mp hframe).resolve_left ?_)
      rintro ⟨⟩
    · exact ⟨run, hbare, hrun, fun head hhead' => hhead head (hs.run.head head hhead')⟩

end Tail

end Scan
end HouseStyle.Outline
