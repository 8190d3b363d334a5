import HouseStyle.Proofs.Outline.Housed

/-! The segments of an outline form a forest. No token is in two of them, and one segment begins
inside another only behind the brace of a closure, where it stays until the closure ends. Each knows
the braces around it. -/

namespace HouseStyle

open Outline

variable {tokens : Array Token} {partners : Array (Option Nat)} {closures closures' : List Nat}
  {end_ : Text}

theorem Outline.Linked.mono (hsub : closures ⊆ closures') {j k : Nat}
    (h : Linked tokens partners closures j k) : Linked tokens partners closures' j k :=
  ⟨h.1, h.2.imp_right fun hclosure => ⟨hsub hclosure.1, hclosure.2⟩⟩

/-! ### Gaps -/

/-- An index that a chain steps over stands between two neighbours. -/
theorem Outline.exists_gap {R : Nat → Nat → Prop} {x a b : Nat} {rest : List Nat}
    (hchain : (a :: rest).IsChain R) (hx : x ∉ a :: rest) (hax : a < x) (hb : b ∈ a :: rest)
    (hxb : x < b) : ∃ k m, [k, m] <:+: a :: rest ∧ R k m ∧ k < x ∧ x < m := by
  induction rest generalizing a with
  | nil =>
    obtain rfl := List.mem_singleton.mp hb
    omega
  | cons m rest ih =>
    rw [List.isChain_cons_cons] at hchain
    rcases Nat.lt_or_gt_of_ne (show x ≠ m by rintro rfl; simp at hx) with hxm | hmx
    · exact ⟨a, m, (List.prefix_append [a, m] rest).isInfix, hchain.1, hax, hxm⟩
    · have hb : b ∈ m :: rest := (List.mem_cons.mp hb).resolve_left (by omega)
      obtain ⟨k, n, hadj, hgap⟩ := ih hchain.2 (fun h => hx (List.mem_cons_of_mem a h)) hmx hb
      exact ⟨k, n, List.infix_cons hadj, hgap⟩

theorem Outline.mem_of_adjacent {k m : Nat} {indices : List Nat} (h : [k, m] <:+: indices) :
    k ∈ indices ∧ m ∈ indices :=
  ⟨h.subset (by simp), h.subset (by simp)⟩

theorem Outline.rel_of_adjacent {R : Nat → Nat → Prop} {k m : Nat} {indices : List Nat}
    (hchain : indices.IsChain R) (h : [k, m] <:+: indices) : R k m := by
  obtain ⟨us, vs, rfl⟩ := h
  exact List.isChain_iff_forall_rel_of_append_cons_cons.mp hchain (List.append_assoc _ _ _)

/-- No index of an increasing list stands between two neighbours. -/
theorem Outline.le_or_le_of_adjacent {k m x : Nat} {indices : List Nat}
    (hpairwise : indices.Pairwise (· < ·)) (h : [k, m] <:+: indices) (hx : x ∈ indices) :
    x ≤ k ∨ m ≤ x := by
  obtain ⟨us, vs, rfl⟩ := h
  simp only [List.append_assoc, List.cons_append, List.nil_append, List.pairwise_append,
    List.pairwise_cons, List.mem_append, List.mem_cons] at hpairwise hx
  obtain ⟨-, ⟨-, hafter, -⟩, hbefore⟩ := hpairwise
  rcases hx with hx | rfl | rfl | hx
  · exact .inl (hbefore x hx k (.inl rfl)).le
  · exact .inl (Nat.le_refl x)
  · exact .inr (Nat.le_refl x)
  · exact .inr (hafter x hx).le

namespace Segment.Housed

variable {seg : Segment}

theorem mono (h : seg.Housed tokens partners closures) (hsub : closures ⊆ closures') :
    seg.Housed tokens partners closures' :=
  { h with chain := h.chain.imp fun _ _ => Linked.mono hsub }

/-- Code that a segment steps over stands inside a closure of the segment. -/
theorem exists_closure (h : seg.Housed tokens partners closures) (hs : seg.Sound tokens end_) {x : Nat}
    (hloud : Loud tokens x) (hx : x ∉ seg.indices) (hfirst : seg.first < x) (hlast : x < seg.last) :
    ∃ c p, [c, p] <:+: seg.indices ∧ c ∈ closures ∧ partnerIn partners c = some p ∧ c < x ∧ x < p := by
  obtain ⟨a, rest, hindices⟩ := List.exists_cons_of_ne_nil hs.ne_nil
  have hchain := h.chain
  have hmem := hs.last_mem
  rw [Segment.first, hindices, List.headD_cons] at hfirst
  rw [hindices] at hchain hmem hx
  obtain ⟨c, p, hadj, ⟨-, hquiet | hclosure⟩, hcx, hxp⟩ :=
    exists_gap hchain hx hfirst hmem hlast
  · exact absurd hxp (hquiet.le_of_loud hloud hcx).not_gt
  · rw [hindices]
    exact ⟨c, p, hadj, hclosure.1, hclosure.2, hcx, hxp⟩

section

variable {a b : Segment} (ha : a.Housed tokens partners closures)
  (hb : b.Housed tokens partners closures) (hsa : a.Sound tokens end_) (hsb : b.Sound tokens end_)
  (hbetween : ∀ i j k m, partnerIn partners i = some j → partnerIn partners k = some m → i < k →
    k < j → i < m ∧ m < j)
  (hdisjoint : ∀ k ∈ a.indices, k ∉ b.indices) (hfirst : a.first < b.first)
include ha hb hsa hsb hbetween hdisjoint hfirst

/-- Of two segments the one that begins first is over before the other begins, or has it whole
between the braces of a closure, which are neighbours in it, if pairs do not cross. -/
theorem apart_or_between : a.last < b.first ∨ ∃ c p, [c, p] <:+: a.indices ∧ c ∈ closures ∧
    partnerIn partners c = some p ∧ c < b.first ∧ b.last < p := by
  by_cases hapart : a.last < b.first
  · exact .inl hapart
  have hstart : b.first ∉ a.indices := fun h => hdisjoint _ h hsb.first_mem
  have hne : b.first ≠ a.last := fun h => hstart (h ▸ hsa.last_mem)
  obtain ⟨c, p, hadj, hclosure, hpair, hcb, hbp⟩ :=
    ha.exists_closure hsa (hsb.inOrder.loud _ hsb.first_mem) hstart hfirst (by omega)
  have hp := (mem_of_adjacent hadj).2
  refine .inr ⟨c, p, hadj, hclosure, hpair, hcb, ?_⟩
  by_contra hle
  -- Else the closing brace would stand inside a closure of the second segment, across the first.
  have hend : p ∉ b.indices := hdisjoint p hp
  have hne : p ≠ b.last := fun h => hend (h ▸ hsb.last_mem)
  obtain ⟨c', p', hadj', -, hpair', hcp, hpp⟩ :=
    hb.exists_closure hsb (hsa.inOrder.loud p hp) hend hbp (by omega)
  have hcc := hsb.first_le (mem_of_adjacent hadj').1
  have := hbetween c p c' p' hpair hpair' (by omega) hcp
  omega

theorem apart_or_inside : a.last < b.first ∨ ∃ c ∈ a.indices, c ∈ closures ∧
    ∃ p, partnerIn partners c = some p ∧ c < b.first ∧ b.last < p := by
  refine (ha.apart_or_between hb hsa hsb hbetween hdisjoint hfirst).imp_right ?_
  rintro ⟨c, p, hadj, hclosure, hpair, hcb, hbp⟩
  exact ⟨c, (mem_of_adjacent hadj).1, hclosure, p, hpair, hcb, hbp⟩

end

end Segment.Housed

namespace Outline

/-! ### The segments of an outline -/

theorem ofTokens_segments_perm (list : List Token) (end_ : Text) :
    (Outline.ofTokens list end_).segments.Perm
      ((Scan.scanned list end_).close list.toArray { boundary := none }).segments :=
  (List.mergeSort_perm _ _).trans (List.reverse_perm _)

theorem ofTokens_partners (list : List Token) (end_ : Text) :
    (Outline.ofTokens list end_).partners = (Scan.scanned list end_).partners :=
  Scan.close_partners _ _

theorem mem_ofTokens_closures {list : List Token} {end_ : Text} {c : Nat} :
    c ∈ (Outline.ofTokens list end_).closures ↔ c ∈ (Scan.scanned list end_).closures := by
  have heq : (Outline.ofTokens list end_).closures = (Scan.scanned list end_).closures.reverse :=
    congrArg List.reverse (Scan.close_closures _ _)
  rw [heq, List.mem_reverse]

theorem ofTokens_housed (list : List Token) (end_ : Text) :
    ∀ seg ∈ (Outline.ofTokens list end_).segments,
      seg.Housed (Outline.ofTokens list end_).tokens (Outline.ofTokens list end_).partners
        (Outline.ofTokens list end_).closures := by
  intro seg hseg
  rw [ofTokens_partners]
  have hscanned := Scan.scanned_invariant list end_
  refine (hscanned.housed.segments_close hscanned.nested hscanned.sound (Nat.le_refl _) (Nat.le_succ _)
    hscanned.sound.run.lt hscanned.housed.run hscanned.sound.quiet (by simp)
    ((ofTokens_segments_perm list end_).mem_iff.mp hseg)).1.mono ?_
  exact fun c hc => mem_ofTokens_closures.mpr hc

/-- No token is in two segments. -/
theorem ofTokens_nodup (list : List Token) (end_ : Text) :
    ((Outline.ofTokens list end_).segments.flatMap (·.indices)).Nodup := by
  have hclose := @Scan.held_close list.toArray (Scan.scanned list end_) { boundary := none }
  have hheld := hclose.nodup_iff.mpr (Scan.scanned_holding list end_).nodup
  exact ((ofTokens_segments_perm list end_).flatMap_right _).nodup_iff.mpr hheld.of_append_left

theorem ofTokens_segments_nodup (list : List Token) (end_ : Text) :
    (Outline.ofTokens list end_).segments.Nodup := by
  refine (List.nodup_flatMap.mp (ofTokens_nodup list end_)).2.imp_of_mem fun ha _ hdisjoint => ?_
  rintro rfl
  have hfirst := ((ofTokens_sound list end_).segments _ ha).first_mem
  exact hdisjoint hfirst hfirst

theorem ofTokens_pairwise_first (list : List Token) (end_ : Text) :
    (Outline.ofTokens list end_).segments.Pairwise fun a b => a.first ≤ b.first := by
  have hsorted : (Outline.ofTokens list end_).segments.Pairwise
      fun a b => decide (a.first ≤ b.first) = true := by
    refine List.pairwise_mergeSort (fun a b c hab hbc => ?_) (fun a b => ?_) _
    · simp only [decide_eq_true_eq] at hab hbc ⊢
      exact hab.trans hbc
    · simpa using Nat.le_total a.first b.first
  exact hsorted.imp of_decide_eq_true

theorem ofTokens_disjoint {list : List Token} {end_ : Text} {a b : Segment}
    (ha : a ∈ (Outline.ofTokens list end_).segments) (hb : b ∈ (Outline.ofTokens list end_).segments)
    (hne : a ≠ b) : ∀ k ∈ a.indices, k ∉ b.indices := by
  have hpairwise := (List.nodup_flatMap.mp (ofTokens_nodup list end_)).2
  have : Std.Symm (Function.onFun List.Disjoint fun s : Segment => s.indices) :=
    ⟨fun _ _ h _ hb ha => h ha hb⟩
  exact hpairwise.forall ha hb hne

/-- Segments with the same last token are one. -/
theorem ofTokens_eq_of_last {list : List Token} {end_ : Text} {a b : Segment}
    (ha : a ∈ (Outline.ofTokens list end_).segments) (hb : b ∈ (Outline.ofTokens list end_).segments)
    (hlast : a.last = b.last) : a = b := by
  have hsound := (ofTokens_sound list end_).segments
  by_contra hne
  refine ofTokens_disjoint ha hb hne a.last (hsound a ha).last_mem ?_
  rw [hlast]
  exact (hsound b hb).last_mem

/-- Two segments begin apart, and the one that begins first is over before the other begins or has it
between the braces of a closure. -/
theorem ofTokens_apart_or_between {list : List Token} {end_ : Text} {a b : Segment}
    (ha : a ∈ (Outline.ofTokens list end_).segments) (hb : b ∈ (Outline.ofTokens list end_).segments)
    (hfirst : a.first < b.first) :
    a.last < b.first ∨ ∃ c p, [c, p] <:+: a.indices ∧
      (Outline.ofTokens list end_).partner? c = some p ∧ c < b.first ∧ b.last < p := by
  have hbetween := @Scan.Nested.between _ _ _ (Scan.scanned_invariant list end_).nested
  rw [← ofTokens_partners] at hbetween
  have hsound := (ofTokens_sound list end_).segments
  have hhoused := ofTokens_housed list end_
  have hne : a ≠ b := by
    rintro rfl
    exact hfirst.false
  refine ((hhoused a ha).apart_or_between (hhoused b hb) (hsound a ha) (hsound b hb)
    (fun i j k m hij hkm => hbetween hij hkm) (ofTokens_disjoint ha hb hne) hfirst).imp_right ?_
  rintro ⟨c, p, hadj, -, hpair, hgap⟩
  exact ⟨c, p, hadj, hpair, hgap⟩

/-- What holds of the segments of an outline. Their indices point to code, in order. Of two
segments the first ends before the second begins or has it inside a closure. The boundary of a
segment is the last token of a label and otherwise the next token that is no trivia. -/
structure Forest (o : Outline) : Prop where
  ne_nil : ∀ seg ∈ o.segments, seg.indices ≠ []
  increasing : ∀ seg ∈ o.segments, seg.indices.Pairwise (· < ·)
  loud : ∀ seg ∈ o.segments, ∀ k ∈ seg.indices, Loud o.tokens k
  disjoint : o.segments.Pairwise fun a b => ∀ k ∈ a.indices, k ∉ b.indices
  inOrder : o.segments.Pairwise fun a b => a.first < b.first
  boundary : ∀ seg ∈ o.segments, ∀ b, seg.boundary = some b →
    if seg.label then b = seg.last else seg.last < b ∧ Quiet o.tokens seg.last b
  nested : o.segments.Pairwise fun a b => a.last < b.first ∨ ∃ c ∈ a.indices, c ∈ o.closures ∧
    ∃ p, o.partner? c = some p ∧ c < b.first ∧ b.last < p
  container : ∀ seg ∈ o.segments,
    seg.container = (bracesAround o.tokens o.partners seg.first seg.last).getLast?
  depth : ∀ seg ∈ o.segments,
    seg.depth = (bracesAround o.tokens o.partners seg.first seg.last).length
  members : ∀ b, o.members b = o.segments.filter fun seg =>
    (bracesAround o.tokens o.partners seg.first seg.last).getLast? = b

/-- The segments of any token list form a forest. -/
theorem ofTokens_forest (list : List Token) (end_ : Text) : (Outline.ofTokens list end_).Forest := by
  have hsound := (ofTokens_sound list end_).segments
  have hhoused := ofTokens_housed list end_
  have hdisjoint : (Outline.ofTokens list end_).segments.Pairwise
      fun a b => ∀ k ∈ a.indices, k ∉ b.indices :=
    (List.nodup_flatMap.mp (ofTokens_nodup list end_)).2
  have horder : (Outline.ofTokens list end_).segments.Pairwise fun a b => a.first < b.first := by
    refine (hdisjoint.and (ofTokens_pairwise_first list end_)).imp_of_mem fun ha hb h => ?_
    refine lt_of_le_of_ne h.2 fun heq => h.1 _ (hsound _ ha).first_mem ?_
    rw [heq]
    exact (hsound _ hb).first_mem
  have hbetween := @Scan.Nested.between _ _ _ (Scan.scanned_invariant list end_).nested
  have haround (seg : Segment) (hseg : seg ∈ (Outline.ofTokens list end_).segments) :=
    (hhoused seg hseg).container
  constructor
  · exact fun seg hseg => (hsound seg hseg).ne_nil
  · exact fun seg hseg => (hsound seg hseg).inOrder.pairwise
  · exact fun seg hseg => (hsound seg hseg).inOrder.loud
  · exact hdisjoint
  · exact horder
  · intro seg hseg b hb
    split
    · next hlabel =>
      have := (hhoused seg hseg).label hlabel
      exact Option.some.inj (hb.symm.trans this)
    · next hlabel =>
      cases (hsound seg hseg).ends with
      | text hboundary => cases hb.symm.trans hboundary
      | label h => exact absurd h hlabel
      | token b' hboundary hlt hquiet =>
        obtain rfl := Option.some.inj (hb.symm.trans hboundary)
        exact ⟨hlt, hquiet⟩
  · refine (hdisjoint.and horder).imp_of_mem fun ha hb h => ?_
    rw [← ofTokens_partners] at hbetween
    exact (hhoused _ ha).apart_or_inside (hhoused _ hb) (hsound _ ha) (hsound _ hb)
      (fun i j k m hij hkm => hbetween hij hkm) h.1 h.2
  · exact haround
  · exact fun seg hseg => (hhoused seg hseg).depth
  · intro b
    refine List.filter_congr fun seg hseg => ?_
    rw [haround seg hseg]

end Outline
end HouseStyle

/-! ### Headers

The headers of an outline are its segments that open a block, each with the brace that it opens. So
no two headers share a token. -/

namespace HouseStyle.Outline

namespace Scan

variable {tokens : Array Token} {end_ : Text} {s s' : Scan} {i : Nat} {t : Token}

/-- The headers of a scan are its segments that open a block, in their order. -/
def Headed (s : Scan) : Prop := s.headers.map Prod.snd = s.segments.filter (·.opensBlock)

@[simp] theorem close_headers (s : Scan) (ending : Ending) :
    (s.close tokens ending).headers = s.headers := by
  unfold close
  split <;> rfl

theorem Headed.close {ending : Ending} (h : s.Headed) (hending : ending.opensBlock = false) :
    (s.close tokens ending).Headed := by
  rw [Headed, close_headers, close_segments]
  split
  · exact h
  · rw [List.filter_cons_of_neg (by simp [toSegment, hending])]
    exact h

theorem Headed.step (h : s.Headed) {nesting : Array Nat}
    (hstep : Step tokens end_ { s with nesting } i t s') : s'.Headed := by
  have hclose (run : Run) {ending : Ending} (hending : ending.opensBlock = false) :
      (Scan.close tokens { s with nesting, run } ending).Headed :=
    @Headed.close tokens { s with nesting, run } ending h hending
  cases hstep with
  | pass | take | openGroup | openClosure | closeGroup => exact h
  | newline run | terminator run => exact hclose run rfl
  | label => exact hclose (s.run.push i) rfl
  | closeBlock | closeClosure => exact hclose s.run rfl
  | openBlock run headers hrun ht hgroup hheaders =>
    change headers.map Prod.snd = (Scan.close tokens { s with nesting, run }
      { boundary := some i, opensBlock := true }).segments.filter (·.opensBlock)
    rw [hheaders, close_segments]
    split
    · exact h
    · rw [List.map_cons, List.filter_cons_of_pos rfl]
      exact congrArg _ h

theorem scanned_headed (list : List Token) (end_ : Text) : (scanned list end_).Headed := by
  refine scanned_induction (P := fun s _ => s.Headed) list end_ rfl fun s _ _ following h _ => ?_
  exact h.step (step_spec s following)

end Scan

/-- The headers are the segments that open a block. -/
theorem ofTokens_headers (list : List Token) (end_ : Text) :
    ((Outline.ofTokens list end_).headers.map Prod.snd).Perm
      ((Outline.ofTokens list end_).segments.filter (·.opensBlock)) := by
  have hdone : ((Scan.scanned list end_).close list.toArray { boundary := none }).Headed :=
    (Scan.scanned_headed list end_).close rfl
  have hreversed := (List.reverse_perm
    ((Scan.scanned list end_).close list.toArray { boundary := none }).headers).map Prod.snd
  rw [hdone] at hreversed
  exact hreversed.trans ((ofTokens_segments_perm list end_).filter _).symm

theorem mem_of_mem_headers {list : List Token} {end_ : Text} {block : Nat × Segment}
    (h : block ∈ (Outline.ofTokens list end_).headers) :
    block.2 ∈ (Outline.ofTokens list end_).segments ∧ block.2.opensBlock := by
  apply List.mem_filter.mp
  exact (ofTokens_headers list end_).mem_iff.mp (List.mem_map_of_mem h)

end HouseStyle.Outline
