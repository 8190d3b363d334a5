import Mathlib.Data.Finset.Card
import Mathlib.Data.Finset.Range
import HouseStyle.Proofs.Outline.Levels
import HouseStyle.Proofs.Outline.Tail

/-! Depth counted by pairs. Where all brackets are paired, what is open before an index are the
brackets before it whose partners are not, so a token stands as deep as there are pairs around it. Other
tokens put in leave that number, and a pair put in makes it one larger between its brackets. -/

namespace HouseStyle.Outline

/-- The brackets before an index that are not closed before it. -/
def pending (o : Outline) (i : Nat) : Finset Nat :=
  (Finset.range i).filter fun a => ∃ q ∈ o.partner? a, i ≤ q

/-- The opening brackets of the pairs around an index. -/
def around (o : Outline) (i : Nat) : Finset Nat :=
  (Finset.range i).filter fun a => ∃ q ∈ o.partner? a, i < q

theorem mem_pending {o : Outline} {i a : Nat} :
    a ∈ pending o i ↔ a < i ∧ ∃ q, o.partner? a = some q ∧ i ≤ q := by
  simp [pending]

theorem mem_around {o : Outline} {i a : Nat} :
    a ∈ around o i ↔ a < i ∧ ∃ q, o.partner? a = some q ∧ i < q := by
  simp [around]

section

variable {list : List Token} {end_ : Text} {i : Nat}

namespace Scan

/-- What is open before an index was opened before it and is closed no sooner. -/
theorem mem_stack_iff (hpaired : (Outline.ofTokens list end_).AllPaired) (hi : i ≤ list.length)
    {a : Nat} : (∃ frame ∈ (before list end_ i).stack, frame.index = a) ↔
      a < i ∧ ∃ q, (Outline.ofTokens list end_).partner? a = some q ∧ i ≤ q := by
  have hnested := (@before_invariant list end_ i hi).nested
  constructor
  · rintro ⟨frame, hframe, rfl⟩
    obtain ⟨hlt, hfree, hmark, c, hc⟩ := hnested.waits frame hframe
    obtain ⟨t, ht, hmark⟩ := tokenIs_iff.mp hmark
    have hbracket : isBracket t := List.any_eq_true.mpr ⟨_, (closer?_eq_some hc).1, by simp [hmark]⟩
    obtain ⟨q, hq⟩ := Option.isSome_iff_exists.mp (hpaired _ t ht hbracket)
    refine ⟨hlt, q, hq, ?_⟩
    by_contra hqi
    rw [(partner_before_iff hi).mpr ⟨hq, hlt, by omega⟩] at hfree
    cases hfree
  · rintro ⟨hai, q, hq, hiq⟩
    obtain ⟨-, pair, hpair, hopener, -⟩ := match_of_partner_of_lt hq (by omega)
    refine hnested.mem_of_stillOpen ⟨pair, hpair, hopener⟩ ⟨hai, fun c d hcd hca had => ?_⟩
    obtain ⟨hcd, -, hdi⟩ := (partner_before_iff hi).mp hcd
    have := partner_within hcd hq hca had.le
    omega

theorem stack_length (hpaired : (Outline.ofTokens list end_).AllPaired) (hi : i ≤ list.length) :
    (before list end_ i).stack.length = (pending (Outline.ofTokens list end_) i).card := by
  have hsorted := (@before_invariant list end_ i hi).nested.sorted
  have hnodup : ((before list end_ i).stack.map Frame.index).Nodup :=
    List.pairwise_map.mpr (hsorted.imp fun h => h.ne')
  rw [← List.length_map (f := Frame.index), ← List.toFinset_card_of_nodup hnodup]
  congr 1
  ext a
  rw [List.mem_toFinset, List.mem_map, mem_pending]
  exact mem_stack_iff hpaired hi

end Scan

/-- A token stands as deep as there are pairs around it. -/
theorem nestingAt_eq_card (hpaired : (Outline.ofTokens list end_).AllPaired) (hi : i < list.length) :
    (Outline.ofTokens list end_).nestingAt i = (around (Outline.ofTokens list end_) i).card := by
  have hboth : around (Outline.ofTokens list end_) i =
      pending (Outline.ofTokens list end_) i ∩ pending (Outline.ofTokens list end_) (i + 1) := by
    ext a
    simp only [mem_around, Finset.mem_inter, mem_pending]
    constructor
    · rintro ⟨ha, q, hq, hiq⟩
      exact ⟨⟨ha, q, hq, hiq.le⟩, ha.trans (Nat.lt_succ_self i), q, hq, hiq⟩
    · rintro ⟨⟨ha, -⟩, -, q, hq, hiq⟩
      exact ⟨ha, q, hq, hiq⟩
  rw [Scan.ofTokens_nestingAt_eq_min hi, Scan.stack_length hpaired hi.le, Scan.stack_length hpaired hi,
    hboth]
  by_cases hcloses : ∃ a < i, (Outline.ofTokens list end_).partner? a = some i
  · -- A closing bracket opens nothing.
    obtain ⟨a, hai, hpartner⟩ := hcloses
    have hsubset : pending (Outline.ofTokens list end_) (i + 1) ⊆
        pending (Outline.ofTokens list end_) i := by
      intro b hb
      obtain ⟨hb, q, hq, hiq⟩ := mem_pending.mp hb
      refine mem_pending.mpr ⟨Nat.lt_of_le_of_ne (by omega) ?_, q, hq, by omega⟩
      rintro rfl
      have := Option.some.inj ((partner_symm hpartner).symm.trans hq)
      omega
    rw [Finset.inter_eq_right.mpr hsubset, min_eq_right (Finset.card_le_card hsubset)]
  · have hsubset : pending (Outline.ofTokens list end_) i ⊆
        pending (Outline.ofTokens list end_) (i + 1) := by
      intro b hb
      obtain ⟨hb, q, hq, hiq⟩ := mem_pending.mp hb
      refine mem_pending.mpr ⟨by omega, q, hq, Nat.lt_of_le_of_ne hiq ?_⟩
      rintro rfl
      exact hcloses ⟨b, hb, hq⟩
    rw [Finset.inter_eq_left.mpr hsubset, min_eq_left (Finset.card_le_card hsubset)]

/-! ### Other places -/

variable {list' : List Token} {f : Nat → Nat} (hmono : StrictMono f)
  (hpartners : ∀ j, (Outline.ofTokens list' end_).partner? (f j) =
    ((Outline.ofTokens list end_).partner? j).map f)
include hmono hpartners

/-- Brackets that keep their partners at other places stay around what they were around. -/
theorem mem_around_map {j : Nat} : f j ∈ around (Outline.ofTokens list' end_) (f i) ↔
    j ∈ around (Outline.ofTokens list end_) i := by
  rw [mem_around, mem_around, hpartners, hmono.lt_iff_lt]
  refine and_congr_right fun _ => ⟨?_, ?_⟩
  · rintro ⟨q, hq, hiq⟩
    obtain ⟨p, hp, rfl⟩ := Option.map_eq_some_iff.mp hq
    exact ⟨p, hp, hmono.lt_iff_lt.mp hiq⟩
  · rintro ⟨q, hq, hiq⟩
    exact ⟨f q, by rw [hq]; rfl, hmono hiq⟩

variable (hpaired : (Outline.ofTokens list end_).AllPaired)
  (hpaired' : (Outline.ofTokens list' end_).AllPaired)
  (hi : i < list.length) (hi' : f i < list'.length)
include hpaired hpaired' hi hi'

/-- Where no bracket has come in, tokens stand as deep as before. -/
theorem nestingAt_map (hnew : ∀ m q, (Outline.ofTokens list' end_).partner? m = some q → ∃ j, f j = m) :
    (Outline.ofTokens list' end_).nestingAt (f i) = (Outline.ofTokens list end_).nestingAt i := by
  have hall : around (Outline.ofTokens list' end_) (f i) =
      (around (Outline.ofTokens list end_) i).map ⟨f, hmono.injective⟩ := by
    ext m
    rw [Finset.mem_map]
    constructor
    · intro hm
      obtain ⟨-, q, hq, -⟩ := mem_around.mp hm
      obtain ⟨j, rfl⟩ := hnew m q hq
      exact ⟨j, (mem_around_map hmono hpartners).mp hm, rfl⟩
    · rintro ⟨j, hj, rfl⟩
      exact (mem_around_map hmono hpartners).mpr hj
  rw [nestingAt_eq_card hpaired hi, nestingAt_eq_card hpaired' hi', hall, Finset.card_map]

/-- Where one pair has come in, tokens between its brackets stand one deeper. -/
theorem nestingAt_map_of_pair {p q : Nat} (hpq : (Outline.ofTokens list' end_).partner? p = some q)
    (hlt : p < q) (hplace : ∀ j, f j ≠ p)
    (hnew : ∀ m r, (Outline.ofTokens list' end_).partner? m = some r → (∃ j, f j = m) ∨ m = p ∨ m = q) :
    (Outline.ofTokens list' end_).nestingAt (f i) =
      (Outline.ofTokens list end_).nestingAt i + if p < f i ∧ f i < q then 1 else 0 := by
  have hmem {m : Nat} : m ∈ around (Outline.ofTokens list' end_) (f i) ↔
      (∃ j ∈ around (Outline.ofTokens list end_) i, f j = m) ∨ m = p ∧ p < f i ∧ f i < q := by
    constructor
    · intro hm
      obtain ⟨hmi, r, hr, hir⟩ := mem_around.mp hm
      rcases hnew m r hr with ⟨j, rfl⟩ | rfl | rfl
      · exact .inl ⟨j, (mem_around_map hmono hpartners).mp hm, rfl⟩
      · obtain rfl := Option.some.inj (hpq.symm.trans hr)
        exact .inr ⟨rfl, hmi, hir⟩
      · have := Option.some.inj ((partner_symm hpq).symm.trans hr)
        omega
    · rintro (⟨j, hj, rfl⟩ | ⟨rfl, hpi, hiq⟩)
      · exact (mem_around_map hmono hpartners).mpr hj
      · exact mem_around.mpr ⟨hpi, q, hpq, hiq⟩
  rw [nestingAt_eq_card hpaired hi, nestingAt_eq_card hpaired' hi']
  split_ifs with hinside
  · have hall : around (Outline.ofTokens list' end_) (f i) =
        insert p ((around (Outline.ofTokens list end_) i).map ⟨f, hmono.injective⟩) := by
      ext m
      rw [hmem, Finset.mem_insert, Finset.mem_map]
      simp [hinside, or_comm]
    rw [hall, Finset.card_insert_of_notMem, Finset.card_map]
    rw [Finset.mem_map]
    rintro ⟨j, -, hj⟩
    exact hplace j hj
  · have hall : around (Outline.ofTokens list' end_) (f i) =
        (around (Outline.ofTokens list end_) i).map ⟨f, hmono.injective⟩ := by
      ext m
      rw [hmem, Finset.mem_map]
      simp [hinside]
    rw [hall, Finset.card_map, Nat.add_zero]

end

end HouseStyle.Outline
