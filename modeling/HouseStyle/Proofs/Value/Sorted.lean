import HouseStyle.Value.Sorting
import HouseStyle.Proofs.Text.Order
import HouseStyle.Proofs.Value.Entries
import Mathlib.Data.List.Pairwise

/-! Stable sorting. A sorted list is known by its items of each key and their order, and picking items
out of it is sorting the picked ones. Sorting by runs and merges keeps, of every key, the items that
the runs hold together, so where any two items can be compared it gives what any stable sort gives. -/

namespace HouseStyle

open Std

section

variable {α : Type} {cmp : α → α → Ordering}

/-! ### The items of each key -/

/-- Two lists have the same items of each key in the same order. -/
def SameOfKeys (cmp : α → α → Ordering) (xs ys : List α) : Prop :=
  ∀ a, xs.filter (fun b => cmp a b = .eq) = ys.filter fun b => cmp a b = .eq

namespace SameOfKeys

variable {xs ys zs xs' ys' : List α}

theorem refl (xs : List α) : SameOfKeys cmp xs xs := fun _ => rfl

theorem trans (h : SameOfKeys cmp xs ys) (h' : SameOfKeys cmp ys zs) : SameOfKeys cmp xs zs :=
  fun a => (h a).trans (h' a)

theorem append (h : SameOfKeys cmp xs ys) (h' : SameOfKeys cmp xs' ys') :
    SameOfKeys cmp (xs ++ xs') (ys ++ ys') := fun a => by
  rw [List.filter_append, List.filter_append, h a, h' a]

variable [TransCmp cmp]

theorem mem_iff (h : SameOfKeys cmp xs ys) {a : α} : a ∈ xs ↔ a ∈ ys := by
  have := congrArg (a ∈ ·) (h a)
  simpa [List.mem_filter, ReflCmp.compare_self] using this

/-- Lists without a common key may change places. -/
theorem append_comm (h : ∀ a ∈ xs, ∀ b ∈ ys, cmp a b ≠ .eq) :
    SameOfKeys cmp (xs ++ ys) (ys ++ xs) := by
  intro c
  rw [List.filter_append, List.filter_append]
  by_cases hx : ∃ a ∈ xs, cmp c a = .eq
  · obtain ⟨a, ha, hca⟩ := hx
    have hy : ys.filter (fun b => cmp c b = .eq) = [] := by
      refine List.filter_eq_nil_iff.mpr fun b hb hcb => h a ha b hb ?_
      exact TransCmp.eq_trans (OrientedCmp.eq_symm hca) (of_decide_eq_true hcb)
    rw [hy, List.append_nil, List.nil_append]
  · have hx : xs.filter (fun b => cmp c b = .eq) = [] :=
      List.filter_eq_nil_iff.mpr fun a ha hca => hx ⟨a, ha, of_decide_eq_true hca⟩
    rw [hx, List.append_nil, List.nil_append]

/-- Items that each come before the one in front of them are all of different keys. -/
theorem reverse (h : xs.Pairwise fun a b => cmp b a = .lt) : SameOfKeys cmp xs.reverse xs := by
  induction xs with
  | nil => exact refl _
  | cons a xs ih =>
    obtain ⟨ha, hxs⟩ := List.pairwise_cons.mp h
    rw [List.reverse_cons]
    refine ((ih hxs).append (refl [a])).trans (append_comm fun b hb c hc => ?_)
    obtain rfl := List.mem_singleton.mp hc
    rw [ha b hb]
    decide

end SameOfKeys

/-! ### Stable sorting -/

theorem ne_gt_eq_isLE : (fun a b => cmp a b != .gt) = fun a b => (cmp a b).isLE := by
  funext a b
  cases cmp a b <;> rfl

/-- A list in order stays as it is. -/
theorem mergeSort_eq_of_pairwise {xs : List α} (h : xs.Pairwise fun a b => (cmp a b).isLE) :
    (xs.mergeSort fun a b => cmp a b != .gt) = xs := by
  rw [ne_gt_eq_isLE]
  exact List.mergeSort_of_pairwise h

/-- What stands before the place of an item in a sorted list is what is less than the item. -/
theorem takeWhile_eq_left {a : α} {xs ys : List α} (hx : ∀ b ∈ xs, (cmp a b).isLE = false)
    (hy : ∀ b ∈ ys, (cmp a b).isLE) : (xs ++ ys).takeWhile (fun b => !(cmp a b).isLE) = xs := by
  rw [List.takeWhile_append_of_pos fun b hb => by simp [hx b hb]]
  cases ys with
  | nil => simp
  | cons b ys =>
    rw [List.takeWhile_cons_of_neg (by rw [hy b List.mem_cons_self]; decide), List.append_nil]

variable [TransCmp cmp]

theorem isLE_total (a b : α) : ((cmp a b).isLE || (cmp b a).isLE) = true := by
  have hswap : cmp b a = (cmp a b).swap := OrientedCmp.eq_swap
  rw [hswap]
  cases cmp a b <;> rfl

/-- Picking items out of a sorted list is sorting the picked ones. -/
theorem filter_mergeSort (p : α → Bool) (xs : List α) :
    (xs.mergeSort fun a b => cmp a b != .gt).filter p =
      (xs.filter p).mergeSort fun a b => cmp a b != .gt := by
  rw [ne_gt_eq_isLE]
  have htrans (a b c : α) (hab : (cmp a b).isLE) (hbc : (cmp b c).isLE) : (cmp a c).isLE :=
    TransCmp.isLE_trans hab hbc
  induction xs with
  | nil => simp
  | cons a xs ih =>
    obtain ⟨less, more, hsorted, hrest, hless⟩ := List.mergeSort_cons htrans isLE_total a xs
    rw [hrest, List.filter_append] at ih
    rw [hsorted, List.filter_append]
    by_cases ha : p a
    · rw [List.filter_cons_of_pos ha, List.filter_cons_of_pos ha]
      obtain ⟨less', more', hsorted', hrest', hless'⟩ :=
        List.mergeSort_cons htrans isLE_total a (xs.filter p)
      have hmore : ∀ b ∈ more, (cmp a b).isLE := by
        have := List.pairwise_mergeSort htrans isLE_total (a :: xs)
        rw [hsorted] at this
        exact (List.pairwise_cons.mp (List.pairwise_append.mp this).2.1).1
      have hmore' : ∀ b ∈ more', (cmp a b).isLE := by
        have := List.pairwise_mergeSort htrans isLE_total (a :: xs.filter p)
        rw [hsorted'] at this
        exact (List.pairwise_cons.mp (List.pairwise_append.mp this).2.1).1
      -- Both lists part at the place of the first item.
      have heq : less.filter p ++ more.filter p = less' ++ more' := ih.trans hrest'
      have hleft : less.filter p = less' := by
        have htake : (less' ++ more').takeWhile (fun b => !(cmp a b).isLE) = less' :=
          takeWhile_eq_left (fun b hb => by simpa using hless' b hb) hmore'
        rw [← htake, ← heq]
        refine (takeWhile_eq_left (fun b hb => ?_) fun b hb => ?_).symm
        · simpa using hless b (List.mem_filter.mp hb).1
        · exact hmore b (List.mem_filter.mp hb).1
      rw [hleft] at heq
      rw [hsorted', hleft, List.append_cancel_left heq]
    · rw [List.filter_cons_of_neg ha, List.filter_cons_of_neg ha, ih]

/-- Two lists in order are equal if they have the same items of each key in the same order. -/
theorem eq_of_sameOfKeys {xs ys : List α} (hx : xs.Pairwise fun a b => (cmp a b).isLE)
    (hy : ys.Pairwise fun a b => (cmp a b).isLE)
    (h : SameOfKeys cmp xs ys) : xs = ys := by
  induction xs generalizing ys with
  | nil =>
    cases ys with
    | nil => rfl
    | cons b ys => simpa [ReflCmp.compare_self] using h b
  | cons a xs ih =>
    cases ys with
    | nil => simpa [ReflCmp.compare_self] using h a
    | cons b ys =>
      obtain ⟨hax, hxs⟩ := List.pairwise_cons.mp hx
      obtain ⟨hby, hys⟩ := List.pairwise_cons.mp hy
      have hmem {c : α} : c ∈ a :: xs ↔ c ∈ b :: ys := h.mem_iff
      -- Each head stands in the other list, so neither is less than the other.
      have hab : (cmp a b).isLE := by
        rcases List.mem_cons.mp (hmem.mpr List.mem_cons_self) with rfl | hb
        · simp [ReflCmp.compare_self]
        · exact hax b hb
      have hba : (cmp b a).isLE := by
        rcases List.mem_cons.mp (hmem.mp List.mem_cons_self) with rfl | ha
        · simp [ReflCmp.compare_self]
        · exact hby a ha
      have hkey : cmp a b = .eq := OrientedCmp.isLE_antisymm hab hba
      have hhead := h a
      rw [List.filter_cons_of_pos (by simp [ReflCmp.compare_self]),
        List.filter_cons_of_pos (by simp [hkey])] at hhead
      obtain rfl := (List.cons.inj hhead).1
      congr 1
      refine ih hxs hys fun c => ?_
      have hc := h c
      simp only [List.filter_cons] at hc
      split_ifs at hc with hca
      · exact (List.cons.inj hc).2
      · exact hc

/-! ### Sorting by runs and merges -/

/-- A list in order, with the items of another and no more. -/
structure Sorts (cmp : α → α → Ordering) (xs ys : List α) : Prop where
  ordered : ys.Pairwise fun a b => (cmp a b).isLE
  same : SameOfKeys cmp ys xs

variable {ε : Type} {less : α → α → Except ε Bool} {P : α → Prop} {xs ys zs : List α}

/-- There is one list only that sorts another. -/
theorem Sorts.eq_mergeSort (h : Sorts cmp xs ys) :
    ys = xs.mergeSort fun a b => cmp a b != .gt := by
  have hordered : (xs.mergeSort fun a b => cmp a b != .gt).Pairwise fun a b => (cmp a b).isLE := by
    rw [ne_gt_eq_isLE]
    exact List.pairwise_mergeSort (fun _ _ _ => TransCmp.isLE_trans) isLE_total xs
  refine eq_of_sameOfKeys h.ordered hordered fun a => ?_
  rw [filter_mergeSort, h.same a, mergeSort_eq_of_pairwise]
  refine List.pairwise_iff_getElem.mpr fun i j hi hj _ => ?_
  have hkey {b : α} (hb : b ∈ xs.filter fun b => cmp a b = .eq) : cmp a b = .eq :=
    of_decide_eq_true (List.mem_filter.mp hb).2
  rw [TransCmp.eq_trans (OrientedCmp.eq_symm (hkey (List.getElem_mem hi)))
    (hkey (List.getElem_mem hj))]
  rfl

theorem isLE_of_not_lt {a b : α} (h : cmp b a ≠ .lt) : (cmp a b).isLE := by
  rw [show cmp a b = (cmp b a).swap from OrientedCmp.eq_swap]
  cases hba : cmp b a with
  | lt => exact absurd hba h
  | eq | gt => rfl

/-- A merge goes on with the first item of the left list where none comes before it. -/
theorem Sorts.cons_left {a : α} (h : Sorts cmp (xs ++ ys) zs)
    (hle : ∀ c ∈ xs ++ ys, (cmp a c).isLE) : Sorts cmp (a :: xs ++ ys) (a :: zs) where
  ordered := List.pairwise_cons.mpr ⟨fun c hc => hle c (h.same.mem_iff.mp hc), h.ordered⟩
  same := (SameOfKeys.refl [a]).append h.same

/-- A merge goes on with the first item of the right list where it comes before all of the left one. -/
theorem Sorts.cons_right {b : α} (h : Sorts cmp (xs ++ ys) zs) (hlt : ∀ c ∈ xs, cmp b c = .lt)
    (hle : ∀ c ∈ ys, (cmp b c).isLE) : Sorts cmp (xs ++ b :: ys) (b :: zs) where
  ordered := by
    refine List.pairwise_cons.mpr ⟨fun c hc => ?_, h.ordered⟩
    rcases List.mem_append.mp (h.same.mem_iff.mp hc) with hc | hc
    · rw [hlt c hc]
      rfl
    · exact hle c hc
  same := by
    have hmove : SameOfKeys cmp ([b] ++ xs) (xs ++ [b]) := .append_comm fun c hc d hd => by
      obtain rfl := List.mem_singleton.mp hc
      rw [hlt d hd]
      decide
    have hwhole := (SameOfKeys.refl [b]).append h.same |>.trans (by
      rw [← List.append_assoc]
      exact hmove.append (.refl ys))
    simpa using hwhole

/-- Of any two items of some kind it can be said which comes before the other. -/
def Decides (less : α → α → Except ε Bool) (cmp : α → α → Ordering) (P : α → Prop) : Prop :=
  ∀ a b, P a → P b → less a b = .ok (cmp a b = .lt)

section

variable (hless : Decides less cmp P)

include hless

omit [TransCmp cmp] in
/-- A run goes on as long as each item comes before the last one, or as long as none does. -/
theorem runLength_spec (down : Bool) {last : α} (hlast : P last) (hxs : ∀ a ∈ xs, P a) :
    ∃ n, runLength less down last xs = .ok n ∧
      (last :: xs.take n).IsChain fun a b => decide (cmp b a = .lt) = down := by
  induction xs generalizing last with
  | nil => exact ⟨0, rfl, .singleton _⟩
  | cons a xs ih =>
    obtain ⟨ha, hrest⟩ := List.forall_mem_cons.mp hxs
    rw [runLength, hless a last ha hlast, ok_bind]
    split_ifs with hdown
    · obtain ⟨n, hn, hchain⟩ := ih ha hrest
      rw [hn, ok_bind]
      refine ⟨1 + n, rfl, ?_⟩
      rw [Nat.add_comm, List.take_succ_cons]
      exact .cons_cons hdown hchain
    · exact ⟨0, rfl, .singleton _⟩

/-- Halving finds a place such that no item before it comes after the new one, and all behind it do. -/
theorem placeIn_spec {a : α} (ha : P a) (hxs : ∀ b ∈ xs, P b)
    (hordered : xs.Pairwise fun b c => (cmp b c).isLE) (low high : Nat) (hle : low ≤ high)
    (hhigh : high ≤ xs.length) (hbefore : ∀ b ∈ xs.take low, (cmp b a).isLE)
    (hbehind : ∀ b ∈ xs.drop high, cmp a b = .lt) :
    ∃ n, placeIn less xs a low high = .ok n ∧ (∀ b ∈ xs.take n, (cmp b a).isLE) ∧
      ∀ b ∈ xs.drop n, cmp a b = .lt := by
  induction low, high using placeIn.induct xs with
  | case1 low high hlt middle hnone =>
    exact absurd (List.getElem?_eq_none_iff.mp hnone) (by omega)
  | case2 low high hlt middle b hb ihleft ihright =>
    obtain ⟨hmiddle, rfl⟩ := List.getElem?_eq_some_iff.mp hb
    rw [placeIn, if_pos hlt]
    simp only [show (low + high) / 2 = middle from rfl, hb]
    rw [hless a _ ha (hxs _ (List.getElem_mem hmiddle)), ok_bind]
    have hparts := hordered
    rw [← List.take_append_drop middle xs, List.drop_eq_getElem_cons hmiddle,
      List.pairwise_append, List.pairwise_cons] at hparts
    obtain ⟨-, ⟨hright, -⟩, hleft⟩ := hparts
    split_ifs with hlt'
    · refine ihleft (by omega) (by omega) hbefore fun c hc => ?_
      rw [List.drop_eq_getElem_cons hmiddle] at hc
      rcases List.mem_cons.mp hc with rfl | hc
      · exact of_decide_eq_true hlt'
      · exact TransCmp.lt_of_lt_of_isLE (of_decide_eq_true hlt') (hright c hc)
    · have hmiddle' : (cmp xs[middle] a).isLE := isLE_of_not_lt (of_decide_eq_false (by simpa using hlt'))
      refine ihright (by omega) (by omega) (fun c hc => ?_) hbehind
      rw [List.take_succ_eq_append_getElem hmiddle] at hc
      rcases List.mem_append.mp hc with hc | hc
      · exact TransCmp.isLE_trans (hleft c hc _ List.mem_cons_self) hmiddle'
      · rwa [List.mem_singleton.mp hc]
  | case3 low high hlt =>
    obtain rfl : low = high := by omega
    rw [placeIn, if_neg hlt]
    exact ⟨low, rfl, hbefore, hbehind⟩

theorem insertInto_spec {a : α} (ha : P a) (hxs : ∀ b ∈ xs, P b) (h : Sorts cmp zs xs) :
    ∃ ys, insertInto less xs a = .ok ys ∧ Sorts cmp (zs ++ [a]) ys := by
  obtain ⟨n, hn, hbefore, hbehind⟩ := placeIn_spec hless ha hxs h.ordered 0 xs.length (Nat.zero_le _)
    (Nat.le_refl _) (by simp) (by simp)
  rw [insertInto, hn, ok_bind]
  refine ⟨_, rfl, ?_, ?_⟩
  · have hordered := h.ordered
    rw [← List.take_append_drop n xs, List.pairwise_append] at hordered
    obtain ⟨htake, hdrop, hacross⟩ := hordered
    refine List.pairwise_append.mpr ⟨htake, List.pairwise_cons.mpr ⟨fun b hb => ?_, hdrop⟩,
      fun b hb c hc => ?_⟩
    · rw [hbehind b hb]
      rfl
    · rcases List.mem_cons.mp hc with rfl | hc
      · exact hbefore b hb
      · exact hacross b hb c hc
  · have hmove : SameOfKeys cmp ([a] ++ xs.drop n) (xs.drop n ++ [a]) := .append_comm fun b hb c hc => by
      obtain rfl := List.mem_singleton.mp hb
      rw [hbehind c hc]
      decide
    have hwhole : SameOfKeys cmp (xs.take n ++ ([a] ++ xs.drop n)) (xs ++ [a]) := by
      conv => arg 3; rw [← List.take_append_drop n xs, List.append_assoc]
      exact (SameOfKeys.refl _).append hmove
    exact hwhole.trans (h.same.append (.refl _))

theorem insertAll_spec {more : List α} (hzs : ∀ a ∈ zs, P a) (hmore : ∀ a ∈ more, P a)
    (h : Sorts cmp zs xs) :
    ∃ ys, more.foldlM (insertInto less) xs = .ok ys ∧ Sorts cmp (zs ++ more) ys := by
  induction more generalizing zs xs with
  | nil => exact ⟨xs, rfl, by rwa [List.append_nil]⟩
  | cons a more ih =>
    obtain ⟨ha, hmore⟩ := List.forall_mem_cons.mp hmore
    obtain ⟨ys, hys, hsorts⟩ :=
      insertInto_spec hless ha (fun b hb => hzs b (h.same.mem_iff.mp hb)) h
    rw [List.foldlM_cons, hys, ok_bind, List.append_cons]
    exact ih (List.forall_mem_append.mpr ⟨hzs, by simpa using ha⟩) hmore hsorts

/-- The first run is in order and leaves fewer items than there are. -/
theorem firstRun_spec (shortest : Nat) (hxs : ∀ a ∈ xs, P a) (hne : xs ≠ []) :
    ∃ run taken left, firstRun less shortest xs = .ok (run, left) ∧ xs = taken ++ left ∧
      taken ≠ [] ∧ Sorts cmp taken run := by
  match xs with
  | [] => exact absurd rfl hne
  | [a] => exact ⟨[a], [a], [], rfl, rfl, hne, List.pairwise_singleton _ _, .refl _⟩
  | a :: b :: rest =>
    obtain ⟨ha, hrest⟩ := List.forall_mem_cons.mp hxs
    obtain ⟨hb, hrest⟩ := List.forall_mem_cons.mp hrest
    rw [firstRun, hless b a hb ha, ok_bind]
    generalize hdown : decide (cmp b a = .lt) = down
    obtain ⟨n, hn, hchain⟩ := runLength_spec hless down hb hrest
    rw [hn, ok_bind]
    have hchain : (a :: b :: rest.take n).IsChain fun a b => decide (cmp b a = .lt) = down :=
      .cons_cons hdown hchain
    have hrun : Sorts cmp (a :: b :: rest.take n)
        (if down then (a :: b :: rest.take n).reverse else a :: b :: rest.take n) := by
      cases down with
      | true =>
        have : Trans (fun a b => cmp b a = .lt) (fun a b => cmp b a = .lt) fun a b => cmp b a = .lt :=
          ⟨fun h h' => TransCmp.lt_trans h' h⟩
        have hpairs : (a :: b :: rest.take n).Pairwise fun a b => cmp b a = .lt :=
          (hchain.imp fun _ _ h => of_decide_eq_true h).pairwise
        refine ⟨(List.pairwise_reverse.mpr hpairs).imp fun h => ?_, .reverse hpairs⟩
        rw [h]
        rfl
      | false =>
        have : Trans (fun a b => (cmp a b).isLE = true) (fun a b => (cmp a b).isLE = true)
            fun a b => (cmp a b).isLE = true := ⟨TransCmp.isLE_trans⟩
        exact ⟨(hchain.imp fun _ _ h => isLE_of_not_lt (of_decide_eq_false h)).pairwise, .refl _⟩
    have htake : ∀ c ∈ a :: b :: rest.take n, P c := by
      refine List.forall_mem_cons.mpr ⟨ha, List.forall_mem_cons.mpr ⟨hb, fun c hc => ?_⟩⟩
      exact hrest c (List.mem_of_mem_take hc)
    have hmore : ∀ c ∈ (rest.drop n).take (shortest - (a :: b :: rest.take n).length), P c :=
      fun c hc => hrest c (List.mem_of_mem_drop (List.mem_of_mem_take hc))
    obtain ⟨run, hins, hsorts⟩ := insertAll_spec hless htake hmore hrun
    simp only [hins, ok_bind]
    refine ⟨run, _, _, rfl, ?_, ?_, hsorts⟩
    · rw [List.append_assoc, List.take_append_drop, List.cons_append, List.cons_append,
        List.take_append_drop]
    · exact List.cons_ne_nil _ _

theorem merged_spec (hxs : ∀ a ∈ xs, P a) (hys : ∀ a ∈ ys, P a)
    (hx : xs.Pairwise fun a b => (cmp a b).isLE) (hy : ys.Pairwise fun a b => (cmp a b).isLE) :
    ∃ zs, merged less xs ys = .ok zs ∧ Sorts cmp (xs ++ ys) zs := by
  induction xs, ys using merged.induct with
  | case1 bs => exact ⟨bs, by rw [merged], hy, .refl _⟩
  | case2 as hne =>
    rw [List.append_nil]
    refine ⟨as, ?_, hx, .refl _⟩
    cases as with
    | nil => exact absurd rfl hne
    | cons a as =>
      rw [merged]
      exact hne
  | case3 a as b bs ihright ihleft =>
    obtain ⟨ha, has⟩ := List.forall_mem_cons.mp hxs
    obtain ⟨hb, hbs⟩ := List.forall_mem_cons.mp hys
    obtain ⟨hale, hx'⟩ := List.pairwise_cons.mp hx
    obtain ⟨hble, hy'⟩ := List.pairwise_cons.mp hy
    rw [merged, hless b a hb ha, ok_bind]
    split_ifs with hlt
    · have hlt : cmp b a = .lt := of_decide_eq_true hlt
      have hlts : ∀ c ∈ a :: as, cmp b c = .lt :=
        List.forall_mem_cons.mpr ⟨hlt, fun c hc => TransCmp.lt_of_lt_of_isLE hlt (hale c hc)⟩
      obtain ⟨zs, hzs, hsorts⟩ := ihright hxs hbs hx hy'
      rw [hzs, ok_bind]
      exact ⟨b :: zs, rfl, hsorts.cons_right hlts hble⟩
    · have hle : (cmp a b).isLE := isLE_of_not_lt (by simpa using hlt)
      obtain ⟨zs, hzs, hsorts⟩ := ihleft has hys hx' hy
      rw [hzs, ok_bind]
      refine ⟨a :: zs, rfl, hsorts.cons_left (List.forall_mem_append.mpr ⟨hale, ?_⟩)⟩
      exact List.forall_mem_cons.mpr ⟨hle, fun c hc => TransCmp.isLE_trans hle (hble c hc)⟩

end

/-! ### Waiting runs -/

/-- The items of waiting runs, the last run on top. -/
def WaitingRun.all (waiting : List (WaitingRun α)) : List α :=
  (waiting.map WaitingRun.items).reverse.flatten

/-- Waiting runs and one after them hold some items, each run in order. -/
structure Holds (cmp : α → α → Ordering) (waiting : List (WaitingRun α)) (last xs : List α) :
    Prop where
  runs : ∀ run ∈ waiting, run.items.Pairwise fun a b => (cmp a b).isLE
  ordered : last.Pairwise fun a b => (cmp a b).isLE
  same : SameOfKeys cmp (WaitingRun.all waiting ++ last) xs

variable {waiting : List (WaitingRun α)} {top next : WaitingRun α} {last : List α}

theorem WaitingRun.all_cons :
    WaitingRun.all (top :: waiting) = WaitingRun.all waiting ++ top.items := by
  rw [all, List.map_cons, List.reverse_cons, List.flatten_append, List.flatten_singleton, all]

/-- What the runs hold is of a kind if all items are. -/
theorem Holds.forall_mem (h : Holds cmp (top :: waiting) last xs) (hxs : ∀ a ∈ xs, P a) :
    (∀ a ∈ top.items, P a) ∧ ∀ a ∈ last, P a := by
  have hall (a : α) (ha : a ∈ WaitingRun.all waiting ++ top.items ++ last) : P a := by
    rw [← WaitingRun.all_cons] at ha
    exact hxs a (h.same.mem_iff.mp ha)
  exact ⟨fun a ha => hall a (by simp [ha]), fun a ha => hall a (by simp [ha])⟩

section

variable (hless : Decides less cmp P)

include hless

/-- The last run merged with the one before it. -/
theorem Holds.merge (h : Holds cmp (top :: waiting) last xs) (hxs : ∀ a ∈ xs, P a) :
    ∃ both, merged less top.items last = .ok both ∧ Holds cmp waiting both xs := by
  obtain ⟨htop, hlast⟩ := h.forall_mem hxs
  obtain ⟨hordered, hwaiting⟩ := List.forall_mem_cons.mp h.runs
  obtain ⟨both, hboth, hsorts⟩ := merged_spec hless htop hlast hordered h.ordered
  refine ⟨both, hboth, hwaiting, hsorts.ordered, ?_⟩
  have hsame := h.same
  rw [WaitingRun.all_cons, List.append_assoc] at hsame
  exact ((SameOfKeys.refl _).append hsorts.same).trans hsame

/-- The two runs before the last one merged. -/
theorem Holds.mergeBefore (h : Holds cmp (top :: next :: waiting) last xs) (hxs : ∀ a ∈ xs, P a) :
    ∃ both, merged less next.items top.items = .ok both ∧
      Holds cmp ({ next with items := both } :: waiting) last xs := by
  obtain ⟨hordered, hwaiting⟩ := List.forall_mem_cons.mp h.runs
  have hsame := h.same
  have hbefore : Holds cmp (next :: waiting) top.items (WaitingRun.all (top :: next :: waiting)) :=
    ⟨hwaiting, hordered, WaitingRun.all_cons ▸ .refl _⟩
  have hall : ∀ a ∈ WaitingRun.all (top :: next :: waiting), P a := fun a ha =>
    hxs a (hsame.mem_iff.mp (List.mem_append_left _ ha))
  obtain ⟨both, hboth, hholds⟩ := hbefore.merge hless hall
  refine ⟨both, hboth, List.forall_mem_cons.mpr ⟨hholds.ordered, hholds.runs⟩, h.ordered, ?_⟩
  rw [WaitingRun.all_cons]
  exact (hholds.same.append (.refl last)).trans hsame

theorem mergeLater_spec (cut : Nat) (h : Holds cmp waiting last xs) (hxs : ∀ a ∈ xs, P a) :
    ∃ both left, mergeLater less cut last waiting = .ok (both, left) ∧ Holds cmp left both xs := by
  induction waiting generalizing last with
  | nil => exact ⟨last, [], rfl, h⟩
  | cons top waiting ih =>
    rw [mergeLater]
    split_ifs
    · obtain ⟨both, hboth, hholds⟩ := h.merge hless hxs
      rw [hboth, ok_bind]
      exact ih hholds
    · exact ⟨last, top :: waiting, rfl, h⟩

theorem mergeAll_spec (h : Holds cmp waiting last xs) (hxs : ∀ a ∈ xs, P a) :
    ∃ ys, mergeAll less last waiting = .ok ys ∧ Sorts cmp xs ys := by
  induction last, waiting using mergeAll.induct with
  | case1 last => exact ⟨last, by rw [mergeAll], h.ordered, h.same⟩
  | case2 last top =>
    obtain ⟨both, hboth, hholds⟩ := h.merge hless hxs
    exact ⟨both, by rw [mergeAll, hboth], hholds.ordered, hholds.same⟩
  | case3 last top next rest hshort ih =>
    obtain ⟨both, hboth, hholds⟩ := h.mergeBefore hless hxs
    rw [mergeAll, if_pos hshort, hboth, ok_bind]
    exact ih both hholds
  | case4 last top next rest hshort ih =>
    obtain ⟨both, hboth, hholds⟩ := h.merge hless hxs
    rw [mergeAll, if_neg hshort, hboth, ok_bind]
    exact ih both hholds

/-- Cutting run after run comes to an end, since each run has an item. -/
theorem sortRuns_spec (n shortest start : Nat) {fuel : Nat} {left : List α}
    (h : Holds cmp waiting last xs) (hxs : ∀ a ∈ xs, P a) (hleft : ∀ a ∈ left, P a)
    (hfuel : left.length ≤ fuel) :
    ∃ ys, sortRuns less n shortest fuel start last waiting left = .ok ys ∧
      Sorts cmp (xs ++ left) ys := by
  induction fuel generalizing start last waiting left xs with
  | zero =>
    obtain rfl := List.length_eq_zero_iff.mp (Nat.le_zero.mp hfuel)
    rw [List.append_nil]
    exact mergeAll_spec hless h hxs
  | succ fuel ih =>
    rw [sortRuns]
    by_cases hne : left = []
    · subst hne
      rw [if_pos List.isEmpty_nil, List.append_nil]
      exact mergeAll_spec hless h hxs
    · rw [if_neg (by simpa using hne)]
      obtain ⟨run, taken, rest, hfirst, rfl, htaken, hsorts⟩ := firstRun_spec hless shortest hleft hne
      obtain ⟨htake, hrest⟩ := List.forall_mem_append.mp hleft
      simp only [hfirst, ok_bind]
      generalize halvings n n _ _ = cut
      obtain ⟨both, waiting', hmerge, hholds⟩ := mergeLater_spec hless cut h hxs
      rw [hmerge, ok_bind, ← List.append_assoc]
      refine ih _ ⟨List.forall_mem_cons.mpr ⟨hholds.ordered, hholds.runs⟩, hsorts.ordered, ?_⟩
        (List.forall_mem_append.mpr ⟨hxs, htake⟩) hrest ?_
      · rw [WaitingRun.all_cons]
        exact hholds.same.append hsorts.same
      · have := List.length_pos_iff.mpr htaken
        rw [List.length_append] at hfuel
        omega

end

/-- Where any two items can be compared, sorting by runs gives what any stable sort gives. -/
theorem sortBy_eq (hless : Decides less cmp (· ∈ xs)) :
    sortBy less xs = .ok (xs.mergeSort fun a b => cmp a b != .gt) := by
  rw [sortBy]
  by_cases hne : xs = []
  · subst hne
    simp [firstRun, ok_bind, sortRuns, mergeAll]
  · obtain ⟨run, taken, rest, hfirst, hxs, htaken, hsorts⟩ :=
      firstRun_spec hless (shortestRun xs.length) (fun _ h => h) hne
    simp only [hfirst, ok_bind]
    have hall : ∀ a ∈ taken ++ rest, a ∈ xs := fun a ha => hxs ▸ ha
    obtain ⟨htake, hrest⟩ := List.forall_mem_append.mp hall
    have hholds : Holds cmp [] run taken := ⟨by simp, hsorts.ordered, hsorts.same⟩
    have hfuel : rest.length ≤ xs.length := by
      rw [hxs, List.length_append]
      omega
    obtain ⟨ys, hys, hsorts⟩ :=
      sortRuns_spec hless xs.length (shortestRun xs.length) 0 hholds htake hrest hfuel
    rw [hys, hsorts.eq_mergeSort, ← hxs]

end

end HouseStyle
