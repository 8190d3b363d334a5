import HouseStyle.Edit.Apply
import Mathlib.Order.Compare

/-! The order of texts is total: texts that compare as equal are equal. The orders built on it are
total preorders, and lists sorted by them are in order. -/

namespace HouseStyle

open Std

/-- Texts are compared like lists of codes. -/
theorem Text.compare_eq_compareLex (s t : Text) :
    Text.compare s t = List.compareLex (compareOn Sym.code) s t := by
  induction s generalizing t with
  | nil => cases t <;> rfl
  | cons a s ih =>
    cases t with
    | nil => rfl
    | cons b t =>
      rw [Text.compare, List.compareLex_cons_cons, compareOn, ih]
      by_cases hlt : a.code < b.code
      · simp [hlt, Nat.compare_eq_lt.mpr hlt]
      · by_cases hgt : b.code < a.code
        · simp [hlt, hgt, Nat.compare_eq_gt.mpr hgt]
        · have heq : a.code = b.code := by omega
          simp [heq]

instance Text.instTransCmpCompare : TransCmp Text.compare := by
  have h : Text.compare = List.compareLex (compareOn Sym.code) := by
    funext s t
    exact Text.compare_eq_compareLex s t
  rw [h]
  infer_instance

theorem Sym.code_injective : Function.Injective Sym.code := by
  have hchar (c : Char) : c.toNat < 0xD800 ∨ 0xDFFF < c.toNat := c.valid.imp_right And.left
  intro a b h
  cases a with
  | char c =>
    have := hchar c
    cases b with
    | char d => exact congrArg Sym.char (Char.ext (UInt32.toNat_inj.mp h))
    | stray low => simp only [Sym.code] at h; omega
    | half n => simp only [Sym.code] at h; split at h <;> omega
  | stray low =>
    cases b with
    | char d => have := hchar d; simp only [Sym.code] at h; omega
    | stray low' => exact congrArg Sym.stray (Fin.ext (by simp only [Sym.code] at h; omega))
    | half n => simp only [Sym.code] at h; split at h <;> omega
  | half n =>
    cases b with
    | char d => have := hchar d; simp only [Sym.code] at h; split at h <;> omega
    | stray low => simp only [Sym.code] at h; split at h <;> omega
    | half n' =>
      refine congrArg Sym.half (Fin.ext ?_)
      simp only [Sym.code] at h
      split at h <;> split at h <;> omega

/-- Texts that compare as equal are equal. -/
theorem Text.eq_of_compare {s t : Text} (h : Text.compare s t = .eq) : s = t := by
  induction s generalizing t with
  | nil =>
    cases t with
    | nil => rfl
    | cons b t => cases h
  | cons a s ih =>
    cases t with
    | nil => cases h
    | cons b t =>
      rw [Text.compare] at h
      split_ifs at h
      have hcode : a.code = b.code := by omega
      rw [Sym.code_injective hcode, ih h]

theorem Text.compare_eq_lt {s t : Text} (hle : (Text.compare s t).isLE) (hne : s ≠ t) :
    Text.compare s t = .lt := by
  cases h : Text.compare s t with
  | lt => rfl
  | eq => exact absurd (Text.eq_of_compare h) hne
  | gt =>
    rw [h] at hle
    cases hle

/-- A comparison through a key. -/
instance instTransCmpKey {α β : Type} {cmp : β → β → Ordering} [TransCmp cmp] (f : α → β) :
    TransCmp fun a b => cmp (f a) (f b) where
  eq_swap := OrientedCmp.eq_swap
  isLE_trans := TransCmp.isLE_trans

/-- A list sorted by a total preorder is in order. -/
theorem pairwise_mergeSort_of_transCmp {α : Type} {cmp : α → α → Ordering} [TransCmp cmp]
    (xs : List α) : (xs.mergeSort fun a b => cmp a b != .gt).Pairwise fun a b => (cmp a b).isLE := by
  have hle : (fun a b => cmp a b != .gt) = fun a b => (cmp a b).isLE := by
    funext a b
    cases cmp a b <;> rfl
  rw [hle]
  refine List.pairwise_mergeSort (fun a b c => TransCmp.isLE_trans) (fun a b => ?_) xs
  have hswap : cmp b a = (cmp a b).swap := OrientedCmp.eq_swap
  rw [hswap]
  cases cmp a b <;> rfl

end HouseStyle
