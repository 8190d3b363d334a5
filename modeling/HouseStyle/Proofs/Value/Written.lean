import HouseStyle.Fault
import Mathlib.Tactic.SplitIfs

/-! Scalars as text. A number, a date or a moment is written with digits and few other symbols, so a
name that has another symbol in it is the text of nothing but itself. -/

namespace HouseStyle

/-! ### Numerals -/

/-- The symbols that numbers, dates and moments are written with. -/
def Sym.isNumeral : Sym → Bool
  | .char c => c.isDigit || "+-.: aefin".toList.contains c
  | _ => false

/-- A text of such symbols. -/
def Text.IsNumeral (t : Text) : Prop := ∀ s ∈ t, s.isNumeral

namespace Text.IsNumeral

variable {s t : Text}

instance : Decidable (IsNumeral t) := inferInstanceAs (Decidable (∀ s ∈ t, s.isNumeral))

theorem append (hs : IsNumeral s) (ht : IsNumeral t) : IsNumeral (s ++ t) :=
  List.forall_mem_append.mpr ⟨hs, ht⟩

theorem cons {a : Sym} (ha : a.isNumeral) (ht : IsNumeral t) : IsNumeral (a :: t) :=
  List.forall_mem_cons.mpr ⟨ha, ht⟩

theorem ite {p : Prop} [Decidable p] (hs : IsNumeral s) (ht : IsNumeral t) :
    IsNumeral (if p then s else t) := by
  by_cases hp : p
  · rwa [if_pos hp]
  · rwa [if_neg hp]

theorem take (h : IsNumeral t) (n : Nat) : IsNumeral (t.take n) :=
  fun s hs => h s (List.mem_of_mem_take hs)

theorem drop (h : IsNumeral t) (n : Nat) : IsNumeral (t.drop n) :=
  fun s hs => h s (List.mem_of_mem_drop hs)

theorem zeros (n : Nat) : IsNumeral (fill n '0') := by
  intro s hs
  rw [List.eq_of_mem_replicate hs]
  rfl

theorem ofNat (n : Nat) : IsNumeral (Text.ofNat n) := by
  refine List.forall_mem_map.mpr fun c hc => Bool.or_eq_true_iff.mpr (.inl ?_)
  rw [Nat.toList_repr] at hc
  exact Nat.isDigit_of_mem_toDigits (by decide) (by decide) hc

theorem ofInt (n : Int) : IsNumeral (Text.ofInt n) := by
  cases n with
  | ofNat n => exact ofNat n
  | negSucc n => exact cons rfl (ofNat (n + 1))

theorem padded (width n : Nat) : IsNumeral (Calendar.padded width n) := (zeros _).append (ofNat n)

theorem joinWith {sep : Text} (hsep : IsNumeral sep) {parts : List Text}
    (hparts : ∀ t ∈ parts, IsNumeral t) : IsNumeral (Text.joinWith sep parts) := by
  induction parts with
  | nil => simp [Text.joinWith, IsNumeral]
  | cons t rest ih =>
    obtain ⟨ht, hrest⟩ := List.forall_mem_cons.mp hparts
    cases rest with
    | nil => exact ht
    | cons _ _ => exact (ht.append hsep).append (ih hrest)

end Text.IsNumeral

open Text

theorem Decimal.isNumeral_finiteText (m : Nat) (e : Int) : (finiteText m e).IsNumeral := by
  have hdigits : IsNumeral (Text.ofNat m) := .ofNat m
  have hpositional (point : Int) : IsNumeral
      (if point ≤ 0 then "0." ++ fill (-point).toNat '0' ++ Text.ofNat m
        else if 0 ≤ e then Text.ofNat m ++ fill e.toNat '0' ++ ".0"
        else (Text.ofNat m).take point.toNat ++ "." ++ (Text.ofNat m).drop point.toNat) :=
    .ite ((IsNumeral.append (by decide) (.zeros _)).append hdigits)
      (.ite ((hdigits.append (.zeros _)).append (by decide))
        (((hdigits.take _).append (by decide)).append (hdigits.drop _)))
  have hfraction : IsNumeral (if ((Text.ofNat m).drop 1).isEmpty then []
      else .char '.' :: (Text.ofNat m).drop 1) :=
    .ite (by decide) (.cons rfl (hdigits.drop 1))
  have hpower (p : Text) (hp : IsNumeral p) : IsNumeral (if p.length < 2 then .char '0' :: p else p) :=
    .ite (.cons rfl hp) hp
  have hsign (power : Int) : IsNumeral (Text.ofString (if power < 0 then "e-" else "e+")) := by
    by_cases h : power < 0
    · rw [if_pos h]
      decide
    · rw [if_neg h]
      decide
  rw [finiteText]
  exact .ite (by decide) (.ite (hpositional _)
    ((((hdigits.take 1).append hfraction).append (hsign _)).append (hpower _ (.ofNat _))))

theorem Decimal.isNumeral_text (x : Decimal) : x.text.IsNumeral := by
  have hsign (negative : Bool) : IsNumeral (if negative then ("-" : Text) else []) :=
    .ite (by decide) (by decide)
  cases x with
  | finite negative m e => exact (hsign negative).append (isNumeral_finiteText m e)
  | infinite negative => exact (hsign negative).append (by decide)
  | notANumber => decide

theorem Date.isNumeral_text (d : Date) : d.text.IsNumeral :=
  ((((IsNumeral.padded _ _).append (by decide)).append (.padded _ _)).append (by decide)).append
    (.padded _ _)

theorem Moment.isNumeral_text (m : Moment) : m.text.IsNumeral := by
  have hclock : IsNumeral (Text.joinWith ":" ([m.hour, m.minute, m.second].map (Calendar.padded 2))) :=
    .joinWith (by decide) (List.forall_mem_map.mpr fun n _ => .padded 2 n)
  have hmicro : IsNumeral (if m.micro = 0 then [] else .char '.' :: Calendar.padded 6 m.micro) :=
    .ite (by decide) (.cons rfl (.padded 6 _))
  have hahead : IsNumeral ((m.ahead.map aheadText).getD []) := by
    cases m.ahead with
    | none => decide
    | some minutes =>
      exact (((IsNumeral.ite (by decide) (by decide)).append (.padded 2 _)).append (by decide)).append
        (.padded 2 _)
  exact (((m.date.isNumeral_text.append (by decide)).append hclock).append hmicro).append hahead

/-! ### Names -/

theorem Value.asText_of_asTextOrFault {v : Value} {t : Text} (h : v.asTextOrFault = .ok t) :
    v.asText = t := by
  unfold asTextOrFault written? at h
  split at h
  · rename_i hwritten
    split_ifs at hwritten
    cases hwritten
    cases h
    rfl
  · cases h

/-- A name that no number, word of the language or bytes are written as is the text of no scalar but
itself. -/
theorem Scalar.eq_text_of_asText {s : Scalar} {name : Text} (h : (Value.scalar s).asText = name)
    (hnumeral : ¬name.IsNumeral) (hbytes : name.head? ≠ some (.char 'b'))
    (hwords : name ∉ ["None", "True", "False"].map Text.ofString) : s = .text name := by
  subst h
  cases s with
  | null => exact absurd (by decide) hwords
  | bool b => cases b <;> exact absurd (by decide) hwords
  | int n => exact absurd (.ofInt n) hnumeral
  | decimal x => exact absurd x.isNumeral_text hnumeral
  | text t => rfl
  | bytes bs => exact absurd rfl hbytes
  | date d => exact absurd d.isNumeral_text hnumeral
  | moment m => exact absurd m.isNumeral_text hnumeral

end HouseStyle
