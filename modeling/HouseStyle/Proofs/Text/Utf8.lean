import HouseStyle.Text.Case
import HouseStyle.Text.Utf8
import Mathlib.Data.List.TakeWhile
import Mathlib.Tactic.SplitIfs

/-! Bytes and texts. Whatever the bytes are, a text that was read from them is written back as the
same bytes. The other way round a text reads back as itself if no stray bytes in it stand so that
they make up a character. A text that was read from bytes is such a text, and texts of this kind may
be put together wherever no stray byte meets another one. -/

namespace HouseStyle.Text

/-! ### Characters as bytes -/

theorem isTail_iff {b : UInt8} : isTail b ↔ 0x80 ≤ b.toNat ∧ b.toNat ≤ 0xBF := by
  rw [isTail, Bool.and_eq_true, decide_eq_true_eq, decide_eq_true_eq, UInt8.le_iff_toNat_le,
    UInt8.le_iff_toNat_le]
  rfl

theorem toNat_bounds (c : Char) : c.toNat < 0xD800 ∨ 0xDFFF < c.toNat ∧ c.toNat < 0x110000 :=
  c.valid

theorem toNat_ofNat {n : Nat} (h : n < 0xD800 ∨ 0xDFFF < n ∧ n < 0x110000) :
    (Char.ofNat n).toNat = n := by
  rw [Char.ofNat, dif_pos h]
  rfl

theorem leadingChar?_encodeCode (c : Char) (rest : List UInt8) :
    leadingChar? (encodeCode c.toNat ++ rest) = some (c, (encodeCode c.toNat).length - 1) := by
  have hc := toNat_bounds c
  have hback (n : Nat) (h : n = c.toNat) : Char.ofNat n = c := by rw [h, Char.ofNat_toNat]
  unfold encodeCode
  split_ifs with h₁ h₂ h₃
  · simp only [List.cons_append, List.nil_append, leadingChar?]
    rw [if_pos (by rw [UInt8.toNat_ofNat']; omega), hback _ (by rw [UInt8.toNat_ofNat']; omega)]
    rfl
  · simp only [List.cons_append, List.nil_append, leadingChar?]
    rw [if_neg (by rw [UInt8.toNat_ofNat']; omega), if_pos]
    · simp only [UInt8.toNat_ofNat']
      rw [hback _ (by omega)]
      rfl
    · simp only [Bool.and_eq_true, decide_eq_true_eq, isTail_iff, UInt8.toNat_ofNat']
      omega
  · simp only [List.cons_append, List.nil_append, leadingChar?]
    rw [if_neg (by rw [UInt8.toNat_ofNat']; omega), if_neg, if_pos, if_pos]
    · simp only [UInt8.toNat_ofNat']
      rw [hback _ (by omega)]
      rfl
    · simp only [UInt8.toNat_ofNat', Bool.and_eq_true, Bool.or_eq_true, decide_eq_true_eq]
      omega
    · simp only [Bool.and_eq_true, decide_eq_true_eq, isTail_iff, UInt8.toNat_ofNat']
      omega
    · simp only [Bool.and_eq_true, decide_eq_true_eq, isTail_iff, UInt8.toNat_ofNat']
      omega
  · simp only [List.cons_append, List.nil_append, leadingChar?]
    rw [if_neg (by rw [UInt8.toNat_ofNat']; omega), if_neg, if_neg, if_pos, if_pos]
    · simp only [UInt8.toNat_ofNat']
      rw [hback _ (by omega)]
      rfl
    · simp only [UInt8.toNat_ofNat', Bool.and_eq_true, decide_eq_true_eq]
      omega
    · simp only [Bool.and_eq_true, decide_eq_true_eq, isTail_iff, UInt8.toNat_ofNat']
      omega
    · simp only [Bool.and_eq_true, decide_eq_true_eq, isTail_iff, UInt8.toNat_ofNat']
      omega
    · simp only [Bool.and_eq_true, decide_eq_true_eq, isTail_iff, UInt8.toNat_ofNat']
      omega

theorem ofNat_eq {n : Nat} {b : UInt8} (h : n = b.toNat) : UInt8.ofNat n = b := by
  rw [h, UInt8.ofNat_toNat]

theorem encodeCode_of_leadingChar? {bytes : List UInt8} {c : Char} {k : Nat}
    (h : leadingChar? bytes = some (c, k)) :
    encodeCode c.toNat <+: bytes ∧ (encodeCode c.toNat).length = k + 1 := by
  unfold leadingChar? at h
  split at h
  · cases h
  next a rest =>
  have ha := a.toNat_lt
  simp only at h
  split at h
  · next hn =>
    cases h
    rw [toNat_ofNat (by omega), encodeCode, if_pos hn, ofNat_eq rfl]
    exact ⟨⟨rest, rfl⟩, rfl⟩
  next hn =>
  split at h
  · next b rest =>
    split at h
    · next htwo =>
      simp only [Bool.and_eq_true, decide_eq_true_eq, isTail_iff] at htwo
      obtain ⟨rfl, rfl⟩ := Prod.mk.inj (Option.some.inj h)
      rw [toNat_ofNat (by omega), encodeCode, if_neg (by omega), if_pos (by omega),
        @ofNat_eq _ a (by omega), @ofNat_eq _ b (by omega)]
      exact ⟨⟨rest, rfl⟩, rfl⟩
    split at h
    · next c rest =>
      split at h
      · next hthree =>
        simp only [Bool.and_eq_true, decide_eq_true_eq, isTail_iff] at hthree
        split_ifs at h with hv
        obtain ⟨rfl, rfl⟩ := Prod.mk.inj (Option.some.inj h)
        simp only [Bool.and_eq_true, Bool.or_eq_true, decide_eq_true_eq] at hv
        rw [toNat_ofNat (by omega), encodeCode, if_neg (by omega), if_neg (by omega),
          if_pos (by omega), @ofNat_eq _ a (by omega), @ofNat_eq _ b (by omega),
          @ofNat_eq _ c (by omega)]
        exact ⟨⟨rest, rfl⟩, rfl⟩
      split at h
      · next d rest =>
        split_ifs at h with hfour hv
        obtain ⟨rfl, rfl⟩ := Prod.mk.inj (Option.some.inj h)
        simp only [Bool.and_eq_true, decide_eq_true_eq, isTail_iff] at hfour hv
        rw [toNat_ofNat (by omega), encodeCode, if_neg (by omega), if_neg (by omega),
          if_neg (by omega), @ofNat_eq _ a (by omega), @ofNat_eq _ b (by omega),
          @ofNat_eq _ c (by omega), @ofNat_eq _ d (by omega)]
        exact ⟨⟨rest, rfl⟩, rfl⟩
      · cases h
    · cases h
  · cases h

/-- A character begins where its bytes stand, and nowhere else. -/
theorem leadingChar?_isSome_iff {bytes : List UInt8} :
    (leadingChar? bytes).isSome ↔ ∃ c : Char, encodeCode c.toNat <+: bytes := by
  constructor
  · intro h
    obtain ⟨⟨c, k⟩, hck⟩ := Option.isSome_iff_exists.mp h
    exact ⟨c, (encodeCode_of_leadingChar? hck).1⟩
  · rintro ⟨c, rest, rfl⟩
    rw [leadingChar?_encodeCode]
    rfl

/-- The first byte of a character continues none, and all others do. -/
theorem encodeCode_cons (n : Nat) (h : n < 0x110000) :
    ∃ a rest, encodeCode n = a :: rest ∧ isTail a = false ∧ ∀ b ∈ rest, isTail b := by
  have hlead {m : Nat} (hm : m < 0x80 ∨ 0xC0 ≤ m ∧ m < 0x100) : isTail (UInt8.ofNat m) = false := by
    rw [← Bool.not_eq_true, isTail_iff, UInt8.toNat_ofNat']
    omega
  have htail (m : Nat) : isTail (UInt8.ofNat (0x80 + m % 64)) := by
    rw [isTail_iff, UInt8.toNat_ofNat']
    omega
  unfold encodeCode
  split_ifs with h₁ h₂ h₃
  · exact ⟨_, _, rfl, hlead (.inl h₁), by simp⟩
  · exact ⟨_, _, rfl, hlead (by omega), by simpa only [List.forall_mem_cons] using ⟨htail _, by simp⟩⟩
  · exact ⟨_, _, rfl, hlead (by omega),
      by simpa only [List.forall_mem_cons] using ⟨htail _, htail _, by simp⟩⟩
  · exact ⟨_, _, rfl, hlead (by omega),
      by simpa only [List.forall_mem_cons] using ⟨htail _, htail _, htail _, by simp⟩⟩

/-- Whether a character begins at a byte is known by the bytes that may continue one. -/
theorem leadingChar?_takeWhile (a : UInt8) (bytes : List UInt8) :
    (leadingChar? (a :: bytes.takeWhile isTail)).isSome = (leadingChar? (a :: bytes)).isSome := by
  rw [Bool.eq_iff_iff, leadingChar?_isSome_iff, leadingChar?_isSome_iff]
  refine exists_congr fun c => ?_
  obtain ⟨b, rest, hc, -, hrest⟩ := encodeCode_cons c.toNat (by have := toNat_bounds c; omega)
  rw [hc, List.cons_prefix_cons, List.cons_prefix_cons]
  refine and_congr_right fun _ => ⟨fun h => h.trans (List.takeWhile_prefix _), ?_⟩
  rintro ⟨more, rfl⟩
  rw [List.takeWhile_append_of_pos hrest]
  exact List.prefix_append _ _

theorem leadingChar?_congr {a : UInt8} {s t : List UInt8}
    (h : s.takeWhile isTail = t.takeWhile isTail) :
    (leadingChar? (a :: s)).isSome = (leadingChar? (a :: t)).isSome := by
  rw [← leadingChar?_takeWhile, h, leadingChar?_takeWhile]

/-! ### Texts that read back as themselves -/

/-- No stray bytes of the text make up a character, and there are no halves. -/
def IsDecoded : Text → Prop
  | [] => True
  | .char _ :: t => IsDecoded t
  | .stray low :: t => (leadingChar? (encode (.stray low :: t))).isSome = false ∧ IsDecoded t
  | .half _ :: _ => False

theorem encode_cons (s : Sym) (t : Text) : encode (s :: t) = encodeSym s ++ encode t := rfl

theorem encode_append (s t : Text) : encode (s ++ t) = encode s ++ encode t := List.flatMap_append

theorem encodeSym_straySym {a : UInt8} (h : 0x80 ≤ a.toNat) : encodeSym (straySym a) = [a] := by
  have := a.toNat_lt
  exact congrArg (fun b => [b]) (ofNat_eq (by simp only [Fin.val_ofNat]; omega))

theorem le_of_leadingChar?_none {a : UInt8} {rest : List UInt8}
    (h : leadingChar? (a :: rest) = none) : 0x80 ≤ a.toNat := by
  by_contra hlt
  simp [leadingChar?, Nat.lt_of_not_le hlt] at h

/-- Bytes are written back as they were read. -/
theorem encode_decode (bytes : List UInt8) : encode (decode bytes) = bytes := by
  fun_induction decode bytes with
  | case1 => rfl
  | case2 a rest c k hck ih =>
    obtain ⟨⟨more, hmore⟩, hlength⟩ := encodeCode_of_leadingChar? hck
    obtain ⟨b, tail, hc, -, -⟩ := encodeCode_cons c.toNat (by have := toNat_bounds c; omega)
    rw [hc, List.cons_append] at hmore
    rw [hc, List.length_cons] at hlength
    obtain ⟨rfl, rfl⟩ := List.cons.inj hmore
    rw [encode_cons, ih, encodeSym, hc, List.drop_left' (Nat.succ.inj hlength)]
    rfl
  | case3 a rest hnone ih =>
    rw [encode_cons, ih, encodeSym_straySym (le_of_leadingChar?_none hnone)]
    rfl

/-- A text that was read from bytes is such a text. -/
theorem isDecoded_decode (bytes : List UInt8) : IsDecoded (decode bytes) := by
  fun_induction decode bytes with
  | case1 => trivial
  | case2 a rest c k hck ih => exact ih
  | case3 a rest hnone ih =>
    have hbytes : encode (straySym a :: decode rest) = a :: rest := by
      rw [encode_cons, encode_decode, encodeSym_straySym (le_of_leadingChar?_none hnone)]
      rfl
    have hlead : (leadingChar? (encode (straySym a :: decode rest))).isSome = false := by
      rw [hbytes, hnone]
      rfl
    exact ⟨hlead, ih⟩

/-- Such a text reads back as itself. -/
theorem IsDecoded.decode_encode {t : Text} (h : t.IsDecoded) : decode (encode t) = t := by
  induction t with
  | nil => rw [encode, List.flatMap_nil, decode]
  | cons s t ih =>
    cases s with
    | char c =>
      obtain ⟨a, rest, hc, -, -⟩ := encodeCode_cons c.toNat (by have := toNat_bounds c; omega)
      have hlead := leadingChar?_encodeCode c (encode t)
      rw [encode_cons, encodeSym]
      rw [hc] at hlead ⊢
      rw [List.cons_append, decode, ← List.cons_append, hlead]
      simp only [List.length_cons, Nat.add_sub_cancel]
      rw [List.drop_left, ih h]
    | stray low =>
      obtain ⟨hnone, ht⟩ := h
      rw [encode_cons, encodeSym, List.singleton_append] at hnone ⊢
      rw [decode, Option.isSome_eq_false_iff.mp hnone |> Option.isNone_iff_eq_none.mp, ih ht]
      refine congrArg (· :: t) ?_
      rw [straySym, Sym.strayAt, UInt8.toNat_ofNat']
      exact congrArg Sym.stray (Fin.ext (by simp only [Fin.val_ofNat]; omega))
    | half n => exact h.elim

theorem decode_encode_iff {t : Text} : decode (encode t) = t ↔ t.IsDecoded :=
  ⟨fun h => h ▸ isDecoded_decode _, IsDecoded.decode_encode⟩

/-! ### Seams -/

/-- A symbol does not continue the one before it. -/
theorem takeWhile_encode {t : Text} (h : ∀ s ∈ t.head?, s.isCharacter) :
    (encode t).takeWhile isTail = [] := by
  cases t with
  | nil => rfl
  | cons s t =>
    cases s with
    | char c =>
      obtain ⟨a, rest, hc, ha, -⟩ := encodeCode_cons c.toNat (by have := toNat_bounds c; omega)
      rw [encode_cons, encodeSym, hc, List.cons_append, List.takeWhile_cons_of_neg (by simp [ha])]
    | stray low => cases h _ rfl
    | half n => cases h _ rfl

/-- Whatever only continues ends with no character. -/
theorem not_isCharacter_of_isTail {t : Text} (h : ∀ b ∈ encode t, isTail b) :
    ∀ s ∈ t.getLast?, s.isCharacter = false := by
  intro s hs
  cases s with
  | char c =>
    obtain ⟨a, rest, hc, ha, -⟩ := encodeCode_cons c.toNat (by have := toNat_bounds c; omega)
    have hmem : a ∈ encode t := by
      refine List.mem_flatMap.mpr ⟨.char c, List.mem_of_getLast? hs, ?_⟩
      rw [encodeSym, hc]
      exact List.mem_cons_self
    rw [h a hmem] at ha
    cases ha
  | stray low => rfl
  | half n => rfl

/-- Two texts, of which the one does not end or the other does not begin with a stray byte. -/
def Meets (s t : Text) : Prop :=
  (∀ a ∈ s.getLast?, a.isCharacter) ∨ ∀ b ∈ t.head?, b.isCharacter

theorem Meets.takeWhile_encode {s t : Text} (h : Meets s t) (hs : s ≠ []) :
    (encode s ++ encode t).takeWhile isTail = (encode s).takeWhile isTail := by
  by_cases hall : ∀ b ∈ encode s, isTail b
  · have hlast := not_isCharacter_of_isTail hall
    have hhead : ∀ b ∈ t.head?, b.isCharacter := by
      refine h.resolve_left fun hchar => ?_
      have hmem : s.getLast hs ∈ s.getLast? := List.getLast?_eq_some_getLast hs
      have := hlast _ hmem
      rw [hchar _ hmem] at this
      cases this
    rw [List.takeWhile_append_of_pos hall, Text.takeWhile_encode hhead, List.append_nil,
      List.takeWhile_eq_self_iff.mpr hall]
  · obtain ⟨b, hb, hnot⟩ : ∃ b ∈ encode s, ¬isTail b := by simpa using hall
    rw [List.takeWhile_append, if_neg fun hlength => ?_]
    have := List.takeWhile_eq_self_iff.mp ((List.takeWhile_prefix _).eq_of_length hlength) b hb
    exact hnot this

namespace IsDecoded

variable {s t : Text}

theorem append (hs : s.IsDecoded) (ht : t.IsDecoded) (h : Meets s t) : IsDecoded (s ++ t) := by
  induction s with
  | nil => exact ht
  | cons a s ih =>
    have hlater (hne : s ≠ []) : Meets s t := by
      rwa [Meets, List.getLast?_cons_of_ne_nil hne] at h
    cases a with
    | char c =>
      refine ih hs ?_
      by_cases hne : s = []
      · subst hne
        exact .inl fun a ha => by cases ha
      · exact hlater hne
    | stray low =>
      obtain ⟨hlead, hs⟩ := hs
      by_cases hne : s = []
      · subst hne
        have hhead : ∀ b ∈ t.head?, b.isCharacter := h.resolve_left fun hlast => by
          cases hlast _ rfl
        refine ⟨?_, ht⟩
        rw [← hlead]
        exact leadingChar?_congr (takeWhile_encode hhead)
      · refine ⟨?_, ih hs (hlater hne)⟩
        rw [← hlead]
        refine leadingChar?_congr ?_
        exact (congrArg _ (encode_append s t)).trans ((hlater hne).takeWhile_encode hne)
    | half n => exact hs.elim

theorem of_append_right (h : IsDecoded (s ++ t)) : t.IsDecoded := by
  induction s with
  | nil => exact h
  | cons a s ih =>
    cases a with
    | char c => exact ih h
    | stray low => exact ih h.2
    | half n => exact h.elim

theorem of_append_left (h : IsDecoded (s ++ t)) : s.IsDecoded := by
  induction s with
  | nil => trivial
  | cons a s ih =>
    cases a with
    | char c => exact ih h
    | stray low =>
      refine ⟨?_, ih h.2⟩
      -- A character that begins in the first text begins in both together.
      rw [Bool.eq_false_iff, Ne, leadingChar?_isSome_iff]
      rintro ⟨c, hc⟩
      have hlead := h.1
      rw [Bool.eq_false_iff, Ne, leadingChar?_isSome_iff] at hlead
      exact hlead ⟨c, hc.trans ⟨encode t, (encode_append (.stray low :: s) t).symm⟩⟩
    | half n => exact h.elim

theorem take (h : t.IsDecoded) (n : Nat) : IsDecoded (t.take n) :=
  of_append_left (t := t.drop n) (by rwa [List.take_append_drop])

theorem drop (h : t.IsDecoded) (n : Nat) : IsDecoded (t.drop n) :=
  of_append_right (s := t.take n) (by rwa [List.take_append_drop])

theorem of_characters (h : ∀ s ∈ t, s.isCharacter) : t.IsDecoded := by
  induction t with
  | nil => trivial
  | cons s t ih =>
    cases s with
    | char c => exact ih fun s hs => h s (List.mem_cons_of_mem _ hs)
    | stray low => cases h _ List.mem_cons_self
    | half n => cases h _ List.mem_cons_self

end IsDecoded

end HouseStyle.Text
