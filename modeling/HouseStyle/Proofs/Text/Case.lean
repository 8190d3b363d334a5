import HouseStyle.Proofs.Text.Stops
import HouseStyle.Text.Case

/-! Case of words. Only four characters beyond ASCII fold to one within it, so the upper form of a word
that is the same as one of ASCII when case is ignored has as many symbols, is the same word but for its
case, and is its own upper form. Lower forms are their own lower forms: beyond ASCII a code point that a
shift has moved is moved by no other one. -/

namespace HouseStyle

/-- A map of code points keeps off a code point that lies in the image of none of its shifts. -/
theorem Table.shifted_ne {table : List Table.Shift} {n b : Nat} (hn : n ≠ b) (hb : 0 < b)
    (h : ∀ s ∈ table, (b : Int) < s.first + s.offset ∨ s.last + s.offset < b) :
    Table.shifted table n ≠ b := by
  induction table with
  | nil => exact hn
  | cons s rest ih =>
    have hs := h s (by simp)
    simp only [Table.shifted]
    split_ifs with hfirst hlast hstride
    · exact hn
    · omega
    · exact hn
    · exact ih fun s hs => h s (by simp [hs])

/-- A code point that comes to lie below a bound is one that a shift takes there. -/
theorem Table.exists_shift_of_lt {table : List Table.Shift} {n b : Nat} (hn : b ≤ n)
    (h : Table.shifted table n < b) :
    ∃ s ∈ table, s.first ≤ n ∧ n ≤ s.last ∧ (n : Int) + s.offset < b := by
  induction table with
  | nil => exact absurd h (by simpa [Table.shifted] using hn)
  | cons s rest ih =>
    simp only [Table.shifted] at h
    split_ifs at h
    · omega
    · exact ⟨s, by simp, by omega, by omega, by omega⟩
    · omega
    · obtain ⟨s', hs', hbounds⟩ := ih h
      exact ⟨s', by simp [hs'], hbounds⟩

theorem Char.toNat_ofNat_eq {n b : Nat} (hb : 0 < b) (h : (Char.ofNat n).toNat = b) : n = b := by
  by_cases hn : n.isValidChar
  · rw [Char.ofNat, dif_pos hn] at h
    exact h
  · rw [Char.ofNat, dif_neg hn] at h
    exact absurd h hb.ne

namespace Sym

/-- A word symbol within ASCII. -/
def isAsciiWord (s : Sym) : Bool := s.code < 0x80 && s.isWord

/-- The code points beyond ASCII that fold to one within it: `İ`, `ı`, `ſ` and the Kelvin sign. -/
def wideFolds : List Nat := [0x130, 0x131, 0x17F, 0x212A]

theorem mem_wideFolds_of_shift : ∀ s ∈ Table.folded, (s.first : Int) + s.offset < 128 →
    s.first = s.last ∧ s.first ∈ wideFolds := by
  decide +kernel

theorem mem_wideFolds {n : Nat} (hn : 128 ≤ n) (h : Table.shifted Table.folded n < 128) :
    n ∈ wideFolds := by
  obtain ⟨s, hs, hfirst, hlast, hlt⟩ := Table.exists_shift_of_lt hn h
  obtain ⟨heq, hmem⟩ := mem_wideFolds_of_shift s hs (by omega)
  obtain rfl : n = s.first := by omega
  exact hmem

theorem isAsciiWord_iff {s : Sym} :
    s.isAsciiWord ↔ ∃ c : Char, s = .char c ∧ c.toNat < 128 ∧ (c.isAlphanum ∨ c = '_') := by
  rw [isAsciiWord, Bool.and_eq_true, decide_eq_true_eq]
  cases s with
  | char c =>
    simp only [code, isWord, inClass, char.injEq, exists_eq_left']
    constructor
    · rintro ⟨hc, hword⟩
      exact ⟨hc, by simpa [hc] using hword⟩
    · rintro ⟨hc, hword⟩
      exact ⟨hc, by simpa [hc] using hword⟩
  | stray low => simp [isWord, inClass]
  | half n => simp [isWord, inClass]

/-- The symbols that a predicate on ASCII and on the four others holds of, if they fold to a word symbol
within ASCII. -/
theorem of_folded {p : Sym → Prop}
    (hascii : ∀ n < 128, (Sym.char (Char.ofNat n)).folded.isAsciiWord → p (.char (Char.ofNat n)))
    (hwide : ∀ n ∈ wideFolds, p (.char (Char.ofNat n))) {s : Sym} (h : s.folded.isAsciiWord) : p s := by
  cases s with
  | char c =>
    by_cases hc : c.toNat < 128
    · exact char_of_lt (p := fun c => (Sym.char c).folded.isAsciiWord → p (.char c)) hascii hc h
    · obtain ⟨d, hd, hlt, hword⟩ := isAsciiWord_iff.mp h
      rw [folded, if_neg hc, char.injEq] at hd
      have hpos : 0 < d.toNat := by
        refine Nat.pos_of_ne_zero fun hzero => ?_
        obtain rfl : d = Char.ofNat 0 := by rw [← hzero, Char.ofNat_toNat]
        revert hword
        decide
      have hshift := Char.toNat_ofNat_eq hpos (congrArg Char.toNat hd)
      have hmem := hwide c.toNat (mem_wideFolds (by omega) (by omega))
      rwa [Char.ofNat_toNat] at hmem
  | stray low => simp [folded, isAsciiWord, isWord, inClass] at h
  | half n => simp [folded, isAsciiWord, isWord, inClass] at h

theorem isWord_of_folded {s : Sym} (h : s.folded.isAsciiWord) : s.isWord :=
  of_folded (p := fun s => s.isWord) (by decide +kernel) (by decide +kernel) h

theorem isAsciiWord_folded {s : Sym} (h : s.isAsciiWord) : s.folded.isAsciiWord := by
  obtain ⟨c, rfl, hc, -⟩ := isAsciiWord_iff.mp h
  exact char_of_lt (p := fun c => (Sym.char c).isAsciiWord → (Sym.char c).folded.isAsciiWord)
    (by decide +kernel) hc h

/-- The upper form of such a symbol is one symbol, the same but for its case, and its own upper form. -/
theorem upper_of_folded {s : Sym} (h : s.folded.isAsciiWord) :
    s.upper.map folded = [s.folded] ∧ Text.upper s.upper = s.upper :=
  of_folded (p := fun s => s.upper.map folded = [s.folded] ∧ Text.upper s.upper = s.upper)
    (by decide +kernel) (by decide +kernel) h

end Sym

namespace Text

/-- Whether a text is the same as a word of ASCII when case is ignored. -/
def FoldsToWord (w : Text) : Prop := ∀ s ∈ w.map Sym.folded, s.isAsciiWord

variable {w : Text}

theorem FoldsToWord.of_isAsciiWord (h : ∀ s ∈ w, s.isAsciiWord) : w.FoldsToWord := by
  intro f hf
  obtain ⟨s, hs, rfl⟩ := List.mem_map.mp hf
  exact Sym.isAsciiWord_folded (h s hs)

namespace FoldsToWord

variable (h : w.FoldsToWord)
include h

theorem folded {s : Sym} (hs : s ∈ w) : s.folded.isAsciiWord := h _ (List.mem_map_of_mem hs)

theorem isWord {s : Sym} (hs : s ∈ w) : s.isWord := Sym.isWord_of_folded (h.folded hs)

theorem map_folded_upper : (upper w).map Sym.folded = w.map Sym.folded := by
  rw [upper, List.map_flatMap, List.map_eq_flatMap]
  exact List.flatMap_congr fun s hs => (Sym.upper_of_folded (h.folded hs)).1

theorem length_upper : (upper w).length = w.length := by
  simpa using congrArg List.length h.map_folded_upper

theorem upper_upper : upper (upper w) = upper w := by
  rw [upper, upper, List.flatMap_assoc]
  exact List.flatMap_congr fun s hs => (Sym.upper_of_folded (h.folded hs)).2

theorem upper : (Text.upper w).FoldsToWord := by
  rw [FoldsToWord, h.map_folded_upper]
  exact h

end FoldsToWord

end Text

/-! ## Lower forms -/

/-! ### Shifts -/

/-- A code point stays or is moved by one of the shifts. -/
theorem Table.shifted_cases (table : List Table.Shift) (n : Nat) :
    Table.shifted table n = n ∨ ∃ s ∈ table, s.first ≤ n ∧ n ≤ s.last ∧ (n - s.first) % s.stride = 0 ∧
      Table.shifted table n = ((n : Int) + s.offset).toNat := by
  induction table with
  | nil => exact .inl rfl
  | cons s rest ih =>
    simp only [Table.shifted]
    split_ifs with hfirst hlast hstride
    · exact .inl rfl
    · exact .inr ⟨s, List.mem_cons_self, by omega, hlast, hstride, rfl⟩
    · exact .inl rfl
    · rcases ih with hstays | ⟨t, ht, hmoved⟩
      · exact .inl hstays
      · exact .inr ⟨t, List.mem_cons_of_mem _ ht, hmoved⟩

/-- Whether a shift moves none of the code points from `low` to `high` in steps of `stride`. Steps that
are even keep to one parity, which may differ from that of what the shift moves. -/
def Table.Shift.misses (s : Table.Shift) (low high stride : Nat) : Bool :=
  Nat.blt high s.first || Nat.blt s.last low ||
    ((Nat.beq stride 2 || Nat.beq low high) && Nat.beq s.stride 2 && Nat.beq ((low + s.first) % 2) 1)

/-- No shift moves what one has moved. -/
def Table.isSettled (table : List Table.Shift) : Bool :=
  table.all fun s => decide (0 ≤ (s.first : Int) + s.offset) && table.all fun t =>
    t.misses ((s.first : Int) + s.offset).toNat ((s.last : Int) + s.offset).toNat s.stride

theorem Table.shifted_shifted {table : List Table.Shift} (h : Table.isSettled table) (n : Nat) :
    Table.shifted table (Table.shifted table n) = Table.shifted table n := by
  rcases Table.shifted_cases table n with hstays | ⟨s, hs, hfirst, hlast, hstride, hmoved⟩
  · rw [hstays, hstays]
  · generalize hm : Table.shifted table n = m at hmoved
    refine (Table.shifted_cases table m).resolve_right ?_
    rintro ⟨t, ht, hfirst', hlast', hstride', -⟩
    obtain ⟨hnonneg, hmisses⟩ := Bool.and_eq_true_iff.mp (List.all_eq_true.mp h s hs)
    have hmiss := List.all_eq_true.mp hmisses t ht
    simp only [Table.Shift.misses, Bool.or_eq_true, Bool.and_eq_true, Nat.blt_eq, Nat.beq_eq] at hmiss
    have hnonneg := of_decide_eq_true hnonneg
    -- The image of the first shift lies before or behind the second one, or has the other parity.
    rcases hmiss with (hhigh | hlow) | ⟨⟨hstep | hsingle, htwo⟩, hodd⟩
    · omega
    · omega
    · rw [hstep] at hstride
      rw [htwo] at hstride'
      omega
    · rw [htwo] at hstride'
      omega

/-- What the shifts of the table of lower forms are like: of all symbols beyond ASCII only the Kelvin sign
comes to lie within it. -/
structure Table.Lowers (table : List Table.Shift) : Prop where
  settled : Table.isSettled table
  sigma : Table.shifted table 'Σ'.toNat ≠ 'Σ'.toNat
  dotted : ∀ s ∈ table, ('İ'.toNat : Int) < s.first + s.offset ∨ s.last + s.offset < 'İ'.toNat
  kelvin : Table.shifted table 0x212A = 'k'.toNat
  wide : ∀ s ∈ table, (s.first : Int) + s.offset < 128 → s.first = s.last ∧ s.first = 0x212A

theorem Table.lowers_lower : Table.Lowers Table.lower := by
  constructor <;> decide +kernel

/-! ### Symbols -/

namespace Sym

/-- Whether a symbol is its own lower form, wherever it stands. -/
def isLower (s : Sym) : Bool := !s.is 'Σ' && s.lower = [s]

theorem isLower_ascii : ∀ n < 128, (Sym.char (Char.ofNat n).toLower).isLower := by
  decide +kernel

theorem isLower_special : (Sym.char (Char.ofNat 0)).isLower ∧ (Sym.char 'k').isLower ∧
    (Sym.char 'i').isLower ∧ (Sym.char '\u0307').isLower ∧ (Sym.char 'σ').isLower ∧
    (Sym.char 'ς').isLower := by
  decide +kernel

theorem isLower_wide {n : Nat} (hn : 128 ≤ n) (hdotted : n ≠ 'İ'.toNat) :
    (Sym.char (Char.ofNat (Table.shifted Table.lower n))).isLower := by
  have hlower := Table.lowers_lower
  obtain ⟨hnull, hk, -⟩ := isLower_special
  generalize hc : Char.ofNat (Table.shifted Table.lower n) = c
  by_cases hascii : c.toNat < 128
  · by_cases hzero : c.toNat = 0
    · obtain rfl : c = Char.ofNat 0 := by rw [← hzero, Char.ofNat_toNat]
      exact hnull
    · have hm := Char.toNat_ofNat_eq (Nat.pos_of_ne_zero hzero) (congrArg Char.toNat hc)
      obtain ⟨s, hs, hfirst, hlast, hlt⟩ := Table.exists_shift_of_lt hn (hm.trans_lt hascii)
      obtain ⟨hsingle, hkelvin⟩ := hlower.wide s hs (by omega)
      obtain rfl : n = 0x212A := by omega
      rw [hlower.kelvin] at hc
      exact hc ▸ hk
  · have hm := Char.toNat_ofNat_eq (by omega) (congrArg Char.toNat hc)
    have hsettled : Table.shifted Table.lower c.toNat = c.toNat := by
      rw [← hm, Table.shifted_shifted hlower.settled]
    have hsigma : c ≠ 'Σ' := by
      rintro rfl
      exact hlower.sigma hsettled
    have hdot : c ≠ 'İ' := by
      rintro rfl
      exact Table.shifted_ne hdotted (by decide) hlower.dotted hm
    simp [isLower, Sym.is, lower, hascii, hsigma, hdot, hsettled, Char.ofNat_toNat]

theorem isLower_of_mem_lower {s r : Sym} (h : r ∈ s.lower) : r.isLower := by
  cases s with
  | char c =>
    rw [lower] at h
    split_ifs at h with hascii hdotted
    · obtain rfl := List.mem_singleton.mp h
      exact char_of_lt (p := fun c => (Sym.char c.toLower).isLower) isLower_ascii hascii
    · obtain ⟨-, -, hi, hdot, -⟩ := isLower_special
      rcases List.mem_pair.mp h with rfl | rfl
      · exact hi
      · exact hdot
    · obtain rfl := List.mem_singleton.mp h
      refine isLower_wide (by omega) fun hcode => hdotted ?_
      rw [← Char.ofNat_toNat c, hcode, Char.ofNat_toNat]
  | stray low =>
    obtain rfl := List.mem_singleton.mp h
    simp [isLower, lower, Sym.is]
  | half n =>
    obtain rfl := List.mem_singleton.mp h
    simp [isLower, lower, Sym.is]

end Sym

/-! ### Texts -/

namespace Text

theorem isLower_of_mem_lowerFrom {before t : Text} {r : Sym} (h : r ∈ lowerFrom before t) :
    r.isLower := by
  induction t generalizing before with
  | nil => cases h
  | cons s rest ih =>
    obtain ⟨-, -, -, -, hsmall, hend⟩ := Sym.isLower_special
    rcases List.mem_append.mp h with hhead | hrest
    · split_ifs at hhead with hsigma hfinal
      · obtain rfl := List.mem_singleton.mp hhead
        exact hend
      · obtain rfl := List.mem_singleton.mp hhead
        exact hsmall
      · exact Sym.isLower_of_mem_lower hhead
    · exact ih hrest

theorem lowerFrom_of_isLower {before t : Text} (h : ∀ s ∈ t, s.isLower) : lowerFrom before t = t := by
  induction t generalizing before with
  | nil => rfl
  | cons s rest ih =>
    obtain ⟨hs, hrest⟩ := List.forall_mem_cons.mp h
    obtain ⟨hsigma, hlower⟩ := Bool.and_eq_true_iff.mp hs
    rw [lowerFrom, if_neg (by simpa using hsigma), of_decide_eq_true hlower, ih hrest,
      List.singleton_append]

/-- A lower form is its own lower form. -/
theorem lower_lower (t : Text) : lower (lower t) = lower t :=
  lowerFrom_of_isLower fun _ => isLower_of_mem_lowerFrom

end Text

end HouseStyle
