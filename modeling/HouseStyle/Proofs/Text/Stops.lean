import Mathlib.Tactic.FinCases
import Mathlib.Tactic.SplitIfs
import HouseStyle.Token.Literal

/-! Stops are the symbols that no word, number or operator goes on with: white space, the brackets
of groups and blocks, the semicolon and the slash. There are finitely many, so what holds of each
of them is decided. -/

namespace HouseStyle

/-- A code point that a table covers lies in one of its ranges. -/
theorem Table.exists_range_of_covers {table : List Table.Range} {n : Nat}
    (h : Table.covers table n) : ∃ range ∈ table, range.1 ≤ n ∧ n ≤ range.2 := by
  induction table with
  | nil => simp [Table.covers] at h
  | cons range rest ih =>
    simp only [Table.covers] at h
    split_ifs at h
    · exact ⟨range, by simp, by omega, by omega⟩
    · obtain ⟨r, hr, hn⟩ := ih h
      exact ⟨r, by simp [hr], hn⟩

namespace Sym

def isStop (s : Sym) : Bool :=
  s.isSpace || s.is ';' || s.is '(' || s.is ')' || s.is '{' || s.is '}' || s.is '/'

/-- The code points of the stops. -/
def stopCodes : List Nat :=
  [0x09, 0x0A, 0x0B, 0x0C, 0x0D, 0x1C, 0x1D, 0x1E, 0x1F, 0x20, 0x28, 0x29, 0x2F, 0x3B, 0x7B, 0x7D,
    0x85, 0xA0, 0x1680, 0x2000, 0x2001, 0x2002, 0x2003, 0x2004, 0x2005, 0x2006, 0x2007, 0x2008,
    0x2009, 0x200A, 0x2028, 0x2029, 0x202F, 0x205F, 0x3000]

/-- A property of characters below `n`, checked one by one. -/
theorem char_of_lt {p : Char → Prop} {n : Nat} (h : ∀ k < n, p (Char.ofNat k)) {c : Char}
    (hc : c.toNat < n) : p c := by
  have := h c.toNat hc
  rwa [Char.ofNat_toNat] at this

theorem ascii_mem_stopCodes {c : Char} (hc : c.toNat < 128) :
    (Sym.char c).isStop → c.toNat ∈ stopCodes :=
  char_of_lt (p := fun c => (Sym.char c).isStop → c.toNat ∈ stopCodes) (by decide +kernel) hc

theorem wideBlanks_mem_stopCodes {n : Nat} (h : Table.covers wideBlanks n) : n ∈ stopCodes := by
  obtain ⟨range, hrange, hlo, hhi⟩ := Table.exists_range_of_covers h
  simp only [stopCodes, List.mem_cons, List.not_mem_nil, or_false]
  fin_cases hrange <;> dsimp only at hlo hhi <;> omega

theorem is_iff {s : Sym} {c : Char} : s.is c ↔ s = .char c := by
  cases s <;> simp [is]

/-- Every stop is the character of one of the codes. -/
theorem exists_stopCode {s : Sym} (h : s.isStop) : ∃ n ∈ stopCodes, s = .char (Char.ofNat n) := by
  cases s with
  | char c =>
    refine ⟨c.toNat, ?_, by rw [Char.ofNat_toNat]⟩
    by_cases hc : c.toNat < 128
    · exact ascii_mem_stopCodes hc h
    · refine wideBlanks_mem_stopCodes ?_
      have hwide : ∀ d : Char, d.toNat < 128 → c ≠ d := by
        rintro d hd rfl
        exact hc hd
      simpa [isStop, isSpace, inClass, is, hc, hwide] using h
  | stray low => simp [isStop, isSpace, inClass, is] at h
  | half n => simp [isStop, isSpace, inClass, is] at h

/-- A class to which no stop code belongs has no stop in it. -/
theorem eq_false_of_isStop (p : Sym → Bool)
    (hp : ∀ n ∈ stopCodes, p (.char (Char.ofNat n)) = false) {s : Sym} (h : s.isStop) :
    p s = false := by
  obtain ⟨n, hn, rfl⟩ := exists_stopCode h
  exact hp n hn

theorem isStop_of_isSpace {s : Sym} (h : s.isSpace) : s.isStop := by
  simp [isStop, h]

theorem isSpace_of_isBreak {s : Sym} (h : s.isBreak) : s.isSpace := by
  rw [isBreak, Bool.or_eq_true, is_iff, is_iff] at h
  rcases h with rfl | rfl <;> decide

theorem isSpace_of_isBlank {s : Sym} (h : s.isBlank) : s.isSpace := by
  simp only [isBlank, Bool.and_eq_true] at h
  exact h.1

/-- No stop is a given character, if that one is none. -/
theorem ne_of_isStop {s : Sym} {c : Char} (h : s.isStop) (hc : (Sym.char c).isStop = false) :
    s ≠ .char c := by
  rintro rfl
  rw [hc] at h
  cases h

/-- No stop goes on with a word or a number. -/
theorem stopCodes_classes : ∀ n ∈ stopCodes,
    let s : Sym := .char (Char.ofNat n)
    s.isWord = false ∧ Literal.isDigitOrLine s = false ∧ Literal.isHex s = false ∧
      Literal.isBinary s = false ∧ Literal.isOctal s = false := by
  decide +kernel

theorem isWord_of_isStop {s : Sym} (h : s.isStop) : s.isWord = false :=
  eq_false_of_isStop isWord (fun n hn => (stopCodes_classes n hn).1) h

theorem isDigit_of_isStop {s : Sym} (h : s.isStop) : s.isDigit = false := by
  refine eq_false_of_isStop isDigit (fun n hn => ?_) h
  exact (Bool.or_eq_false_iff.mp (stopCodes_classes n hn).2.1).1

end Sym

/-- Whether a text is empty or begins with a stop. -/
def Text.Stops (t : Text) : Prop := ∀ s ∈ t.head?, s.isStop

namespace Text.Stops

theorem nil : Text.Stops [] := by
  simp [Text.Stops]

theorem cons {s : Sym} (h : s.isStop) (t : Text) : Text.Stops (s :: t) := by
  simpa [Text.Stops] using h

/-- A text that stops gives no symbol to a run that no stop belongs to. -/
theorem takeWhile_eq_nil {t : Text} (ht : t.Stops) {p : Sym → Bool}
    (hp : ∀ s : Sym, s.isStop → p s = false) : t.takeWhile p = [] := by
  cases t with
  | nil => rfl
  | cons s rest =>
    have := hp s (ht s rfl)
    simp [this]

/-- A text that stops does not begin with a character that is no stop. -/
theorem head?_ne {t : Text} (ht : t.Stops) {c : Char} (hc : (Sym.char c).isStop = false) :
    t.head? ≠ some (.char c) :=
  fun h => Sym.ne_of_isStop (ht _ h) hc rfl

end Text.Stops

end HouseStyle
