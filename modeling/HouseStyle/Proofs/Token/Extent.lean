import HouseStyle.Token.Lexer
import Mathlib.Data.List.Basic

/-! How far lexemes reach. Every scanner takes at least one symbol and none past the end of the
text, and only a string or a block comment may lack its end, which is then the end of the text. -/

namespace HouseStyle.Literal

theorem run_le_length (p : Sym → Bool) (t : Text) : run p t ≤ t.length :=
  (List.takeWhile_sublist p).length_le

theorem run_pos {p : Sym → Bool} {s : Sym} (h : p s) (t : Text) : 0 < run p (s :: t) := by
  simp [run, h]

/-! ### Block comments and strings -/

theorem commentEnd?_bounds {depth taken n : Nat} {t : Text}
    (h : commentEnd? depth taken t = some n) : taken + 2 ≤ n ∧ n ≤ taken + t.length := by
  fun_induction commentEnd? depth taken t with
  | case1 => cases h
  | case2 => cases h
  | case3 depth taken rest ih =>
    have := ih h
    simp only [List.length_cons]
    omega
  | case4 depth taken rest =>
    cases h
    simp only [List.length_cons]
    omega
  | case5 depth taken rest _ ih =>
    have := ih h
    simp only [List.length_cons]
    omega
  | case6 depth taken _ s rest _ _ ih =>
    have := ih h
    simp only [List.length_cons] at this ⊢
    omega

theorem blockComment?_bounds {n : Nat} {t : Text} (h : blockComment? t = some n) :
    2 ≤ n ∧ n ≤ t.length := by
  have := commentEnd?_bounds h
  omega

theorem stringEnd?_bounds {cur : Open} {outer : List Open} {taken n : Nat} {t : Text}
    (h : stringEnd? cur outer taken t = some n) : taken < n ∧ n ≤ taken + t.length := by
  fun_induction stringEnd? cur outer taken t <;>
    simp_all only [List.length_cons, reduceCtorEq, Option.some.injEq, forall_const] <;> omega

theorem opening_length_le (t : Text) : (Quote.opening (.char '"' :: t)).length ≤ t.length + 1 := by
  unfold Quote.opening
  split
  · next rest h =>
    cases h
    simp [Quote.length]
  · simp [Quote.length]

theorem string?_bounds {n : Nat} {t : Text} (h : string? (.char '"' :: t) = some n) :
    1 < n ∧ n ≤ t.length + 1 := by
  have hq := opening_length_le t
  have hpos : 1 ≤ (Quote.opening (.char '"' :: t)).length := by
    cases Quote.opening (.char '"' :: t) <;> simp [Quote.length]
  have := stringEnd?_bounds h
  rw [List.length_drop, List.length_cons] at this
  omega

/-! ### Numbers -/

theorem fraction_le_length (t : Text) : fraction t ≤ t.length := by
  unfold fraction
  split
  · next d rest =>
    have := run_le_length isDigitOrLine rest
    split <;> simp only [List.length_cons] <;> omega
  · omega

theorem sign_le_length (t : Text) : sign t ≤ t.length := by
  unfold sign
  split <;> simp

theorem exponent_le_length (t : Text) : exponent t ≤ t.length := by
  unfold exponent
  split
  · next c rest =>
    have hsign := sign_le_length rest
    have hrun := run_le_length Sym.isDigit (rest.drop (sign rest))
    rw [List.length_drop] at hrun
    simp only [List.length_cons]
    split_ifs <;> omega
  · omega

theorem decimal_le_length (t : Text) : decimal t ≤ t.length := by
  have hwhole := run_le_length isDigitOrLine t
  have hfraction := fraction_le_length (t.drop (run isDigitOrLine t))
  have hexponent := exponent_le_length
    (t.drop (run isDigitOrLine t + fraction (t.drop (run isDigitOrLine t))))
  rw [List.length_drop] at hfraction hexponent
  simp only [decimal]
  omega

theorem decimal_pos {s : Sym} (h : s.isDigit) (t : Text) : 0 < decimal (s :: t) := by
  have := run_pos (p := isDigitOrLine) (s := s) (by simp [isDigitOrLine, h]) t
  simp only [decimal]
  omega

theorem based_le_length (p : Sym → Bool) (a b : Sym) (t : Text) :
    based p (a :: b :: t) ≤ t.length + 2 := by
  have hrun := run_le_length p t
  unfold based
  split
  · exact decimal_le_length (a :: b :: t)
  · simp only [List.drop_succ_cons, List.drop_zero]
    omega

theorem based_pos {s : Sym} (h : s.isDigit) (p : Sym → Bool) (t : Text) :
    0 < based p (s :: t) := by
  unfold based
  split
  · exact decimal_pos h t
  · omega

theorem number_le_length (t : Text) : number t ≤ t.length := by
  unfold number
  split
  · next c rest =>
    have := based_le_length
    split_ifs <;> first | exact this _ _ _ _ | exact decimal_le_length _
  · exact decimal_le_length t

theorem number_pos {s : Sym} (h : s.isDigit) (t : Text) : 0 < number (s :: t) := by
  unfold number
  split
  · next c rest heq =>
    cases heq
    split_ifs <;> first | exact based_pos h _ _ | exact decimal_pos h _
  · exact decimal_pos h t

end HouseStyle.Literal

namespace HouseStyle.Cut

open Literal

/-! ### Words and punctuation -/

theorem word_bounds {s : Sym} (h : s.isWord) (t : Text) :
    0 < (word (s :: t)).length ∧ (word (s :: t)).length ≤ t.length + 1 :=
  ⟨run_pos h t, run_le_length Sym.isWord (s :: t)⟩

theorem dollar?_bounds {n : Nat} {t : Text} (h : dollar? t = some n) : 0 < n ∧ n ≤ t.length := by
  unfold dollar? at h
  split at h
  · next rest =>
    have := run_le_length Sym.isWord rest
    split at h
    · cases h
    · cases h
      simp only [List.length_cons]
      omega
  · cases h

theorem graveName?_bounds {n : Nat} {t : Text} (h : graveName? t = some n) :
    0 < n ∧ n ≤ t.length := by
  unfold graveName? at h
  split at h
  · next rest =>
    simp only at h
    split_ifs at h with hclose
    cases h
    have hlt : (rest.drop (run inGraves rest)) ≠ [] := by
      intro hnil
      rw [hnil] at hclose
      cases hclose.2
    have := List.length_pos_of_ne_nil hlt
    rw [List.length_drop] at this
    simp only [List.length_cons]
    omega
  · cases h

/-- No operator is empty. -/
theorem length_pos_of_mem_operators : ∀ op ∈ operators, 0 < op.length := by decide

theorem operator_bounds (s : Sym) (t : Text) :
    0 < (operator (s :: t)).length ∧ (operator (s :: t)).length ≤ t.length + 1 := by
  unfold operator
  cases hop : operators.find? (·.isPrefixOf (s :: t)) with
  | none => simp
  | some op =>
    have hpre : op <+: s :: t := by simpa using List.find?_some hop
    have hle := hpre.length_le
    have hpos := length_pos_of_mem_operators op (List.mem_of_find?_eq_some hop)
    simp only [Option.map_some, Option.getD_some, List.length_cons] at hle ⊢
    omega

/-! ### The next lexeme -/

/-- A cut that takes something of a text and no more than there is. A cut that lacks its end is a
string or a comment and takes all. -/
structure Fits (text : Text) (cut : Cut) : Prop where
  length_pos : 0 < cut.length
  length_le : cut.length ≤ text.length
  takes_all : cut.unterminated →
    (cut.kind = .string ∨ cut.kind = .comment) ∧ cut.length = text.length

theorem Fits.closed {text : Text} {kind : TokenKind} {n : Nat} (h : 0 < n ∧ n ≤ text.length) :
    Fits text ⟨kind, n, false⟩ :=
  ⟨h.1, h.2, fun h => by cases h⟩

theorem Fits.upTo {text : Text} {kind : TokenKind} {n : Option Nat}
    (hkind : kind = .string ∨ kind = .comment) (htext : 0 < text.length)
    (h : ∀ k, n = some k → 0 < k ∧ k ≤ text.length) :
    Fits text (upTo kind text.length n) := by
  cases n with
  | none => exact ⟨htext, Nat.le_refl _, fun _ => ⟨hkind, rfl⟩⟩
  | some k => exact Fits.closed (h k rfl)

/-- Whatever a text starts with, its first lexeme fits. -/
theorem next_fits {text : Text} (h : text ≠ []) : Fits text (next text) := by
  fun_cases next text with
  | case1 => exact absurd rfl h
  | case2 => exact Fits.closed (by simp)
  | case3 rest => exact Fits.closed ⟨run_pos (by decide) _, run_le_length _ _⟩
  | case4 rest =>
    refine Fits.upTo (.inr rfl) (by simp) fun k hk => ?_
    have := blockComment?_bounds hk
    omega
  | case5 rest =>
    refine Fits.upTo (.inl rfl) (by simp) fun k hk => ?_
    have := string?_bounds hk
    simp only [List.length_cons]
    omega
  | case6 => exact Fits.closed (by simp)
  | case7 s rest _ _ _ _ _ hblank => exact Fits.closed ⟨run_pos hblank _, run_le_length _ _⟩
  | case8 s rest _ _ _ _ _ _ hdigit => exact Fits.closed ⟨number_pos hdigit _, number_le_length _⟩
  | case9 s rest _ _ _ _ _ _ _ hword => exact Fits.closed (word_bounds hword rest)
  | case10 s rest _ _ _ _ _ _ _ _ n hdollar =>
    simp only [hdollar]
    exact Fits.closed (dollar?_bounds hdollar)
  | case11 s rest _ _ _ _ _ _ _ _ n hdollar hgrave =>
    simp only [hdollar, hgrave]
    exact Fits.closed (graveName?_bounds hgrave)
  | case12 s rest _ _ _ _ _ _ _ _ hdollar hgrave =>
    simp only [hdollar, hgrave]
    exact Fits.closed (operator_bounds s rest)

end HouseStyle.Cut
