import HouseStyle.Outline.View
import Mathlib.Data.List.Chain
import Mathlib.Tactic.SplitIfs

/-! Runs of token indices. A run holds the code of its statement in order: between neighbours there
is only trivia, unless the first of them opens a closure. -/

namespace HouseStyle.Outline

variable (tokens : Array Token)

/-- Whether only trivia stands strictly between two indices. -/
def Quiet (i j : Nat) : Prop := ∀ k, i < k → k < j → tokenIs tokens (·.isTrivia) k

/-- Whether a token carries code. -/
def Loud (i : Nat) : Prop := ∃ t, tokens[i]? = some t ∧ t.isTrivia = false

/-- Neighbours in a run. -/
def Adjacent (i j : Nat) : Prop := i < j ∧ (tokenIs tokens (·.isMark '{') i ∨ Quiet tokens i j)

/-- Indices that form a run. -/
structure InOrder (indices : List Nat) : Prop where
  chain : indices.IsChain (Adjacent tokens)
  loud : ∀ i ∈ indices, Loud tokens i

variable {tokens}

theorem tokenIs_iff {p : Token → Bool} {i : Nat} :
    tokenIs tokens p i ↔ ∃ t, tokens[i]? = some t ∧ p t := by
  unfold tokenIs
  cases tokens[i]? <;> simp

theorem tokenIs_of_getElem? {p : Token → Bool} {i : Nat} {t : Token} (h : tokens[i]? = some t) :
    tokenIs tokens p i = p t := by
  simp [tokenIs, h]

theorem Quiet.refl (i : Nat) : Quiet tokens i (i + 1) := by
  intro k h₁ h₂
  omega

theorem Quiet.succ {i j : Nat} (h : Quiet tokens i j) (hj : tokenIs tokens (·.isTrivia) j) :
    Quiet tokens i (j + 1) := by
  intro k h₁ h₂
  rcases Nat.lt_succ_iff_lt_or_eq.mp h₂ with hlt | rfl
  · exact h k h₁ hlt
  · exact hj

/-- Code behind the beginning of a quiet stretch stands behind its end. -/
theorem Quiet.le_of_loud {i j k : Nat} (h : Quiet tokens i j) (hloud : Loud tokens k) (hik : i < k) :
    j ≤ k := by
  by_contra hkj
  obtain ⟨t, ht, htrivia⟩ := hloud
  have := h k hik (by omega)
  rw [tokenIs_of_getElem? ht, htrivia] at this
  cases this

namespace InOrder

variable {indices : List Nat}

theorem nil : InOrder tokens [] := ⟨.nil, by simp⟩

/-- A run goes on with an index that its last one has as a neighbour. -/
theorem push (h : InOrder tokens indices) {i : Nat} (hloud : Loud tokens i)
    (hlast : ∀ l ∈ indices.getLast?, Adjacent tokens l i) : InOrder tokens (indices ++ [i]) := by
  constructor
  · refine h.chain.append (List.isChain_singleton i) fun l hl k hk => ?_
    obtain rfl : i = k := by simpa using hk
    exact hlast l hl
  · intro k hk
    rcases List.mem_append.mp hk with hk | hk
    · exact h.loud k hk
    · rwa [List.mem_singleton.mp hk]

theorem pairwise (h : InOrder tokens indices) : indices.Pairwise (· < ·) :=
  List.isChain_iff_pairwise.mp (h.chain.imp fun _ _ h => h.1)

theorem le_getLast (h : InOrder tokens indices) {i l : Nat} (hi : i ∈ indices)
    (hl : indices.getLast? = some l) : i ≤ l := by
  obtain ⟨ys, rfl⟩ := List.getLast?_eq_some_iff.mp hl
  rcases List.mem_append.mp hi with hi | hi
  · exact (List.pairwise_append.mp h.pairwise).2.2 i hi l (by simp) |>.le
  · exact (List.mem_singleton.mp hi).le

end InOrder

/-! ### The leading word -/

/-- Whether a run starts with the word of a label decides that it has no other leading word. -/
theorem head?_of_label {partners : Array (Option Nat)} {i : Nat} {rest : List Nat}
    (h : tokenIs tokens (·.isKeyword ["case", "default"]) i) {head : Head}
    (hhead : head? tokens partners (i :: rest) = some head) : head.kind = .statement := by
  obtain ⟨t, ht, hword⟩ := tokenIs_iff.mp h
  simp only [Lexeme.isKeyword, Bool.and_eq_true, decide_eq_true_eq] at hword
  obtain ⟨hkind, htext⟩ := hword
  have hword (words : List Text) (hwords : ∀ text ∈ (["case", "default"] : List Text),
      words.contains text = false) : t.isKeyword words = false := by
    rw [Lexeme.isKeyword, hwords t.text (List.contains_iff_mem.mp htext), Bool.and_false]
  have hmark : t.isMark '@' = false := by
    simp [Lexeme.isMark, Lexeme.isPunct, hkind]
  have hfrom : fromHead tokens partners (i :: rest) = i :: rest := by
    rw [fromHead.eq_def]
    simp only [tokenIs_of_getElem? ht, hmark, hword modifiers (by decide +kernel),
      hword ["class"] (by decide +kernel), Bool.false_and, Bool.false_eq_true, if_false]
  simp only [head?, hfrom, ht, Option.map_some, Option.some.injEq] at hhead
  rw [← hhead, hword controlKeywords (by decide +kernel), hword declarationKeywords (by decide +kernel)]
  rfl

theorem head?_nil (partners : Array (Option Nat)) : head? tokens partners [] = none := by
  simp [head?, fromHead]

end HouseStyle.Outline
