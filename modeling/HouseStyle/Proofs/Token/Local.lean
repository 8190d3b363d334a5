import HouseStyle.Proofs.Token.Place
import Mathlib.Order.Monotone.Basic

/-! Lexing is local. A lexeme needs nothing of the text before it, and of the text behind it no more
than that it does not go on there, so it stays as it is when either is cut off. The tokens of a slice
that begins and ends with tokens are those tokens, counted from where the slice begins. -/

namespace HouseStyle

/-! ### The next lexeme -/

namespace Cut

open Literal

variable {s : Sym} {w b : Text}

theorem plain_of_append (h : (plain s (w ++ b)).length ≤ w.length + 1) :
    plain s w = plain s (w ++ b) := by
  have hstops : Text.Stops [] := by simp [Text.Stops]
  have hrun {p : Sym → Bool} (h : run p (s :: w ++ b) ≤ w.length + 1) :
      run p (s :: w) = run p (s :: w ++ b) := run_of_append h
  simp only [plain] at h ⊢
  split_ifs at h ⊢ with hbreak hblank hdigit hword
  · rfl
  · rw [hrun h, List.cons_append]
  · have := number_steady (List.cons_ne_nil s w) hstops h
    rw [List.append_nil] at this
    rw [this, List.cons_append]
  · have := word_append (w := s :: w) hstops h
    rw [List.append_nil] at this
    rw [this, List.cons_append]
  · have hdollar : dollar? (s :: w) = dollar? (s :: (w ++ b)) := by
      have := dollar?_append (s := s) (w := w) (b := b) hstops fun n hn => by
        rw [List.cons_append] at hn
        rw [hn] at h
        exact h
      rwa [List.append_nil] at this
    rw [hdollar]
    cases hd : dollar? (s :: (w ++ b)) with
    | some n => rfl
    | none =>
      rw [hd] at h
      cases hg : graveName? (s :: (w ++ b)) with
      | some n =>
        rw [hg] at h
        have : graveName? (s :: w ++ []) = some n := graveName?_append hg h
        rw [List.append_nil] at this
        rw [this]
      | none =>
        rw [hg] at h
        cases hg' : graveName? (s :: w) with
        | none =>
          have := operator_append (s := s) (w := w) (b := b) hstops h
          rwa [List.append_nil] at this
        | some n =>
          -- A name that closes in the part closes in the whole.
          have hbounds := (graveName?_bounds hg').2
          rw [← List.append_nil (s :: w)] at hg'
          have : graveName? (s :: w ++ b) = some n := graveName?_append hg' hbounds
          rw [List.cons_append, hg] at this
          cases this

/-- A lexeme that lacks its end does not end before the text does. -/
theorem closed_of_append (h : (next (s :: (w ++ b))).length ≤ w.length + 1) (hb : b ≠ []) :
    (next (s :: (w ++ b))).unterminated = false := by
  by_contra hopen
  have hall := ((next_fits (List.cons_ne_nil s (w ++ b))).takes_all (by simpa using hopen)).2
  have := List.length_pos_of_ne_nil hb
  rw [hall, List.length_cons, List.length_append] at h
  omega

theorem upTo_of_append {kind : TokenKind} {n k : Nat} {found found' : Option Nat}
    (h : (upTo kind n found).unterminated = false) (hle : (upTo kind n found).length ≤ k)
    (hfound : ∀ m ≤ k, found = some m → found' = some m) (n' : Nat) :
    upTo kind n' found' = upTo kind n found := by
  cases found with
  | none => cases h
  | some m =>
    rw [hfound m hle rfl]
    rfl

/-- The next lexeme of a text is the next lexeme of every beginning of the text that holds it. -/
theorem next_of_append (h : (next (w ++ b)).length ≤ w.length) (hw : w ≠ []) :
    next w = next (w ++ b) := by
  obtain ⟨s, w, rfl⟩ := List.exists_cons_of_ne_nil hw
  by_cases hb : b = []
  · rw [hb, List.append_nil]
  have hclosed := closed_of_append h hb
  rw [List.cons_append, List.length_cons] at h
  by_cases hnil : w = []
  · subst hnil
    obtain ⟨hplain, hquote⟩ := next_of_single h hclosed
    have halone : next [s] = plain s [] := by
      rw [next_cons, if_neg (by simp), if_neg (by simp), if_neg (by simp), if_neg hquote]
    rw [List.cons_append, halone, hplain]
    exact plain_of_append (hplain ▸ h)
  · have hhead : (w ++ b).head? = w.head? := List.head?_append_of_ne_nil _ hnil
    rw [List.cons_append]
    simp only [next_cons, hhead] at h hclosed ⊢
    split_ifs at h hclosed ⊢ with hbreaks hline hblock hstring
    · rfl
    · have := run_of_append (w := s :: w) h
      rw [this, List.cons_append]
    · refine upTo_of_append hclosed h (fun m hm hfound => ?_) _
      rw [blockComment?, ← List.cons_append] at hfound
      exact commentEnd?_of_append hfound (by rw [Nat.zero_add]; exact hm)
    · subst hstring
      refine upTo_of_append hclosed h (fun m hm hfound => ?_) _
      have : string? (.char '"' :: w ++ []) = some m := string?_append hfound hm (by simp)
      rwa [List.append_nil] at this
    · exact plain_of_append h

end Cut

/-! ### Lexemes -/

/-- Lexemes are cut as they are without those behind them. -/
theorem IsLexed.take {ls : List Lexeme} (h : IsLexed ls) (n : Nat) : IsLexed (ls.take n) := by
  induction ls generalizing n with
  | nil => simpa using h
  | cons l ls ih =>
    cases n with
    | zero => exact lexemes_nil
    | succ n =>
      obtain ⟨hne, hnext, hrest⟩ := h.cons
      have hsplit : joined ls = joined (ls.take n) ++ joined (ls.drop n) := by
        rw [← joined_append, List.take_append_drop]
      rw [hsplit, ← List.append_assoc] at hnext
      have hcut : Cut.next (l.text ++ joined (ls.take n)) = l.cut := by
        rw [Cut.next_of_append _ (by simp [hne]), hnext]
        rw [hnext, List.length_append]
        exact Nat.le_add_right _ _
      rw [List.take_succ_cons, IsLexed, joined_cons, lexemes_append_of_next hne hcut, ih hrest n]

/-- As many lines come before a lexeme as before, where only lexemes without line breaks were put
in. -/
theorem IsLexed.breakCount_take {ls ls' : List Lexeme} {f : Nat → Nat} (h : IsLexed ls)
    (h' : IsLexed ls') (hmono : StrictMono f) (hsame : ∀ j, ls'[f j]? = ls[j]?)
    (hnew : ∀ m l, ls'[m]? = some l → (∀ j, f j ≠ m) → l.text.breakCount = 0) (j : Nat) :
    (joined (ls'.take (f j))).breakCount = (joined (ls.take j)).breakCount := by
  have hsucc {ls : List Lexeme} (h : IsLexed ls) {m : Nat} {l : Lexeme} (hl : ls[m]? = some l) :
      (joined (ls.take (m + 1))).breakCount = (joined (ls.take m)).breakCount + l.text.breakCount := by
    have hsplit : ls.take (m + 1) = ls.take m ++ [l] := by rw [List.take_add_one, hl]; rfl
    have hlexed := h.take (m + 1)
    rw [hsplit] at hlexed ⊢
    rw [joined_append, Text.breakCount_append hlexed.not_partsPair]
    simp
  suffices hplace : ∀ m j, (∀ k, f k < m ↔ k < j) →
      (joined (ls'.take m)).breakCount = (joined (ls.take j)).breakCount from
    hplace (f j) j fun k => hmono.lt_iff_lt
  intro m
  induction m with
  | zero =>
    intro j hj
    obtain rfl : j = 0 := by
      by_contra hne
      exact absurd ((hj 0).mpr (by omega)) (Nat.not_lt_zero _)
    rfl
  | succ m ih =>
    intro j hj
    by_cases hplace : ∃ i, f i = m
    · obtain ⟨i, rfl⟩ := hplace
      obtain rfl : j = i + 1 := by
        have := (hj i).mp (Nat.lt_succ_self _)
        have := hmono.le_iff_le.mp (Nat.lt_succ_iff.mp ((hj (j - 1)).mpr (by omega)))
        omega
      have hbefore := ih i fun k => hmono.lt_iff_lt
      have hi := hsame i
      cases hl : ls[i]? with
      | none =>
        rw [hl] at hi
        rw [List.take_add_one, List.take_add_one, hi, hl]
        simpa using hbefore
      | some l =>
        rw [hl] at hi
        rw [hsucc h' hi, hsucc h hl, hbefore]
    · have hbefore := ih j fun k => by
        have : f k ≠ m := fun heq => hplace ⟨k, heq⟩
        rw [← hj k]
        omega
      cases hl : ls'[m]? with
      | none => rwa [List.take_add_one, hl, Option.toList_none, List.append_nil]
      | some l => rw [hsucc h' hl, hbefore, hnew m l hl (by simpa using hplace), Nat.add_zero]

/-! ### Places counted from a token -/

/-- A place as it is counted from another one before it. -/
def Cursor.seenFrom (origin c : Cursor) : Cursor where
  offset := c.offset - origin.offset
  line := c.line - origin.line + 1
  column := if c.line = origin.line then c.column - origin.column + 1 else c.column

/-- The place where a token starts. -/
def Token.cursor (t : Token) : Cursor := ⟨t.start, t.line, t.column⟩

/-- A token as it is placed in a text that begins with the token `origin`. -/
def Token.seenFrom (origin t : Token) : Token := { t with
  start := t.start - origin.start
  line := t.line - origin.line + 1
  column := if t.line = origin.line then t.column - origin.column + 1 else t.column }

namespace Cursor

/-- A place that is reached from another one. -/
structure Reaches (origin c : Cursor) : Prop where
  offset : origin.offset ≤ c.offset
  line : origin.line ≤ c.line
  column : c.line = origin.line → origin.column ≤ c.column

variable {origin c : Cursor}

theorem Reaches.refl (c : Cursor) : c.Reaches c :=
  ⟨Nat.le_refl _, Nat.le_refl _, fun _ => Nat.le_refl _⟩

@[simp] theorem seenFrom_self (c : Cursor) : c.seenFrom c = {} := by
  simp [seenFrom]

/-- A text leads on from a place in the same way wherever that is counted from. -/
theorem Reaches.after (h : origin.Reaches c) (t : Text) :
    origin.Reaches (c.after t) ∧ (origin.seenFrom c).after t = origin.seenFrom (c.after t) := by
  obtain ⟨hoffset, hline, hcolumn⟩ := h
  have hfree : t.reverse.findIdx? Sym.isBreak = none ↔ t.breakCount = 0 := by
    rw [List.findIdx?_eq_none_iff, Text.breakCount_eq_zero_iff]
    simp
  cases hfound : t.reverse.findIdx? Sym.isBreak with
  | none =>
    have hzero := hfree.mp hfound
    refine ⟨⟨?_, ?_, ?_⟩, ?_⟩
    · simp only [Cursor.after]
      omega
    · simp only [Cursor.after]
      omega
    · simp only [Cursor.after, hfound, hzero]
      omega
    · simp only [Cursor.after, seenFrom, hfound, hzero, Nat.add_zero, Cursor.mk.injEq]
      refine ⟨by omega, trivial, ?_⟩
      split_ifs <;> omega
  | some n =>
    have hpos : t.breakCount ≠ 0 := fun h => by simp [hfree.mpr h] at hfound
    refine ⟨⟨?_, ?_, ?_⟩, ?_⟩
    · simp only [Cursor.after]
      omega
    · simp only [Cursor.after]
      omega
    · simp only [Cursor.after]
      omega
    · simp only [Cursor.after, seenFrom, hfound, Cursor.mk.injEq]
      refine ⟨by omega, by omega, ?_⟩
      rw [if_neg (by omega)]

end Cursor

theorem placed_seenFrom {o : Token} {c : Cursor} (h : o.cursor.Reaches c) (ls : List Lexeme) :
    placed (o.cursor.seenFrom c) ls = (placed c ls).map o.seenFrom := by
  induction ls generalizing c with
  | nil => rfl
  | cons l ls ih =>
    obtain ⟨hreaches, hafter⟩ := h.after l.text
    rw [placed, placed, List.map_cons, hafter, ih hreaches]
    rfl

theorem placed_take (c : Cursor) (ls : List Lexeme) (n : Nat) :
    (placed c ls).take n = placed c (ls.take n) := by
  induction ls generalizing c n with
  | nil => simp [placed]
  | cons l ls ih =>
    cases n with
    | zero => rfl
    | succ n => rw [placed, List.take_succ_cons, ih, List.take_succ_cons, placed]

theorem placed_drop {c : Cursor} {ls : List Lexeme} {k : Nat} {t : Token}
    (ht : (placed c ls)[k]? = some t) : (placed c ls).drop k = placed t.cursor (ls.drop k) := by
  induction ls generalizing c k with
  | nil => simp [placed] at ht
  | cons l ls ih =>
    cases k with
    | zero =>
      obtain rfl : _ = t := Option.some.inj ht
      rfl
    | succ k => exact ih (c := c.after l.text) ht

/-! ### Slices -/

variable {text : Text} {i j : Nat} {a b : Token}

/-- What stands before the end of a token is read as it is without the rest. -/
theorem tokenize_take (hb : (tokenize text)[j]? = some b) :
    tokenize (text.take b.stop) = (tokenize text).take (j + 1) := by
  have hcut : text.take b.stop = joined ((lexemes text).take (j + 1)) := by
    rw [(tokenize_getElem? hb).2.2, ← take_offset, joined, lexemes_join]
  have hlexed := (isLexed_lexemes text).take (j + 1)
  rw [tokenize, hcut, hlexed, tokenize, placed_take]

/-- What stands behind the start of a token is read as it is without the text before, and is counted
from there. -/
theorem tokenize_drop (ha : (tokenize text)[i]? = some a) :
    tokenize (text.drop a.start) = ((tokenize text).drop i).map a.seenFrom := by
  have hcut : text.drop a.start = joined ((lexemes text).drop i) := by
    rw [(tokenize_getElem? ha).2.1, ← drop_offset, joined, lexemes_join]
  have hlexed := (isLexed_lexemes text).drop i
  have hseen := placed_seenFrom (.refl a.cursor) ((lexemes text).drop i)
  rw [Cursor.seenFrom_self] at hseen
  rw [tokenize, hcut, hlexed, tokenize, placed_drop ha, hseen]

/-- Lexing is local. A slice of a text from the start of a token to the end of another one is cut into
the tokens between them, counted from where the slice begins. So each token alone is read as that
token, and a text that is cut between tokens is read the same on both sides. -/
theorem tokenize_slice (hij : i ≤ j) (ha : (tokenize text)[i]? = some a)
    (hb : (tokenize text)[j]? = some b) :
    tokenize ((text.take b.stop).drop a.start) =
      (((tokenize text).take (j + 1)).drop i).map a.seenFrom ∧
    tokenize a.text = [a.seenFrom a] ∧
    tokenize (text.take b.stop) = (tokenize text).take (j + 1) ∧
    tokenize (text.drop a.start) = ((tokenize text).drop i).map a.seenFrom := by
  have hslice {k : Nat} {c : Token} (hik : i ≤ k) (hc : (tokenize text)[k]? = some c) :
      tokenize ((text.take c.stop).drop a.start) =
        (((tokenize text).take (k + 1)).drop i).map a.seenFrom := by
    rw [← tokenize_take hc]
    refine tokenize_drop ?_
    rw [tokenize_take hc, List.getElem?_take_of_lt (Nat.lt_succ_of_le hik), ha]
  refine ⟨hslice hij hb, ?_, tokenize_take hb, tokenize_drop ha⟩
  have htext : (text.take a.stop).drop a.start = a.text := by
    rw [(cutFrom_of_mem_tokenize (List.mem_of_getElem? ha)).text_eq, List.drop_take]
  have halone : ((tokenize text).take (i + 1)).drop i = [a] := by
    obtain ⟨hi, rfl⟩ := List.getElem?_eq_some_iff.mp ha
    rw [List.drop_take, Nat.add_sub_cancel_left, List.drop_eq_getElem_cons hi]
    rfl
  rw [← htext, hslice (Nat.le_refl i) ha, halone, List.map_singleton]

/-- A number before a letter, on the second line of a text. -/
theorem tokenize_slice_number :
    tokenize "1.5e" = [⟨⟨.literal, "1.5", false⟩, 0, 1, 1⟩, ⟨⟨.identifier, "e", false⟩, 3, 1, 4⟩] := by
  have hslice := (@tokenize_slice "a\n 1.5e" 3 4 ⟨⟨.literal, "1.5", false⟩, 3, 2, 2⟩
    ⟨⟨.identifier, "e", false⟩, 6, 2, 5⟩ (by decide) (by decide +kernel) (by decide +kernel)).1
  have htokens : ((tokenize "a\n 1.5e").take 5).drop 3 =
      [⟨⟨.literal, "1.5", false⟩, 3, 2, 2⟩, ⟨⟨.identifier, "e", false⟩, 6, 2, 5⟩] := by
    decide +kernel
  calc tokenize "1.5e"
      = tokenize ((("a\n 1.5e" : Text).take 7).drop 3) := congrArg tokenize (by decide +kernel)
    _ = _ := hslice.trans (congrArg (List.map _) htokens)
    _ = _ := by decide

end HouseStyle
