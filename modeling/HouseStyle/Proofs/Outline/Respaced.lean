import HouseStyle.Proofs.Outline.Spaces
import HouseStyle.Proofs.Outline.Unparenthesized

/-! Lexemes put in at two places. Parentheses may come around a stretch in that way, and white space
may come to its ends. In parentheses the scan passes over line breaks as well. -/

namespace HouseStyle

/-- A token of a lexeme that stands nowhere. -/
def Lexeme.plain (l : Lexeme) : Token :=
  { kind := l.kind, text := l.text, start := 0, line := 0, column := 0 }

/-- The outline of tokens by their lexemes. -/
def Outline.ofLexemes (ls : List Lexeme) (end_ : Text) : Outline :=
  Outline.ofTokens (ls.map Lexeme.plain) end_

namespace Outline

variable {p q r s j m : Nat}

/-! ### Places -/

/-- Where tokens stand when others come in at two places. -/
def opened (p q r s j : Nat) : Nat := if j < p then j else if j < q then j + r else j + s

theorem opened_strictMono (p q : Nat) (hrs : r ≤ s) : StrictMono (opened p q r s) := by
  intro i j hij
  unfold opened
  split_ifs <;> omega

theorem spread_eq_opened (a z : Nat) : spread a z = opened a (z + 1) 1 2 := by
  funext j
  simp only [spread, opened, Nat.lt_succ_iff]

/-- What stands elsewhere came in at one of the places. -/
theorem exists_opened_or (p v x y m : Nat) : (∃ j, opened p (p + v) x (x + y) j = m) ∨
    (∃ k < x, m = p + k) ∨ ∃ k < y, m = p + x + v + k := by
  by_cases hp : m < p
  · exact .inl ⟨m, if_pos hp⟩
  by_cases hx : m < p + x
  · exact .inr (.inl ⟨m - p, by omega, by omega⟩)
  by_cases hv : m < p + x + v
  · exact .inl ⟨m - x, by unfold opened; split_ifs <;> omega⟩
  by_cases hy : m < p + x + v + y
  · exact .inr (.inr ⟨m - (p + x + v), by omega, by omega⟩)
  · exact .inl ⟨m - (x + y), by unfold opened; split_ifs <;> omega⟩

section

variable {α : Type} (us xs vs ys ws : List α)

theorem getElem?_opened (j : Nat) :
    (us ++ xs ++ vs ++ ys ++ ws)[opened us.length (us.length + vs.length) xs.length
      (xs.length + ys.length) j]? = (us ++ vs ++ ws)[j]? := by
  unfold opened
  split_ifs with hp hq
  · simp only [List.append_assoc]
    rw [List.getElem?_append_left hp, List.getElem?_append_left hp]
  · simp only [List.append_assoc]
    rw [List.getElem?_append_right (by omega), List.getElem?_append_right (by omega),
      List.getElem?_append_left (by omega), List.getElem?_append_right (by omega),
      List.getElem?_append_left (by omega)]
    congr 1
    omega
  · rw [List.getElem?_append_right (by simp only [List.length_append]; omega),
      List.getElem?_append_right (by simp only [List.length_append]; omega)]
    congr 1
    simp only [List.length_append]
    omega

theorem getElem?_first {k : Nat} (hk : k < xs.length) :
    (us ++ xs ++ vs ++ ys ++ ws)[us.length + k]? = xs[k]? := by
  simp only [List.append_assoc]
  rw [List.getElem?_append_right (Nat.le_add_right _ _), Nat.add_sub_cancel_left,
    List.getElem?_append_left hk]

theorem getElem?_second {k : Nat} (hk : k < ys.length) :
    (us ++ xs ++ vs ++ ys ++ ws)[us.length + xs.length + vs.length + k]? = ys[k]? := by
  rw [List.append_assoc (us ++ xs ++ vs), ← List.length_append, ← List.length_append,
    List.getElem?_append_right (Nat.le_add_right _ _), Nat.add_sub_cancel_left,
    List.getElem?_append_left hk]

end

/-! ### Renamings -/

variable {us xs vs ys ws : List Lexeme} {end_ : Text}

theorem renaming_opened (us xs vs ys ws : List Lexeme) :
    Renaming ((us ++ vs ++ ws).map Lexeme.plain).toArray
      ((us ++ xs ++ vs ++ ys ++ ws).map Lexeme.plain).toArray
      (opened us.length (us.length + vs.length) xs.length (xs.length + ys.length)) := by
  refine ⟨opened_strictMono _ _ (Nat.le_add_right _ _), fun j => ?_, fun j t t' ht ht' => ?_⟩
  · rw [List.getElem?_toArray, List.getElem?_toArray, List.getElem?_map, List.getElem?_map,
      getElem?_opened]
  · rw [List.getElem?_toArray, List.getElem?_map] at ht ht'
    obtain ⟨l, -, rfl⟩ := Option.map_eq_some_iff.mp ht
    obtain ⟨l', -, rfl⟩ := Option.map_eq_some_iff.mp ht'
    rfl

theorem loud_plain {ls : List Lexeme} {l : Lexeme} (hl : ls[j]? = some l)
    (hcode : l.isTrivia = false) : Loud (ls.map Lexeme.plain).toArray j :=
  ⟨l.plain, by rw [List.getElem?_toArray, List.getElem?_map, hl]; rfl, hcode⟩

/-- Parentheses around a stretch that ends with code. -/
theorem encloses_plain {opener closer : Lexeme} (hopen : opener.isMark '(') (hclose : closer.isMark ')')
    (hlast : ∃ l ∈ vs.getLast?, l.isTrivia = false) :
    Encloses ((us ++ vs ++ ws).map Lexeme.plain)
      ((us ++ [opener] ++ vs ++ closer :: ws).map Lexeme.plain) us.length
      (us.length + vs.length - 1) := by
  obtain ⟨l, hl, hcode⟩ := hlast
  obtain ⟨rest, rfl⟩ := List.getLast?_eq_some_iff.mp hl
  have hend : us.length + (rest ++ [l]).length - 1 = us.length + rest.length := by
    rw [List.length_append, List.length_singleton]
    omega
  have hshape : us ++ [opener] ++ (rest ++ [l]) ++ closer :: ws =
      us ++ [opener] ++ (rest ++ [l]) ++ [closer] ++ ws := by simp
  rw [hend]
  constructor
  case le => exact Nat.le_add_right _ _
  case length =>
    simp only [List.length_map, List.length_append, List.length_cons, List.length_nil]
    omega
  case renames =>
    rw [hshape, spread_eq_opened]
    simpa [Nat.add_assoc] using renaming_opened us [opener] (rest ++ [l]) [closer] ws
  case opener =>
    refine ⟨opener.plain, ?_, hopen⟩
    rw [List.getElem?_map, List.append_assoc, List.append_assoc,
      List.getElem?_append_right (Nat.le_refl _), Nat.sub_self]
    rfl
  case closer =>
    refine ⟨closer.plain, ?_, hclose⟩
    rw [List.getElem?_map, List.getElem?_append_right (by
      simp only [List.length_append, List.length_singleton]
      omega), List.length_append,
      List.length_append, List.length_append, List.length_singleton, List.length_singleton,
      show us.length + rest.length + 2 - (us.length + 1 + (rest.length + 1)) = 0 by omega]
    rfl
  case loud =>
    refine loud_plain (l := l) ?_ hcode
    rw [List.append_assoc, List.getElem?_append_right (Nat.le_add_right _ _), Nat.add_sub_cancel_left]
    simp

/-! ### White space -/

/-- The scan passes over white space. -/
theorem thins_blanks (hxs : ∀ l ∈ xs, l.kind = .whitespace) (hys : ∀ l ∈ ys, l.kind = .whitespace) :
    Thins ((us ++ vs ++ ws).map Lexeme.plain) ((us ++ xs ++ vs ++ ys ++ ws).map Lexeme.plain) end_
      (opened us.length (us.length + vs.length) xs.length (xs.length + ys.length)) := by
  refine ⟨renaming_opened us xs vs ys ws, fun m t ht hnot => ?_⟩
  rw [List.getElem?_map] at ht
  obtain ⟨l, hl, rfl⟩ := Option.map_eq_some_iff.mp ht
  have hkind : l.kind = .whitespace := by
    rcases exists_opened_or us.length vs.length xs.length ys.length m with ⟨j, hj⟩ | ⟨k, hk, rfl⟩ |
      ⟨k, hk, rfl⟩
    · exact absurd hj (hnot j)
    · rw [getElem?_first us xs vs ys ws hk] at hl
      exact hxs l (List.mem_of_getElem? hl)
    · rw [getElem?_second us xs vs ys ws hk] at hl
      exact hys l (List.mem_of_getElem? hl)
  refine ⟨by simp [Lexeme.plain, Lexeme.isTrivia, TokenKind.isTrivia, hkind], fun hnewline => ?_⟩
  cases hkind.symm.trans hnewline

/-- What opens inside a pair is closed at its end. -/
theorem stack_before_closer {list : List Token} {i j : Nat}
    (hpaired : (Outline.ofTokens list end_).AllPaired)
    (hij : (Outline.ofTokens list end_).partner? i = some j) (hlt : i < j) (hj : j < list.length) :
    (Scan.before list end_ j).stack = (Scan.before list end_ (i + 1)).stack := by
  obtain ⟨pairs, hdyck⟩ := Scan.exists_dyck_between hpaired hij hj
  have hstands := Scan.stands_stretch list (i + 1) (j - 1)
  have hkept := (@Dyck.nestingAt_shift list list end_ _ _ _ _ _ hdyck hstands hstands rfl).1.1
  have hlength : i + 1 + (Scan.stretch list (i + 1) (j - 1)).length = j := by
    rw [Scan.stretch, List.length_take, List.length_drop]
    omega
  rwa [hlength] at hkept

/-- Right inside a pair that is no brace a group is open, up to the first token and from the last
one. -/
theorem groupDepth_of_inside {list : List Token} {a z : Nat}
    (hpaired : (Outline.ofTokens list end_).AllPaired)
    (hparens : (Outline.ofTokens list end_).partner? a = some z)
    (hopen : tokenIs list.toArray (·.isMark '(') a) (ham : a < m) (hmz : m ≤ z)
    (hquiet : Quiet list.toArray a m ∨ Quiet list.toArray (m - 1) z) :
    (Scan.before list end_ m).groupDepth ≠ 0 := by
  have hz : z < list.length := by
    obtain ⟨t, ht, -⟩ := tokenIs_iff.mp (isBracket_of_partner (partner_symm hparens))
    exact (List.getElem?_eq_some_iff.mp (List.getElem?_toArray.symm.trans ht)).1
  obtain ⟨t, ht, hmark⟩ := tokenIs_iff.mp hopen
  obtain ⟨frame, hframe, -, hcloser⟩ := @Dyck.step_opener list.toArray end_ (nextAfter list)
    (Scan.before list end_ a) t ('(', ')') (by decide) hmark a
  rw [← Scan.before_succ (List.getElem?_toArray.symm.trans ht)] at hframe
  have hstack : (Scan.before list end_ m).stack = (Scan.before list end_ (a + 1)).stack := by
    rcases hquiet with hquiet | hquiet
    · exact Scan.stack_before_of_quiet hquiet ham (by omega)
    · rw [← stack_before_closer hpaired hparens (ham.trans_le hmz) hz]
      rcases hmz.lt_or_eq with hlt | rfl
      · have := @Scan.stack_before_of_quiet list end_ _ _ hquiet (by omega) hz.le
        rwa [Nat.sub_add_cancel (by omega), eq_comm] at this
      · rfl
  rw [(@Scan.before_grouped list end_ m (by omega)).depth, hstack, hframe, openGroups,
    List.takeWhile_cons_of_pos]
  · simp
  · have := (Scan.closer?_eq_some hcloser).2
    simpa using this

/-- At the ends of parentheses the scan passes over line breaks too. -/
theorem thins_inside {a : Nat} (hxs : ∀ l ∈ xs, l.isTrivia) (hys : ∀ l ∈ ys, l.isTrivia)
    (ha : us.length = a + 1) (hopen : ∃ l ∈ us.getLast?, l.isMark '(')
    (hpaired : (ofLexemes (us ++ xs ++ vs ++ ys ++ ws) end_).AllPaired)
    (hparens : (ofLexemes (us ++ xs ++ vs ++ ys ++ ws) end_).partner? a =
      some (us.length + xs.length + vs.length + ys.length)) :
    Thins ((us ++ vs ++ ws).map Lexeme.plain) ((us ++ xs ++ vs ++ ys ++ ws).map Lexeme.plain) end_
      (opened us.length (us.length + vs.length) xs.length (xs.length + ys.length)) := by
  have htrivia {m k : Nat} {zs : List Lexeme} (hzs : ∀ l ∈ zs, l.isTrivia) (hk : k < zs.length)
      (hm : (us ++ xs ++ vs ++ ys ++ ws)[m]? = zs[k]?) :
      tokenIs ((us ++ xs ++ vs ++ ys ++ ws).map Lexeme.plain).toArray (·.isTrivia) m := by
    rw [List.getElem?_eq_getElem hk] at hm
    rw [tokenIs_of_getElem? (by rw [List.getElem?_toArray, List.getElem?_map, hm]; rfl)]
    exact hzs zs[k] (List.getElem_mem hk)
  have hfirst (k : Nat) (hk : k < xs.length) := htrivia hxs hk (getElem?_first us xs vs ys ws hk)
  have hsecond (k : Nat) (hk : k < ys.length) := htrivia hys hk (getElem?_second us xs vs ys ws hk)
  have hopener : tokenIs ((us ++ xs ++ vs ++ ys ++ ws).map Lexeme.plain).toArray (·.isMark '(') a := by
    obtain ⟨l, hl, hmark⟩ := hopen
    rw [List.getLast?_eq_getElem?, ha, Nat.add_sub_cancel] at hl
    rw [tokenIs_of_getElem? (t := l.plain)]
    · exact hmark
    · simp only [List.append_assoc]
      rw [List.getElem?_toArray, List.getElem?_map, List.getElem?_append_left (by omega),
        Option.mem_def.mp hl]
      rfl
  have hpass {m : Nat} {t : Token} (hm : a < m)
      (hle : m ≤ us.length + xs.length + vs.length + ys.length)
      (ht : ((us ++ xs ++ vs ++ ys ++ ws).map Lexeme.plain)[m]? = some t)
      (hthis : tokenIs ((us ++ xs ++ vs ++ ys ++ ws).map Lexeme.plain).toArray (·.isTrivia) m)
      (hquiet : Quiet ((us ++ xs ++ vs ++ ys ++ ws).map Lexeme.plain).toArray a m ∨
        Quiet ((us ++ xs ++ vs ++ ys ++ ws).map Lexeme.plain).toArray (m - 1)
          (us.length + xs.length + vs.length + ys.length)) :
      t.isTrivia ∧ (t.kind = .newline → (Scan.before ((us ++ xs ++ vs ++ ys ++ ws).map Lexeme.plain)
        end_ m).groupDepth ≠ 0) := by
    rw [tokenIs_of_getElem? (List.getElem?_toArray.trans ht)] at hthis
    exact ⟨hthis, fun _ => groupDepth_of_inside hpaired hparens hopener hm hle hquiet⟩
  refine ⟨renaming_opened us xs vs ys ws, fun m t ht hnot => ?_⟩
  rcases (exists_opened_or us.length vs.length xs.length ys.length m).resolve_left
    (by simpa using hnot) with ⟨k, hk, rfl⟩ | ⟨k, hk, rfl⟩
  · refine hpass (by omega) (by omega) ht (hfirst k hk) (.inl fun d had hdm => ?_)
    obtain ⟨e, rfl⟩ := Nat.exists_eq_add_of_le (show us.length ≤ d by omega)
    exact hfirst e (by omega)
  · refine hpass (by omega) (by omega) ht (hsecond k hk) (.inr fun d hmd hdz => ?_)
    obtain ⟨e, rfl⟩ := Nat.exists_eq_add_of_le (show us.length + xs.length + vs.length ≤ d by omega)
    exact hsecond e (by omega)

end Outline

end HouseStyle
