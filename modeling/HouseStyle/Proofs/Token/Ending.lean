import HouseStyle.Proofs.Token.KeptCode
import Mathlib.Data.List.DropRight

/-! The last symbol of a lexeme. Apart from white space and line comments no lexeme that has its
end ends with a space, so taking the spaces off a stretch of lexemes takes off whole lexemes. A stretch
of a text is read as before in front of another text that can stand behind it, if no white space comes
to meet other white space. -/

namespace HouseStyle

namespace Literal

/-- A block comment that closes does so with a slash. -/
theorem commentEnd?_last {depth taken n : Nat} {t : Text} (h : commentEnd? depth taken t = some n) :
    ∃ w r, t = w ++ .char '/' :: r ∧ n = taken + w.length + 1 := by
  fun_induction commentEnd? depth taken t with
  | case1 => cases h
  | case2 => cases h
  | case3 depth taken rest ih =>
    obtain ⟨w, r, rfl, rfl⟩ := ih h
    exact ⟨_ :: _ :: w, r, rfl, by simp only [List.length_cons]; omega⟩
  | case4 depth taken rest =>
    cases h
    exact ⟨[_], rest, rfl, rfl⟩
  | case5 depth taken rest _ ih =>
    obtain ⟨w, r, rfl, rfl⟩ := ih h
    exact ⟨_ :: _ :: w, r, rfl, by simp only [List.length_cons]; omega⟩
  | case6 depth taken _ s rest _ _ ih =>
    obtain ⟨w, r, hw, rfl⟩ := ih h
    exact ⟨_ :: w, r, by rw [hw]; rfl, by simp only [List.length_cons]; omega⟩

/-- A string that closes does so with a quote. -/
theorem stringEnd?_last {cur : Open} {outer : List Open} {taken n : Nat} {t : Text}
    (h : stringEnd? cur outer taken t = some n) :
    ∃ w r, t = w ++ .char '"' :: r ∧ n = taken + w.length + 1 := by
  have hone {s : Sym} {rest : Text} {taken : Nat}
      (h : ∃ w r, rest = w ++ .char '"' :: r ∧ n = taken + 1 + w.length + 1) :
      ∃ w r, s :: rest = w ++ .char '"' :: r ∧ n = taken + w.length + 1 := by
    obtain ⟨w, r, rfl, rfl⟩ := h
    exact ⟨s :: w, r, rfl, by simp only [List.length_cons]; omega⟩
  fun_induction stringEnd? cur outer taken t
  -- A step takes one, two or three symbols, or it closes the string with one quote or three.
  all_goals
    first
    | cases h; done
    | exact hone (‹_ → _› h)
    | exact hone (hone (‹_ → _› h))
    | exact hone (hone (hone (‹_ → _› h)))
    | cases h; exact ⟨[], _, rfl, rfl⟩
    | cases h; exact ⟨[_, _], _, rfl, rfl⟩

theorem string?_last {n : Nat} {t : Text} (h : string? (.char '"' :: t) = some n) :
    ∃ w r, .char '"' :: t = w ++ .char '"' :: r ∧ n = w.length + 1 := by
  obtain ⟨w, r, hdrop, hn⟩ := stringEnd?_last h
  have hle := opening_length_le t
  refine ⟨(.char '"' :: t).take (Quote.opening (.char '"' :: t)).length ++ w, r, ?_, ?_⟩
  · rw [List.append_assoc, ← hdrop, List.take_append_drop]
  · rw [hn, List.length_append, List.length_take, List.length_cons, Nat.min_eq_left hle]

end Literal

namespace Cut

open Literal

variable {s : Sym} {w r : Text} {x : Sym}

/-- A name between grave accents ends with one. -/
theorem graveName?_length_ne (hx : x.isStop) {n : Nat}
    (h : graveName? (s :: w ++ x :: r) = some n) : n ≠ w.length + 2 := by
  by_cases hs : s = .char '\x60'
  · subst hs
    intro hn
    simp only [List.cons_append, graveName?] at h
    split_ifs at h with hclose
    have hrun : run inGraves (w ++ x :: r) = w.length := by
      have := Option.some.inj h
      omega
    rw [hrun, List.drop_left, List.head?_cons, Option.some.injEq] at hclose
    exact Sym.ne_of_isStop hx (by decide) hclose.2
  · rw [List.cons_append, graveName?_eq_none hs] at h
    cases h

/-- Words, numbers, names and operators do not end with a stop: they would be as long without
it. -/
theorem plain_length_ne (hx : x.isStop) (hkind : isOpenEnded (plain s (w ++ x :: r)).kind = false) :
    (plain s (w ++ x :: r)).length ≠ w.length + 2 := by
  have hstops : Text.Stops (x :: r) := .cons hx r
  have hshort {n m : Nat} (h : n = m) (hm : m ≤ w.length + 1) : n ≠ w.length + 2 := by omega
  simp only [plain] at hkind ⊢
  split_ifs at hkind ⊢ with hbreak hblank hdigit hword
  · cases hkind
  · cases hkind
  · have hle : number (s :: w ++ []) ≤ w.length + 1 := by simpa using number_le_length (s :: w)
    exact hshort (number_steady (List.cons_ne_nil s w) hstops hle) hle
  · have hle : (word (s :: w ++ [])).length ≤ w.length + 1 := by
      simpa using (word_bounds hword w).2
    exact hshort (congrArg Cut.length (word_append hstops hle)) hle
  · have hdollar : dollar? (s :: w ++ x :: r) = dollar? (s :: w ++ []) := by
      refine dollar?_append hstops fun n hn => ?_
      simpa using (dollar?_bounds hn).2
    rw [List.cons_append] at hdollar
    cases hd : dollar? (s :: (w ++ x :: r)) with
    | some n =>
      rw [hd] at hdollar
      have := (dollar?_bounds hdollar.symm).2
      simp only [List.append_nil, List.length_cons] at this
      simp only
      omega
    | none =>
      cases hg : graveName? (s :: (w ++ x :: r)) with
      | some n => exact graveName?_length_ne hx hg
      | none =>
        have hle : (operator (s :: w ++ [])).length ≤ w.length + 1 := by
          simpa using (operator_bounds s w).2
        exact hshort (congrArg Cut.length (operator_append hstops hle)) hle

/-- A lexeme that ends with a stop is white space or a line comment, lacks its end or is the stop
alone. -/
theorem next_length_ne (hx : x.isStop) (hslash : x ≠ .char '/')
    (hclosed : (next (s :: w ++ x :: r)).unterminated = false)
    (hkind : (next (s :: w ++ x :: r)).kind ≠ .whitespace ∧
      (next (s :: w ++ x :: r)).kind ≠ .newline)
    (hline : ¬(s = .char '/' ∧ (w ++ x :: r).head? = some (.char '/'))) :
    (next (s :: w ++ x :: r)).length ≠ w.length + 2 := by
  have hlast {c : Char} {u v : Text} (h : s :: (w ++ x :: r) = u ++ .char c :: v)
      (hu : u.length = w.length + 1) : x = .char c := by
    have : (s :: w) ++ x :: r = u ++ .char c :: v := h
    have := (List.append_inj this (by simp [hu])).2
    exact (List.cons.inj this).1
  rw [List.cons_append, next_cons] at hclosed hkind ⊢
  split_ifs at hclosed hkind ⊢ with hbreaks hblock hstring
  · exact absurd rfl hkind.2
  · cases hend : blockComment? (s :: (w ++ x :: r)) with
    | none =>
      rw [hend] at hclosed
      cases hclosed
    | some n =>
      intro hn
      obtain ⟨u, v, hu, hlength⟩ := commentEnd?_last hend
      simp only [upTo] at hn
      exact hslash (hlast hu (by omega))
  · subst hstring
    cases hend : string? (.char '"' :: (w ++ x :: r)) with
    | none =>
      rw [hend] at hclosed
      cases hclosed
    | some n =>
      intro hn
      obtain ⟨u, v, hu, hlength⟩ := string?_last hend
      simp only [upTo] at hn
      exact Sym.ne_of_isStop hx (by decide) (hlast hu (by omega))
  · have hbreak : s.isBreak = false := by
      by_contra hbreak
      rw [plain, if_pos (by simpa using hbreak)] at hkind
      exact hkind.2 rfl
    have hblank : s.isBlank = false := by
      by_contra hblank
      rw [plain, if_neg (by simp [hbreak]), if_pos (by simpa using hblank)] at hkind
      exact hkind.1 rfl
    exact plain_length_ne hx (isOpenEnded_plain hblank hbreak _)

end Cut

/-- Whether a lexeme is made of white space. -/
def Lexeme.isSpace (l : Lexeme) : Bool := l.kind = .whitespace || l.kind = .newline

section

variable {l : Lexeme} {ls : List Lexeme}

/-- White space is made of spaces. -/
theorem IsLexed.all_isSpace (h : IsLexed (l :: ls)) (hl : l.isSpace) : ∀ s ∈ l.text, s.isSpace := by
  obtain ⟨s, w, htext⟩ := List.exists_cons_of_ne_nil h.cons.1
  simp only [Lexeme.isSpace, Bool.or_eq_true, decide_eq_true_eq] at hl
  rw [htext]
  refine isSpace_of_trails (h.trails htext ?_) rfl ?_
  · rcases hl with hl | hl <;> rw [hl] <;> rfl
  · rcases hl with hl | hl <;> rw [hl] <;> exact TokenKind.noConfusion

/-- Any other lexeme does not begin with a space. -/
theorem IsLexed.head?_not_isSpace (h : IsLexed (l :: ls)) (hl : l.isSpace = false) :
    ∀ s ∈ l.text.head?, s.isSpace = false := by
  obtain ⟨s, w, htext⟩ := List.exists_cons_of_ne_nil h.cons.1
  have hcut := h.cons.2.1
  intro c hc
  obtain rfl : s = c := by simpa [htext] using hc
  by_contra hspace
  have hkind : l.kind = (Cut.next (l.text ++ joined ls)).kind := by rw [hcut]; rfl
  rw [htext, List.cons_append] at hkind
  rcases isBlank_or_isBreak (by simpa using hspace) with hblank | hbreak
  · rw [Cut.next_of_isBlank hblank] at hkind
    simp [Lexeme.isSpace, hkind] at hl
  · rw [Cut.next_of_isBreak hbreak] at hkind
    simp [Lexeme.isSpace, hkind] at hl

/-- Nor does it end with one, unless it is a line comment or lacks its end. -/
theorem IsLexed.getLast?_not_isSpace (h : IsLexed (l :: ls)) (hl : l.isSpace = false)
    (hline : l.isLineComment = false) (hclosed : l.unterminated = false) :
    ∀ s ∈ l.text.getLast?, s.isSpace = false := by
  intro x hx
  by_contra hspace
  have hstop : x.isStop := Sym.isStop_of_isSpace (by simpa using hspace)
  obtain ⟨u, hu⟩ := List.getLast?_eq_some_iff.mp hx
  cases u with
  | nil => exact hspace (h.head?_not_isSpace hl x (by simp [hu]))
  | cons s w =>
    have hcut : Cut.next (s :: w ++ x :: joined ls) = l.cut := by
      have := h.cons.2.1
      rwa [hu, List.append_assoc, List.singleton_append] at this
    have hslash : x ≠ .char '/' := by
      rintro rfl
      exact hspace (by decide)
    refine @Cut.next_length_ne s w (joined ls) x hstop hslash ?_ ?_ ?_ ?_
    · rw [hcut]
      exact hclosed
    · rw [hcut]
      simpa [Lexeme.isSpace, Lexeme.cut] using hl
    · rintro ⟨rfl, hhead⟩
      rw [List.cons_append, Cut.next_cons, if_neg (by simp), if_pos ⟨rfl, hhead⟩] at hcut
      have hkind : l.kind = .comment := (congrArg Cut.kind hcut).symm
      cases w with
      | nil => exact hslash (by simpa using hhead)
      | cons c w =>
        obtain rfl : c = .char '/' := by simpa using hhead
        simp [Lexeme.isLineComment, hkind, hu] at hline
    · rw [hcut, Lexeme.cut, hu]
      simp

/-! ### Without the spaces around it -/

theorem Text.strip_append {a b c : Text} (ha : ∀ s ∈ a, s.isSpace) (hc : ∀ s ∈ c, s.isSpace)
    (hhead : ∀ s ∈ b.head?, s.isSpace = false) (hlast : ∀ s ∈ b.getLast?, s.isSpace = false) :
    Text.strip (a ++ b ++ c) = b := by
  have hdrop {t u : Text} (ht : ∀ s ∈ t, s.isSpace) (hu : ∀ s ∈ u.head?, s.isSpace = false) :
      (t ++ u).dropWhile Sym.isSpace = u := by
    rw [List.dropWhile_append_of_pos ht]
    cases u with
    | nil => rfl
    | cons s u => exact List.dropWhile_cons_of_neg (by simp [hu s rfl])
  unfold Text.strip
  by_cases hb : b = []
  · subst hb
    have hall : ∀ s ∈ a ++ c, s.isSpace := by
      intro s hs
      rcases List.mem_append.mp hs with hs | hs
      · exact ha s hs
      · exact hc s hs
    have hnil : (a ++ c).dropWhile Sym.isSpace = [] := List.dropWhile_eq_nil_iff.mpr hall
    simp [hnil]
  · have hhead' : ∀ s ∈ (b ++ c).head?, s.isSpace = false := by
      rwa [List.head?_append_of_ne_nil _ hb]
    rw [List.append_assoc, hdrop ha hhead', List.reverse_append,
      hdrop (by simpa using hc) (by simpa using hlast), List.reverse_reverse]

/-- A list is what it holds between its first and its last item of some kind, and what stands
before and behind. -/
theorem exists_trimmed {α : Type} (p : α → Bool) (xs : List α) :
    ∃ lead core trail, xs = lead ++ core ++ trail ∧ (∀ x ∈ lead, p x) ∧ (∀ x ∈ trail, p x) ∧
      (∀ x ∈ core.head?, p x = false) ∧ ∀ x ∈ core.getLast?, p x = false := by
  refine ⟨xs.takeWhile p, (xs.dropWhile p).rdropWhile p, (xs.dropWhile p).rtakeWhile p, ?_, ?_, ?_,
    fun x hx => ?_, fun x hx => ?_⟩
  · rw [List.append_assoc, List.rdropWhile_append_rtakeWhile, List.takeWhile_append_dropWhile]
  · exact List.all_eq_true.mp List.all_takeWhile
  · exact fun x hx => List.mem_rtakeWhile_imp hx
  · have hfirst : (xs.dropWhile p).head? = some x := by
      obtain ⟨rest, hrest⟩ := List.rdropWhile_prefix p (xs.dropWhile p)
      rw [← hrest, List.head?_append, Option.mem_def.mp hx]
      rfl
    have := List.head?_dropWhile_not p xs
    rw [hfirst] at this
    simpa using this
  · obtain ⟨ys, hys⟩ := List.getLast?_eq_some_iff.mp hx
    have hne : (xs.dropWhile p).rdropWhile p ≠ [] := by simp [hys]
    have := List.rdropWhile_last_not p (xs.dropWhile p) hne
    simpa [hys] using this

/-- Taking the spaces off a stretch takes off the white space at its ends. -/
theorem IsLexed.exists_core {xs : List Lexeme} (h : IsLexed (xs ++ ls))
    (hlast : ∀ l ∈ (xs.filter fun l => !l.isSpace).getLast?,
      l.isLineComment = false ∧ l.unterminated = false) :
    ∃ lead core trail, xs = lead ++ core ++ trail ∧ (∀ l ∈ lead, l.isSpace) ∧
      (∀ l ∈ trail, l.isSpace) ∧ (∀ l ∈ core.head?, l.isSpace = false) ∧
      core.getLast? = (xs.filter fun l => !l.isSpace).getLast? ∧
      Text.strip (joined xs) = joined core := by
  obtain ⟨lead, core, trail, rfl, hlead, htrail, hfirst, hfinal⟩ :=
    exists_trimmed Lexeme.isSpace xs
  have hspace {ys zs : List Lexeme} (hys : ∀ l ∈ ys, l.isSpace) (hlexed : IsLexed (ys ++ zs)) :
      ∀ s ∈ joined ys, s.isSpace := by
    induction ys with
    | nil => simp
    | cons l ys ih =>
      intro s hs
      rcases List.mem_append.mp hs with hs | hs
      · exact hlexed.all_isSpace (hys l (by simp)) s hs
      · exact ih (fun l hl => hys l (by simp [hl])) hlexed.cons.2.2 s hs
  have hfilter : ((lead ++ core ++ trail).filter fun l => !l.isSpace).getLast? = core.getLast? := by
    have hnone {ys : List Lexeme} (hys : ∀ l ∈ ys, l.isSpace) :
        ys.filter (fun l => !l.isSpace) = [] := by
      simpa using hys
    rw [List.filter_append, List.filter_append, hnone hlead, hnone htrail, List.nil_append,
      List.append_nil]
    cases hl : core.getLast? with
    | none =>
      rw [List.getLast?_eq_none_iff.mp hl]
      rfl
    | some l =>
      obtain ⟨ys, rfl⟩ := List.getLast?_eq_some_iff.mp hl
      rw [List.filter_append, List.filter_cons_of_pos (by simp [hfinal l hl])]
      simp
  rw [List.append_assoc, List.append_assoc] at h
  have hcore := h.append_right
  refine ⟨lead, core, trail, rfl, hlead, htrail, hfirst, hfilter.symm, ?_⟩
  rw [joined_append, joined_append]
  refine Text.strip_append (hspace hlead h) (hspace htrail hcore.append_right) ?_ ?_
  · cases core with
    | nil => simp
    | cons l core =>
      rw [joined_cons, List.head?_append_of_ne_nil _ hcore.cons.1]
      exact hcore.head?_not_isSpace (hfirst l rfl)
  · intro s hs
    cases hl : core.getLast? with
    | none =>
      rw [List.getLast?_eq_none_iff.mp hl] at hs
      cases hs
    | some l =>
      obtain ⟨ys, rfl⟩ := List.getLast?_eq_some_iff.mp hl
      rw [List.append_assoc] at hcore
      have hlexed : IsLexed (l :: (trail ++ ls)) := hcore.append_right
      obtain ⟨hline, hclosed⟩ := hlast l (by rw [hfilter, hl]; rfl)
      refine hlexed.getLast?_not_isSpace (hfinal l hl) hline hclosed s ?_
      rwa [joined_append, joined_cons, joined_nil, List.append_nil,
        List.getLast?_append_of_ne_nil _ hlexed.cons.1] at hs

end

/-! ### Lexemes put together -/

variable {l : Lexeme} {ls us vs : List Lexeme} {t : Text}

theorem run_append_of_head? {p : Sym → Bool} {w t : Text} (hw : ∀ s ∈ w, p s)
    (ht : ∀ s ∈ t.head?, p s = false) : Literal.run p (w ++ t) = w.length := by
  rw [Literal.run, List.takeWhile_append_of_pos hw]
  cases t with
  | nil => simp
  | cons s t => simp [ht s rfl]

theorem head?_of_run_append {p : Sym → Bool} {w t : Text} (h : Literal.run p (w ++ t) = w.length) :
    ∀ s ∈ t.head?, p s = false := by
  have hw := all_of_length_le_run h.ge
  intro s hs
  obtain ⟨rest, rfl⟩ := List.head?_eq_some_iff.mp hs
  by_contra hp
  rw [Literal.run, List.takeWhile_append_of_pos hw, List.length_append,
    List.takeWhile_cons_of_pos (by simpa using hp), List.length_cons] at h
  omega

/-- White space or a comment is cut off in front of another text. -/
theorem IsLexed.next_trailing (h : IsLexed (l :: ls)) (hopen : Cut.isOpenEnded l.kind)
    (hline : l.isLineComment → ∀ s ∈ t.head?, s.isBreak) (hended : l.unterminated → t = [])
    (hspace : l.isSpace → t.head? ≠ (joined ls).head? → ∀ s ∈ t.head?, s.isSpace = false) :
    Cut.next (l.text ++ t) = l.cut := by
  by_cases hkind : l.kind = .comment
  · obtain ⟨b, x, hx, -⟩ := h.exists_of_comment hkind
    have := h.next_reworded hkind hx (.refl x) hline hended
    rw [hx, this, Lexeme.cut, hkind, hx]
  · obtain ⟨s, w, hl⟩ := List.exists_cons_of_ne_nil h.cons.1
    have htrails := h.trails hl hopen
    have hlast : t.head? = (joined ls).head? ∨ ∀ s ∈ t.head?, s.isSpace = false := by
      refine or_iff_not_imp_left.mpr (hspace ?_)
      cases hk : l.kind <;> simp_all [Cut.isOpenEnded, Lexeme.isSpace]
    rw [Lexeme.cut, hl]
    obtain ⟨cut, hcut⟩ : ∃ cut : Cut, ⟨l.kind, w.length + 1, l.unterminated⟩ = cut := ⟨_, rfl⟩
    rw [hcut] at htrails
    change Cut.next (s :: w ++ t) = ⟨l.kind, w.length + 1, l.unterminated⟩
    cases htrails with
    | blanks hblank =>
      have hlength : Literal.run Sym.isBlank (s :: w ++ joined ls) = (s :: w).length :=
        (congrArg Cut.length hcut).symm
      have hblanks : ∀ s ∈ t.head?, s.isBlank = false := by
        rcases hlast with hsame | hlast
        · rw [hsame]
          exact head?_of_run_append hlength
        · exact fun s hs => by simp [Sym.isBlank, hlast s hs]
      rw [List.cons_append, Cut.next_of_isBlank hblank, ← List.cons_append,
        run_append_of_head? (all_of_length_le_run hlength.ge) hblanks]
      exact congrArg (fun cut : Cut => (⟨cut.kind, w.length + 1, cut.unterminated⟩ : Cut)) hcut.symm
    | lineBreak hbreak =>
      rw [List.cons_append, Cut.next_of_isBreak hbreak]
      cases w with
      | cons d w => exact hcut.symm
      | nil =>
        rcases hlast with hsame | hlast
        · rw [List.nil_append, hsame]
          exact hcut.symm
        have hhead : t.head? ≠ some (.char '\n') := fun ht => absurd (hlast _ ht) (by decide)
        rw [List.nil_append, if_neg fun h => hhead h.2]
        exact congrArg (fun cut : Cut => (⟨cut.kind, 1, cut.unterminated⟩ : Cut)) hcut.symm
    | line => exact absurd (congrArg Cut.kind hcut) hkind
    | block =>
      refine absurd ((congrArg Cut.kind hcut).trans ?_) hkind
      cases Literal.blockComment? (s :: (w ++ joined ls)) <;> rfl

/-- A stretch of a text is read as before in front of another text. -/
theorem IsLexed.glue (h : IsLexed (us ++ ls)) (hvs : IsLexed vs)
    (hseam : ∀ l ∈ us.getLast?, Seam l (joined ls) (joined vs))
    (hspace : ∀ l ∈ us.getLast?, l.isSpace → (joined vs).head? ≠ (joined ls).head? →
      ∀ s ∈ (joined vs).head?, s.isSpace = false)
    (hgrave : (∃ l ∈ us, l.isGrave) → .char '\x60' ∈ (joined vs).firstLine →
      .char '\x60' ∈ (joined ls).firstLine) : IsLexed (us ++ vs) := by
  induction us with
  | nil => exact hvs
  | cons l us ih =>
    obtain ⟨hne, hcut, hrest⟩ := h.cons
    have hl : l.isGrave → .char '\x60' ∈ (joined vs).firstLine → .char '\x60' ∈ (joined ls).firstLine :=
      fun hl => hgrave ⟨l, by simp, hl⟩
    have htail : IsLexed (us ++ vs) := by
      refine ih hrest (fun l' hl' => hseam l' ?_) (fun l' hl' => hspace l' ?_)
        fun ⟨l', hl', hmark⟩ => hgrave ⟨l', by simp [hl'], hmark⟩
      all_goals
        rw [List.getLast?_cons, Option.mem_def.mp hl']
        rfl
    have hnext : Cut.next (l.text ++ joined (us ++ vs)) = l.cut := by
      cases us with
      | nil =>
        have hseam := hseam l rfl
        by_cases hopen : Cut.isOpenEnded l.kind
        · exact h.next_trailing hopen hseam.line hseam.ended (hspace l rfl)
        · by_cases hended : l.unterminated
          · -- Nothing stands behind the lexeme, neither before nor now.
            have hnil : joined ls = [] := h.nil_of_unterminated hended
            change Cut.next (l.text ++ joined ls) = l.cut at hcut
            rwa [hnil, ← hseam.ended hended] at hcut
          · refine IsLexed.next_append (a := []) (b := joined ls) h rfl hseam.stops (by simpa using hended) (fun _ => ⟨?_, ?_, ?_⟩) hl
            · simpa using hopen
            · exact fun hslash ht => h.head?_ne_slash hslash (hseam.slash hslash ht)
            · exact hseam.grave
      | cons l' us =>
        have ha : joined (l' :: us) ≠ [] := by simp [hrest.cons.1]
        have hstops : (joined vs).Stops :=
          (hseam ((l' :: us).getLast (by simp)) (by simp [List.getLast?_eq_some_getLast])).stops
        have hclosed : l.unterminated = false := by
          by_contra hended
          have := h.nil_of_unterminated (by simpa using hended)
          simp [hrest.cons.1] at this
        rw [joined_append]
        exact h.next_append (by simp) hstops hclosed (fun hnil => absurd hnil ha) hl
    rw [List.cons_append, IsLexed, joined_cons, lexemes_append_of_next hne hnext, htail]

end HouseStyle
