import HouseStyle.Proofs.Token.Scanners
import HouseStyle.Proofs.Token.Partition

/-! A lexeme is cut the same way when the text behind it changes, as long as the new text begins
with a stop. Three kinds need more: a slash must not come to stand before another one, a line
comment must still end, and a grave accent that stands alone must stay alone on its line. -/

namespace HouseStyle

/-- The part of a text before its first line break. -/
def Text.firstLine (t : Text) : Text := t.takeWhile fun s => !s.isBreak

namespace Text

theorem mem_firstLine_append {w b : Text} (hw : ∀ s ∈ w, s.isBreak = false) (s : Sym) :
    s ∈ (w ++ b).firstLine ↔ s ∈ w ∨ s ∈ b.firstLine := by
  unfold firstLine
  rw [List.takeWhile_append_of_pos (by simpa using hw), List.mem_append]

theorem firstLine_append_of_isBreak {w : Text} (h : ∃ s ∈ w, s.isBreak) (b : Text) :
    (w ++ b).firstLine = w.firstLine := by
  unfold firstLine
  rw [List.takeWhile_append, if_neg]
  intro hlength
  obtain ⟨s, hs, hbreak⟩ := h
  have hall : w.takeWhile (fun s => !s.isBreak) = w :=
    (List.takeWhile_prefix _).eq_of_length hlength
  have hplain : ∀ s ∈ w.takeWhile (fun s => !s.isBreak), !s.isBreak :=
    List.all_eq_true.mp List.all_takeWhile
  rw [hall] at hplain
  have := hplain s hs
  rw [hbreak] at this
  cases this

/-- A part holds a break or goes on with the line. -/
theorem break_or_line (w : Text) : (∃ s ∈ w, s.isBreak) ∨ ∀ s ∈ w, s.isBreak = false := by
  by_cases h : ∃ s ∈ w, s.isBreak
  · exact .inl h
  · exact .inr fun s hs => by simpa using fun hbreak => h ⟨s, hs, hbreak⟩

/-- What comes to the line of a part is what comes to the line behind it. -/
theorem mem_firstLine_append_mono {s : Sym} {b b' : Text} (h : s ∈ b'.firstLine → s ∈ b.firstLine)
    (w : Text) (hs : s ∈ (w ++ b').firstLine) : s ∈ (w ++ b).firstLine := by
  rcases break_or_line w with hbreak | hline
  · rwa [firstLine_append_of_isBreak hbreak] at hs ⊢
  · rw [mem_firstLine_append hline] at hs ⊢
    exact hs.imp_right h

end Text

namespace Cut

open Literal

/-! ### Words and punctuation -/

theorem word_append {w b b' : Text} (hb' : b'.Stops) (h : (word (w ++ b)).length ≤ w.length) :
    word (w ++ b') = word (w ++ b) := by
  have hrun : (w ++ b').takeWhile Sym.isWord = (w ++ b).takeWhile Sym.isWord := by
    have hb : run Sym.isWord (w ++ b) ≤ w.length := h
    have heq := run_steady (fun _ => Sym.isWord_of_isStop) w b b' hb' hb
    rw [List.prefix_iff_eq_take.mp (List.takeWhile_prefix Sym.isWord (l := w ++ b')),
      List.prefix_iff_eq_take.mp (List.takeWhile_prefix Sym.isWord (l := w ++ b))]
    unfold run at heq hb
    rw [heq, List.take_append_of_le_length hb, List.take_append_of_le_length hb]
  unfold word
  rw [hrun]

theorem dollar?_cons (t : Text) : dollar? (.char '$' :: t) =
    if run Sym.isWord t = 0 then none else some (run Sym.isWord t + 1) := by
  simp only [dollar?]
  split <;> simp_all

theorem dollar?_eq_none {s : Sym} (h : s ≠ .char '$') (t : Text) : dollar? (s :: t) = none := by
  unfold dollar?
  split
  · simp_all
  · rfl

theorem dollar?_append {s : Sym} {w b b' : Text} (hb' : b'.Stops)
    (h : ∀ n, dollar? (s :: w ++ b) = some n → n ≤ w.length + 1) :
    dollar? (s :: w ++ b') = dollar? (s :: w ++ b) := by
  by_cases hs : s = .char '$'
  · subst hs
    simp only [List.cons_append, dollar?_cons] at h ⊢
    rw [run_steady (fun _ => Sym.isWord_of_isStop) w b b' hb']
    split_ifs at h with hzero
    · omega
    · have := h _ rfl
      omega
  · rw [List.cons_append, dollar?_eq_none hs, List.cons_append, dollar?_eq_none hs]

/-- No operator goes on with a stop. -/
theorem tail_operator_not_isStop : ∀ op ∈ operators, ∀ s ∈ op.tail, s.isStop = false := by
  decide +kernel

/-- An operator that begins a text does not reach into a part of it that stops. -/
theorem operator_prefix_of_stops {op : Text} (hop : op ∈ operators) {s : Sym} {w b : Text}
    (hb : b.Stops) (h : op <+: s :: w ++ b) : op <+: s :: w := by
  obtain ⟨rest, hrest⟩ := h
  rcases List.append_eq_append_iff.mp hrest with ⟨r, hw, -⟩ | ⟨r, hop', hb'⟩
  · exact ⟨r, hw.symm⟩
  · cases r with
    | nil => simp [hop']
    | cons c r =>
      subst hop' hb'
      have hstop : c.isStop := hb c rfl
      rw [tail_operator_not_isStop _ hop c (by simp)] at hstop
      cases hstop

theorem find?_eq_of_imp {α : Type} {p q : α → Bool} {l : List α} (h : ∀ x ∈ l, q x → p x)
    (hfind : ∀ x, l.find? p = some x → q x) : l.find? q = l.find? p := by
  induction l with
  | nil => rfl
  | cons a rest ih =>
    by_cases ha : p a
    · have hq : q a := hfind a (by simp [ha])
      simp [ha, hq]
    · have hq : ¬q a := fun hq => ha (h a (by simp) hq)
      rw [List.find?_cons_of_neg ha, List.find?_cons_of_neg hq]
      refine ih (fun x hx => h x (by simp [hx])) fun x hx => hfind x ?_
      rwa [List.find?_cons_of_neg ha]

theorem operator_append {s : Sym} {w b b' : Text} (hb' : b'.Stops)
    (h : (operator (s :: w ++ b)).length ≤ w.length + 1) :
    operator (s :: w ++ b') = operator (s :: w ++ b) := by
  have hfind : operators.find? (·.isPrefixOf (s :: w ++ b')) =
      operators.find? (·.isPrefixOf (s :: w ++ b)) := by
    refine find?_eq_of_imp (fun op hop hpre => ?_) fun op hop => ?_
    · rw [List.isPrefixOf_iff_prefix] at hpre ⊢
      exact (operator_prefix_of_stops hop hb' hpre).trans (List.prefix_append _ _)
    · have hpre := List.find?_some hop
      rw [List.isPrefixOf_iff_prefix] at hpre ⊢
      simp only [operator, hop, Option.map_some, Option.getD_some] at h
      have hw : op <+: s :: w :=
        List.prefix_of_prefix_length_le hpre (List.prefix_append _ _) h
      exact hw.trans (List.prefix_append _ _)
  unfold operator
  rw [hfind]

/-! ### Grave accents -/

theorem graveName?_eq_none {s : Sym} (h : s ≠ .char '\x60') (t : Text) :
    graveName? (s :: t) = none := by
  unfold graveName?
  split
  · simp_all
  · rfl

/-- A text is what a run takes of it and a rest that the run does not go on with. -/
theorem exists_run (p : Sym → Bool) (t : Text) : ∃ x d : Text,
    t = x ++ d ∧ run p t = x.length ∧ (∀ s ∈ x, p s) ∧ ∀ s ∈ d.head?, p s = false := by
  refine ⟨t.takeWhile p, t.dropWhile p, ?_, rfl, ?_, fun s hs => ?_⟩
  · rw [List.takeWhile_append_dropWhile]
  · exact List.all_eq_true.mp List.all_takeWhile
  · have := List.head?_dropWhile_not p t
    rw [Option.mem_def.mp hs] at this
    simpa using this

/-- A grave accent begins no name where another one follows at once or none does on the line. -/
theorem graveName?_eq_none_iff (t : Text) : graveName? (.char '\x60' :: t) = none ↔
    t.head? = some (.char '\x60') ∨ .char '\x60' ∉ t.firstLine := by
  obtain ⟨x, d, rfl, hrun, hx, hd⟩ := exists_run inGraves t
  have hplain : ∀ s ∈ x, s ≠ .char '\x60' ∧ s.isBreak = false := by
    intro s hs
    have := hx s hs
    simp only [inGraves, Bool.not_eq_true', Bool.or_eq_false_iff] at this
    exact ⟨fun h => by simp [h, Sym.is] at this, this.2⟩
  have hmem : Sym.char '\x60' ∈ (x ++ d).firstLine ↔ Sym.char '\x60' ∈ Text.firstLine d := by
    rw [Text.mem_firstLine_append fun s hs => (hplain s hs).2, or_iff_right]
    exact fun h => (hplain _ h).1 rfl
  have hname : graveName? (.char '\x60' :: (x ++ d)) =
      if x.length ≠ 0 ∧ d.head? = some (.char '\x60') then some (x.length + 2) else none := by
    simp only [graveName?, hrun, List.drop_left]
  rw [hmem, hname]
  cases d with
  | nil => simp [Text.firstLine]
  | cons c d =>
    have hc := hd c rfl
    simp only [inGraves, Bool.not_eq_false', Bool.or_eq_true, Sym.is_iff] at hc
    rcases hc with rfl | hbreak
    · have hfirst : Sym.char '\x60' ∈ Text.firstLine (.char '\x60' :: d) := by
        simp [Text.firstLine, Sym.isBreak, Sym.is]
      cases x with
      | nil => simp
      | cons s x =>
        have := (hplain s (by simp)).1
        simpa [this] using hfirst
    · have hne : c ≠ .char '\x60' := by
        rintro rfl
        exact absurd hbreak (by decide)
      simp [Text.firstLine, hbreak, hne]

theorem graveName?_append {s : Sym} {w b b' : Text} {n : Nat}
    (h : graveName? (s :: w ++ b) = some n) (hn : n ≤ w.length + 1) :
    graveName? (s :: w ++ b') = some n := by
  by_cases hs : s = .char '\x60'
  · subst hs
    simp only [List.cons_append, graveName?] at h ⊢
    split_ifs at h with hclose
    cases h
    have hlt : run inGraves (w ++ b) < w.length := by omega
    have hdrop (r : Text) : ((w ++ r).drop (run inGraves (w ++ b))).head? =
        (w.drop (run inGraves (w ++ b))).head? := by
      rw [List.drop_append_of_le_length hlt.le, List.head?_append_of_ne_nil]
      exact fun hnil => by
        have := List.drop_eq_nil_iff.mp hnil
        omega
    rw [run_append_of_lt hlt b', hdrop b']
    rw [hdrop b] at hclose
    rw [if_pos hclose]
  · rw [List.cons_append, graveName?_eq_none hs] at h
    cases h

/-! ### The next lexeme -/

/-- The cut of a text that begins with no comment, no string and no pair of break symbols. -/
def plain (s : Sym) (t : Text) : Cut :=
  if s.isBreak then ⟨.newline, 1, false⟩
  else if s.isBlank then ⟨.whitespace, run Sym.isBlank (s :: t), false⟩
  else if s.isDigit then ⟨.literal, number (s :: t), false⟩
  else if s.isWord then word (s :: t)
  else match dollar? (s :: t) with
    | some n => ⟨.identifier, n, false⟩
    | none => match graveName? (s :: t) with
      | some n => ⟨.identifier, n, false⟩
      | none => operator (s :: t)

theorem next_cons (s : Sym) (t : Text) : next (s :: t) =
    if s = .char '\r' ∧ t.head? = some (.char '\n') then ⟨.newline, 2, false⟩
    else if s = .char '/' ∧ t.head? = some (.char '/') then
      ⟨.comment, run (fun s => !s.isBreak) (s :: t), false⟩
    else if s = .char '/' ∧ t.head? = some (.char '*') then
      upTo .comment (t.length + 1) (blockComment? (s :: t))
    else if s = .char '"' then upTo .string (t.length + 1) (string? (s :: t))
    else plain s t := by
  rw [next.eq_def]
  split
  · next h => cases h
  · next h =>
    cases h
    simp
  · next h =>
    cases h
    simp
  · next h =>
    cases h
    simp
  · next h =>
    cases h
    simp
  · next c rest hbreaks hline hblock hstring h =>
    cases h
    have htail (x : Char) (h : t.head? = some (.char x)) : t = .char x :: t.tail :=
      (List.cons_head?_tail h).symm
    have hbreaks' : ¬(s = .char '\r' ∧ t.head? = some (.char '\n')) :=
      fun h => hbreaks _ h.1 (htail _ h.2)
    have hline' : ¬(s = .char '/' ∧ t.head? = some (.char '/')) :=
      fun h => hline _ h.1 (htail _ h.2)
    have hblock' : ¬(s = .char '/' ∧ t.head? = some (.char '*')) :=
      fun h => hblock _ h.1 (htail _ h.2)
    simp only [if_neg hbreaks', if_neg hline', if_neg hblock', if_neg hstring]
    rfl

/-- Kinds of lexemes that a changed text behind them may make longer, or that must still end
there. -/
def isOpenEnded : TokenKind → Bool
  | .whitespace | .newline | .comment => true
  | _ => false

section Append

variable {s : Sym} {w b b' : Text}

theorem plain_append (hb' : b'.Stops) (hle : (plain s (w ++ b)).length ≤ w.length + 1)
    (hgrave : graveName? (s :: w ++ b) = none → graveName? (s :: w ++ b') = none)
    (hlast : (plain s (w ++ b)).length = w.length + 1 → isOpenEnded (plain s (w ++ b)).kind = false) :
    plain s (w ++ b') = plain s (w ++ b) := by
  simp only [plain] at hle hlast ⊢
  split_ifs at hle hlast ⊢ with hbreak hblank hdigit hword
  · rfl
  · have hlt : run Sym.isBlank (s :: w ++ b) < (s :: w).length := by
      rcases Nat.lt_or_eq_of_le hle with h | h
      · exact h
      · cases hlast h
    rw [← List.cons_append, run_append_of_lt hlt, List.cons_append]
  · rw [← List.cons_append, number_steady (List.cons_ne_nil s w) hb' hle, List.cons_append]
  · rw [← List.cons_append, word_append hb' hle, List.cons_append]
  · have hdollar : dollar? (s :: w ++ b') = dollar? (s :: w ++ b) := by
      refine dollar?_append hb' fun n hn => ?_
      rw [List.cons_append] at hn
      rw [hn] at hle
      exact hle
    simp only [List.cons_append] at hdollar
    rw [hdollar]
    cases hd : dollar? (s :: (w ++ b)) with
    | some n => rfl
    | none =>
      rw [hd] at hle
      cases hg : graveName? (s :: (w ++ b)) with
      | some n =>
        rw [hg] at hle
        have hname : graveName? (s :: w ++ b') = some n := graveName?_append hg hle
        rw [List.cons_append] at hname
        rw [hname]
      | none =>
        rw [hg] at hle
        have := hgrave hg
        rw [List.cons_append] at this
        rw [this]
        exact operator_append hb' hle

/-- A first lexeme of more than one symbol shows what it is by its first two. -/
theorem next_append_of_ne_nil (hw : w ≠ []) (hb' : b'.Stops)
    (hle : (next (s :: w ++ b)).length ≤ w.length + 1)
    (hclosed : (next (s :: w ++ b)).unterminated = false)
    (hgrave : graveName? (s :: w ++ b) = none → graveName? (s :: w ++ b') = none)
    (hlast : (next (s :: w ++ b)).length = w.length + 1 →
      isOpenEnded (next (s :: w ++ b)).kind = false) :
    next (s :: w ++ b') = next (s :: w ++ b) := by
  have hhead (r : Text) : (w ++ r).head? = w.head? := List.head?_append_of_ne_nil _ hw
  simp only [List.cons_append, next_cons, hhead] at hle hclosed hlast ⊢
  split_ifs at hle hclosed hlast ⊢ with hbreaks hline hblock hstring
  · rfl
  · have hlt : run (fun s => !s.isBreak) (s :: w ++ b) < (s :: w).length := by
      rcases Nat.lt_or_eq_of_le hle with h | h
      · exact h
      · cases hlast h
    rw [← List.cons_append, run_append_of_lt hlt, List.cons_append]
  · cases hend : blockComment? (s :: (w ++ b)) with
    | none =>
      rw [hend] at hclosed
      cases hclosed
    | some n =>
      rw [hend] at hle
      have hw : blockComment? (s :: w) = some n :=
        commentEnd?_of_append hend (by rw [Nat.zero_add]; exact hle)
      have := commentEnd?_append hw b'
      rw [List.cons_append] at this
      rw [blockComment?, this]
      rfl
  · subst hstring
    cases hend : string? (.char '"' :: (w ++ b)) with
    | none =>
      rw [hend] at hclosed
      cases hclosed
    | some n =>
      rw [hend] at hle
      have := string?_append hend hle (hb'.head?_ne (by decide))
      rw [List.cons_append] at this
      rw [this]
      rfl
  · exact plain_append hb' hle hgrave hlast

/-- A first lexeme of one symbol is no comment, no string and no pair of break symbols. -/
theorem next_of_single (hle : (next (s :: b)).length ≤ 1)
    (hclosed : (next (s :: b)).unterminated = false) : next (s :: b) = plain s b ∧ s ≠ .char '"' := by
  rw [next_cons] at hle hclosed ⊢
  split_ifs at hle hclosed ⊢ with hbreaks hline hblock hstring
  · exact absurd hle (by simp)
  · obtain ⟨rfl, hhead⟩ := hline
    obtain ⟨rest, rfl⟩ := List.head?_eq_some_iff.mp hhead
    have hrun : 2 ≤ run (fun s => !s.isBreak) (.char '/' :: .char '/' :: rest) := by
      simp [run, Sym.isBreak, Sym.is]
    exact absurd (hrun.trans hle) (by simp)
  · cases hend : blockComment? (s :: b) with
    | none =>
      rw [hend] at hclosed
      cases hclosed
    | some n =>
      rw [hend] at hle
      have := (blockComment?_bounds hend).1
      simp only [upTo] at hle
      omega
  · subst hstring
    cases hend : string? (.char '"' :: b) with
    | none =>
      rw [hend] at hclosed
      cases hclosed
    | some n =>
      rw [hend] at hle
      have := (string?_bounds hend).1
      simp only [upTo] at hle
      omega
  · exact ⟨rfl, hstring⟩

/-- The same for a first lexeme of one symbol. A slash must not come to stand before another. -/
theorem next_append_of_single (hb' : b'.Stops) (hle : (next (s :: b)).length ≤ 1)
    (hclosed : (next (s :: b)).unterminated = false)
    (hkind : isOpenEnded (next (s :: b)).kind = false)
    (hslash : s = .char '/' → b'.head? ≠ some (.char '/'))
    (hgrave : graveName? (s :: b) = none → graveName? (s :: b') = none) :
    next (s :: b') = next (s :: b) := by
  have hplain := next_of_single hle hclosed
  rw [hplain.1] at hle hkind ⊢
  have hbreak : s ≠ .char '\r' := by
    rintro rfl
    cases hkind
  have hstar := hb'.head?_ne (c := '*') (by decide)
  rw [next_cons, if_neg fun h => hbreak h.1, if_neg fun h => hslash h.1 h.2,
    if_neg fun h => hstar h.2, if_neg hplain.2]
  exact plain_append (w := []) hb' hle hgrave fun _ => hkind

end Append

end Cut
end HouseStyle
