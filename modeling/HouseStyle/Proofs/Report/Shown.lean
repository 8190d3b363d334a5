import HouseStyle.Proofs.Report.Order
import HouseStyle.Proofs.Rule.Repairs
import HouseStyle.Proofs.Text.Lines

/-! What a report shows of a text. Positions give the offsets back and are ordered like them, so the
findings of one file are in the order of their spans; and the snippet of a line holds the line between
its neighbours, with each symbol at its column. -/

namespace HouseStyle

/-! ### Positions in order -/

/-- Positions that come one before the other compare so, line by line and then by column. -/
theorem Position.Before.compare_eq {p q : Position} (h : p.Before q) :
    (compare (p.line : Int) q.line).then (compare p.column q.column) = .lt ∧
      (compare (q.line : Int) p.line).then (compare q.column p.column) = .gt := by
  rcases h with hline | ⟨hline, hcolumn⟩
  · have hlt : compare (p.line : Int) q.line = .lt := compare_lt_iff_lt.mpr (by omega)
    have hgt : compare (q.line : Int) p.line = .gt := compare_gt_iff_gt.mpr (by omega)
    rw [hlt, hgt]
    exact ⟨rfl, rfl⟩
  · rw [hline, compare_eq_iff_eq.mpr rfl, compare_lt_iff_lt.mpr hcolumn,
      compare_gt_iff_gt.mpr hcolumn]
    exact ⟨rfl, rfl⟩

/-- The comparison of findings by the start of their spans, then by rule and message. -/
def Finding.compareStarts (f g : Finding) : Ordering :=
  (compare f.span.start g.span.start).then <|
    (Text.compare f.ruleId g.ruleId).then (Text.compare f.message g.message)

/-- The source lines from one to another, both counted from one. -/
def Text.linesBetween (t : Text) (first last : Nat) : List Text :=
  (t.lines.take last).drop (first - 1)

namespace Context

variable {c : Context}

/-! ### Slices -/

theorem slice_eq {α : Type} (items : List α) (start stop : Nat) :
    slice items start stop = (items.take stop).drop start := by
  have hclamp (i : Nat) : clampBound items.length i = min i items.length := by
    simp [clampBound]
  rw [slice, hclamp, hclamp, ← List.drop_take, ← List.take_eq_take_min]
  rcases Nat.le_total start items.length with h | h
  · rw [Nat.min_eq_left h]
  · have hlen : (items.take stop).length ≤ items.length := List.length_take_le' _ _
    rw [Nat.min_eq_right h, List.drop_eq_nil_of_le hlen, List.drop_eq_nil_of_le (hlen.trans h)]

/-- A line between its neighbours is a run of lines. -/
theorem snippetAround_lines {line around : Nat} (hpos : 1 ≤ line) (hle : line ≤ c.lines.length) :
    (c.snippetAround line around).before ++ (c.snippetAround line around).code ::
        (c.snippetAround line around).after =
      (c.lines.take (min c.lines.length (line + around))).drop (max 1 (line - around) - 1) := by
  obtain ⟨i, rfl⟩ : ∃ i, line = i + 1 := ⟨line - 1, by omega⟩
  have hi : i < c.lines.length := hle
  have hcode : (c.snippetAround ((i + 1 : Nat) : Int) around).code = c.lines[i] := by
    rw [snippetAround, if_pos (by omega), List.getD_eq_getElem?_getD,
      show (((i + 1 : Nat) : Int) - 1).toNat = i by omega, List.getElem?_eq_getElem hi]
    rfl
  have hbefore : (c.snippetAround ((i + 1 : Nat) : Int) around).before =
      (c.lines.take i).drop (i - around) := by
    rw [← slice_eq, snippetAround]
    dsimp only
    congr 1 <;> omega
  have hafter : (c.snippetAround ((i + 1 : Nat) : Int) around).after =
      (c.lines.take (min c.lines.length (i + 1 + around))).drop (i + 1) := by
    rw [← slice_eq, snippetAround]
    dsimp only
    congr 1
    omega
  have hfirst : max 1 (i + 1 - around) - 1 = i - around := by omega
  set last := min c.lines.length (i + 1 + around) with hlast
  have hilast : i < last := by omega
  have htake : i < (c.lines.take last).length := by
    rw [List.length_take]
    omega
  have hcut : (c.lines.take last).take i = c.lines.take i := by
    rw [List.take_take, Nat.min_eq_left hilast.le]
  rw [hcode, hbefore, hafter, hfirst]
  calc (c.lines.take i).drop (i - around) ++ c.lines[i] :: (c.lines.take last).drop (i + 1)
      = ((c.lines.take last).take i).drop (i - around) ++ (c.lines.take last).drop i := by
        rw [hcut, List.drop_eq_getElem_cons htake, List.getElem_take]
    _ = ((c.lines.take last).take i ++ (c.lines.take last).drop i).drop (i - around) := by
        rw [List.drop_append_of_le_length]
        rw [List.length_take]
        omega
    _ = (c.lines.take last).drop (i - around) := by rw [List.take_append_drop]

/-- The snippet of a line for a whole number of lines around it. -/
theorem snippet_eq {line : Int} {around : Value} {n : Int} (h : around.asInt? = some n) :
    c.snippet line around = .ok (c.snippetAround line n) := by
  unfold snippet
  split
  · cases h
  · rw [h]

/-! ### What is shown -/

/-- What positions and snippets tell of the text of a context. -/
structure ShowsText (c : Context) (text : Text) : Prop where
  /-- The position of an offset gives it back: it is so far behind the start of its line. -/
  offset_eq : ∀ o : Nat, 1 ≤ (c.position o).line ∧ 1 ≤ (c.position o).column ∧
    ∃ start, text.lineStarts[(c.position o).line - 1]? = some start ∧
      (start : Int) + (c.position o).column - 1 = o
  /-- Positions are ordered like offsets. -/
  before : ∀ o o' : Nat, o < o' → (c.position o).Before (c.position o')
  /-- Report order is the order of starts, for findings that stand where their spans say. -/
  report_order : ∀ f g : Finding, f.location = c.location f.span → g.location = c.location g.span →
    Finding.compareKeys f g = Finding.compareStarts f g
  /-- Every symbol of the text stands on a source line. -/
  on_line : ∀ o < text.length, (c.position o).line ≤ text.lines.length
  /-- The snippet of a symbol's line shows the symbol at its column. -/
  symbol_shown : ∀ (o : Nat) (s : Sym), text[o]? = some s → s.isBreak = false →
    ∀ (around : Value) (n : Nat), around.asInt? = some (n : Int) →
      ∃ shown, c.snippet (c.position o).line around = .ok shown ∧
        shown.code[((c.position o).column - 1).toNat]? = some s
  /-- A snippet is the run of source lines that reaches so far before and behind a line. -/
  lines_shown : ∀ line, 1 ≤ line → line ≤ text.lines.length →
    ∀ (around : Value) (n : Nat), around.asInt? = some (n : Int) →
      ∃ shown, c.snippet line around = .ok shown ∧
        shown.before ++ shown.code :: shown.after =
          text.linesBetween (max 1 (line - n)) (min text.lines.length (line + n))

section

variable {text : Text} (hstarts : c.lineStarts = text.lineStarts) (hlines : c.lines = text.lines)

include hstarts

theorem position_standsOn (o : Nat) : ∃ i start, text.StandsOn o i start ∧
    c.position o = ⟨i + 1, (o : Int) - start + 1⟩ := by
  obtain ⟨i, start, hstands, hplace⟩ := text.exists_standsOn o
  exact ⟨i, start, hstands, by rw [position, hstarts, hplace, Option.getD_some]⟩

theorem position_before {o o' : Nat} (h : o < o') : (c.position o).Before (c.position o') := by
  obtain ⟨i, start, hstands, hplace⟩ := position_standsOn hstarts o
  obtain ⟨j, start', hstands', hplace'⟩ := position_standsOn hstarts o'
  rw [hplace, hplace']
  rcases hstands.before hstands' h with hlt | ⟨rfl, rfl⟩
  · exact .inl (Nat.succ_lt_succ hlt)
  · exact .inr ⟨rfl, by dsimp only; omega⟩

/-- Findings that stand where their spans say are in report order by their starts. -/
theorem compareKeys_eq {f g : Finding} (hf : f.location = c.location f.span)
    (hg : g.location = c.location g.span) : Finding.compareKeys f g = Finding.compareStarts f g := by
  have hfile : Text.compare f.filePath g.filePath = .eq := by
    rw [Finding.filePath, Finding.filePath, hf, hg]
    exact Std.ReflCmp.compare_self
  have hkey : Finding.compareKeys f g =
      ((compare ((c.position f.span.start).line : Int) (c.position g.span.start).line).then
        (compare (c.position f.span.start).column (c.position g.span.start).column)).then
          ((Text.compare f.ruleId g.ruleId).then (Text.compare f.message g.message)) := by
    rw [Finding.compareKeys, hfile, Finding.line, Finding.line, Finding.column, Finding.column, hf, hg,
      Ordering.then_assoc]
    rfl
  rw [hkey, Finding.compareStarts]
  congr 1
  rcases Nat.lt_trichotomy f.span.start g.span.start with hlt | heq | hgt
  · rw [(position_before hstarts hlt).compare_eq.1, Nat.compare_eq_lt.mpr hlt]
  · rw [heq, compare_eq_iff_eq.mpr rfl, compare_eq_iff_eq.mpr rfl, compare_eq_iff_eq.mpr rfl]
    rfl
  · rw [(position_before hstarts hgt).compare_eq.2, Nat.compare_eq_gt.mpr hgt]

include hlines

theorem showsText : c.ShowsText text where
  offset_eq o := by
    obtain ⟨i, start, hstands, hplace⟩ := position_standsOn hstarts o
    have hle := hstands.start_le
    rw [hplace]
    exact ⟨Nat.succ_pos i, by dsimp only; omega, start, hstands.start_eq, by dsimp only; omega⟩
  before o o' := position_before hstarts
  report_order f g := compareKeys_eq hstarts
  on_line o ho := by
    obtain ⟨i, start, hstands, hplace⟩ := position_standsOn hstarts o
    rw [hplace]
    exact (hstands.lines_at ho).1
  symbol_shown o s ho hs around n haround := by
    obtain ⟨i, start, hstands, hplace⟩ := position_standsOn hstarts o
    obtain ⟨hi, hline⟩ := hstands.lines_at (List.getElem?_eq_some_iff.mp ho).1
    obtain ⟨line, hpiece, hat⟩ := hstands.piece_at ho hs
    refine ⟨_, snippet_eq haround, ?_⟩
    have hcode : (c.snippetAround (c.position o).line n).code = line := by
      rw [hplace, snippetAround, hlines, if_pos (by dsimp only; omega), List.getD_eq_getElem?_getD,
        show (((i + 1 : Nat) : Int) - 1).toNat = i by omega, hline, hpiece]
      rfl
    have hle := hstands.start_le
    rw [hcode, hplace, show (((o : Int) - start + 1) - 1).toNat = o - start by omega, hat]
  lines_shown line hpos hle around n haround := by
    rw [Text.linesBetween, ← hlines]
    rw [← hlines] at hle
    exact ⟨_, snippet_eq haround, snippetAround_lines hpos hle⟩

end

/-- Positions and snippets of any text are true to it: an offset can be read off its position,
positions and so the findings of the file are in the order of offsets, and a snippet shows the lines
around a line with the symbols at their columns. -/
theorem ofTokens_showsText (text path : Text) (lookahead terminator contextLines : Value) :
    (ofTokens (tokenize text) path lookahead terminator contextLines).ShowsText text :=
  showsText (congrArg Text.lineStarts (sourceText_tokenize text))
    (congrArg Text.lines (sourceText_tokenize text))

end Context

end HouseStyle
