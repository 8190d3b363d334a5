import HouseStyle.Context
import HouseStyle.Proofs.Text.Breaks
import HouseStyle.Proofs.Token.Ending
import HouseStyle.Proofs.Token.Offset

/-! Two ways to number lines. The lexer counts lines and columns on from token to token; a context
looks the offset up among the line starts of the whole text. No token parts a carriage return from
its line feed, so both give every token the same place. -/

namespace HouseStyle

open Text

/-! ### Cursors -/

namespace Cursor

variable (c : Cursor) {u v : Text}

theorem after_nil : c.after [] = c := by
  simp [after, breakCount, breakEnds_nil]

theorem after_column_of_free (h : ∀ s ∈ u, s.isBreak = false) :
    (c.after u).column = c.column + u.length := by
  have hnone : u.reverse.findIdx? Sym.isBreak = none := by
    rw [List.findIdx?_eq_none_iff]
    simpa using h
  rw [after, hnone]

theorem after_column_of_break {s : Sym} (hs : s.isBreak) (hv : ∀ d ∈ v, d.isBreak = false) :
    (c.after (u ++ s :: v)).column = v.length + 1 := by
  have hfound : (u ++ s :: v).reverse.findIdx? Sym.isBreak = some v.length := by
    have hnone : v.reverse.findIdx? Sym.isBreak = none := by
      rw [List.findIdx?_eq_none_iff]
      simpa using hv
    rw [List.reverse_append, List.reverse_cons, List.append_assoc, List.findIdx?_append, hnone,
      List.singleton_append, List.findIdx?_cons, if_pos hs, List.length_reverse]
    simp
  rw [after, hfound]

/-- Two texts that part no pair are passed one after the other like one text. -/
theorem after_after (h : ¬PartsPair u v) : (c.after u).after v = c.after (u ++ v) := by
  have hcolumn : ((c.after u).after v).column = (c.after (u ++ v)).column := by
    rcases exists_last_break v with hv | ⟨a, s, b, rfl, hs, hb⟩
    · rw [after_column_of_free _ hv]
      rcases exists_last_break u with hu | ⟨a, s, b, rfl, hs, hb⟩
      · rw [after_column_of_free c hu, after_column_of_free c, List.length_append, Nat.add_assoc]
        intro s hs
        exact (List.mem_append.mp hs).elim (hu s) (hv s)
      · rw [after_column_of_break c hs hb, List.append_assoc, List.cons_append,
          after_column_of_break c hs, List.length_append]
        · omega
        · intro s hs
          exact (List.mem_append.mp hs).elim (hb s) (hv s)
    · rw [after_column_of_break _ hs hb, ← List.append_assoc, after_column_of_break c hs hb]
  refine Cursor.mk.injEq .. |>.mpr ⟨?_, ?_, hcolumn⟩
  · rw [List.length_append, ← Nat.add_assoc]
    rfl
  · rw [breakCount_append h, ← Nat.add_assoc]
    rfl

/-- The place behind a text, as the line starts of the text with all that follows it give it. -/
theorem ofOffset?_lineStarts (h : ¬PartsPair u v) :
    Position.ofOffset? (u ++ v).lineStarts u.length =
      some ⟨(({} : Cursor).after u).line, (({} : Cursor).after u).column⟩ := by
  have hline : (({} : Cursor).after u).line = u.breakCount + 1 := Nat.add_comm ..
  rw [Position.ofOffset?_lineStarts h, hline]
  rcases exists_last_break u with hu | ⟨a, s, b, rfl, hs, hb⟩
  · rw [lineStarts, breakEnds_eq_nil hu, after_column_of_free _ hu]
    simp [Int.add_comm]
  · rw [lineStarts, List.getLast?_cons, breakEnds_getLast? hs hb, after_column_of_break _ hs hb]
    simp only [Option.getD_some, Option.map_some, List.length_append, List.length_cons,
      Option.some.injEq, Position.mk.injEq, true_and]
    omega

end Cursor

/-! ### Lexemes -/

section

variable {l : Lexeme} {ls : List Lexeme}

/-- A line break is one lexeme, and blanks hold none. -/
theorem IsLexed.not_partsPair_space (h : IsLexed (l :: ls)) (hl : l.isSpace) :
    ¬PartsPair l.text (joined ls) := by
  rintro ⟨hlast, hhead⟩
  obtain ⟨s, w, htext⟩ := List.exists_cons_of_ne_nil h.cons.1
  have hcut := h.cons.2.1
  rw [htext, List.cons_append] at hcut
  rw [htext] at hlast
  rcases isBlank_or_isBreak (h.all_isSpace hl s (by simp [htext])) with hblank | hbreak
  · rw [Cut.next_of_isBlank hblank] at hcut
    have hlength : Literal.run Sym.isBlank (s :: w ++ joined ls) = l.text.length :=
      congrArg Cut.length hcut
    rw [htext] at hlength
    have hall := all_of_length_le_run hlength.ge
    exact absurd (hall _ (List.mem_of_getLast? hlast)) (by decide)
  · rw [Cut.next_of_isBreak hbreak] at hcut
    have hlength : (if s = .char '\r' ∧ (w ++ joined ls).head? = some (.char '\n') then 2 else 1) =
        l.text.length :=
      congrArg Cut.length hcut
    rw [htext] at hlength
    cases w with
    | nil =>
      obtain rfl : s = .char '\r' := Option.some.inj hlast
      rw [List.nil_append, if_pos ⟨rfl, hhead⟩] at hlength
      cases hlength
    | cons d w =>
      split_ifs at hlength with hpair
      · obtain rfl : w = [] := by simpa using hlength.symm
        obtain rfl : d = .char '\r' := Option.some.inj hlast
        exact absurd hpair.2 (by simp)
      · cases hlength

/-- A line comment holds no break. -/
theorem IsLexed.not_isBreak_of_line (h : IsLexed (l :: ls)) (hl : l.isLineComment) :
    ∀ s ∈ l.text, s.isBreak = false := by
  simp only [Lexeme.isLineComment, Bool.and_eq_true, decide_eq_true_eq] at hl
  obtain ⟨⟨-, hfirst⟩, hsecond⟩ := hl
  obtain ⟨w, htext⟩ : ∃ w, l.text = .char '/' :: .char '/' :: w := by
    refine ⟨l.text.tail.tail, ?_⟩
    rw [List.cons_head?_tail hsecond, List.cons_head?_tail hfirst]
  have hcut := h.cons.2.1
  rw [htext, List.cons_append, Cut.next_cons, if_neg (by simp), if_pos ⟨rfl, rfl⟩,
    ← List.cons_append, ← htext] at hcut
  have hall := all_of_length_le_run (congrArg Cut.length hcut).ge
  simpa using hall

theorem IsLexed.not_partsPair_cons (h : IsLexed (l :: ls)) : ¬PartsPair l.text (joined ls) := by
  by_cases hspace : l.isSpace
  · exact h.not_partsPair_space hspace
  · rintro ⟨hlast, hhead⟩
    by_cases hline : l.isLineComment
    · exact absurd (h.not_isBreak_of_line hline _ (List.mem_of_getLast? hlast)) (by decide)
    · by_cases hended : l.unterminated
      · rw [h.nil_of_unterminated hended] at hhead
        cases hhead
      · have := h.getLast?_not_isSpace (by simpa using hspace) (by simpa using hline)
          (by simpa using hended) _ hlast
        exact absurd this (by decide)

/-- No token parts a carriage return from its line feed. -/
theorem IsLexed.not_partsPair {us : List Lexeme} (h : IsLexed (us ++ ls)) :
    ¬PartsPair (joined us) (joined ls) := by
  rcases List.eq_nil_or_concat us with rfl | ⟨us, l, rfl⟩
  · simp [PartsPair]
  · rw [List.concat_eq_append, List.append_assoc] at h
    have hlexed : IsLexed (l :: ls) := h.append_right
    rintro ⟨hlast, hhead⟩
    refine hlexed.not_partsPair_cons ⟨?_, hhead⟩
    rwa [List.concat_eq_append, joined_append, joined_cons, joined_nil, List.append_nil,
      List.getLast?_append_of_ne_nil _ hlexed.cons.1] at hlast

end

/-! ### Tokens -/

/-- A token stands where the text before it ends. -/
theorem placed_cursor {ls : List Lexeme} (h : IsLexed ls) {c : Cursor} {k : Nat} {t : Token}
    (ht : (placed c ls)[k]? = some t) :
    (⟨t.start, t.line, t.column⟩ : Cursor) = c.after (joined (ls.take k)) := by
  induction ls generalizing c k with
  | nil => simp [placed] at ht
  | cons l ls ih =>
    cases k with
    | zero =>
      obtain rfl : _ = t := Option.some.inj ht
      rw [List.take_zero, joined_nil, Cursor.after_nil]
    | succ k =>
      have hpair : ¬PartsPair l.text (joined (ls.take k)) := by
        rintro ⟨hlast, hhead⟩
        refine h.not_partsPair_cons ⟨hlast, ?_⟩
        rw [← List.take_append_drop k ls, joined_append, List.head?_append, hhead]
        rfl
      rw [ih h.cons.2.2 (c := c.after l.text) ht, Cursor.after_after c hpair, List.take_succ_cons,
        joined_cons]

/-- How the place of a token is counted on from that of the token before: a line for each line feed
and each carriage return in it, less one for each pair of them, and a column for each symbol behind
the last of them. -/
structure Token.CountedOn (t u : Token) : Prop where
  line : u.line + t.text.pairCount =
    t.line + (t.text.count (.char '\n') + t.text.count (.char '\r'))
  column : (∀ s ∈ t.text, s.isBreak = false) → u.column = t.column + t.text.length
  restart : ∀ a s b, t.text = a ++ s :: b → s.isBreak → (∀ d ∈ b, d.isBreak = false) →
    u.column = b.length + 1

theorem placed_countedOn {ls : List Lexeme} {c : Cursor} {k : Nat} {t u : Token}
    (ht : (placed c ls)[k]? = some t) (hu : (placed c ls)[k + 1]? = some u) : t.CountedOn u := by
  induction ls generalizing c k with
  | nil => simp [placed] at ht
  | cons l ls ih =>
    cases k with
    | succ k => exact ih (c := c.after l.text) ht hu
    | zero =>
      obtain rfl : _ = t := Option.some.inj ht
      cases ls with
      | nil => simp [placed] at hu
      | cons l' ls =>
        obtain rfl : _ = u := Option.some.inj hu
        constructor
        · rw [← breakCount_add_pairCount, ← Nat.add_assoc]
          rfl
        · exact c.after_column_of_free
        · rintro a s b htext hs hb
          change (c.after l.text).column = b.length + 1
          rw [show l.text = a ++ s :: b from htext]
          exact c.after_column_of_break hs hb

/-- A token stands where the text before it ends. -/
theorem tokenize_cursor {text : Text} {t : Token} (ht : t ∈ tokenize text) :
    ∃ before after, text = before ++ after ∧ ¬PartsPair before after ∧
      (⟨t.start, t.line, t.column⟩ : Cursor) = ({} : Cursor).after before := by
  obtain ⟨k, hk⟩ := List.mem_iff_getElem?.mp ht
  have hlexed := isLexed_lexemes text
  refine ⟨joined ((lexemes text).take k), joined ((lexemes text).drop k), ?_, ?_, ?_⟩
  · rw [← joined_append, List.take_append_drop]
    exact (lexemes_join text).symm
  · refine IsLexed.not_partsPair ?_
    rwa [List.take_append_drop]
  · exact placed_cursor hlexed hk

/-- A token stops as many lines below its start as it holds breaks. -/
theorem tokenize_stop_line {text : Text} {t : Token} (ht : t ∈ tokenize text) :
    ∃ column, Position.ofOffset? text.lineStarts t.stop =
      some ⟨t.line + t.text.breakCount, column⟩ := by
  obtain ⟨k, hk⟩ := List.mem_iff_getElem?.mp ht
  obtain ⟨hl, -, hstop⟩ := tokenize_getElem? hk
  have hlexed := isLexed_lexemes text
  have hpair (n : Nat) :
      ¬PartsPair (joined ((lexemes text).take n)) (joined ((lexemes text).drop n)) := by
    refine IsLexed.not_partsPair ?_
    rwa [List.take_append_drop]
  have hline : t.line = 1 + (joined ((lexemes text).take k)).breakCount :=
    congrArg Cursor.line (placed_cursor hlexed hk)
  have htake : joined ((lexemes text).take (k + 1)) = joined ((lexemes text).take k) ++ t.text := by
    simp [List.take_add_one, hl]
  have hbreaks : (joined ((lexemes text).take (k + 1))).breakCount + 1 =
      t.line + t.text.breakCount := by
    rw [htake, breakCount_append, hline]
    · omega
    · intro hparts
      refine hpair k ?_
      rw [drop_cons hl, joined_cons]
      exact hparts.append_right _
  have htext : text =
      joined ((lexemes text).take (k + 1)) ++ joined ((lexemes text).drop (k + 1)) := by
    rw [← joined_append, List.take_append_drop]
    exact (lexemes_join text).symm
  have hlast : ∃ start, (joined ((lexemes text).take (k + 1))).lineStarts.getLast? = some start :=
    ⟨_, List.getLast?_cons⟩
  obtain ⟨start, hlast⟩ := hlast
  have hplace := Position.ofOffset?_lineStarts (hpair (k + 1))
  rw [← htext, hbreaks, hlast] at hplace
  rw [hstop, offset]
  exact ⟨_, hplace⟩

/-- Tokens stand on one line where no break ends between their starts. -/
theorem line_eq_iff {text : Text} {t u : Token} (ht : t ∈ tokenize text) (hu : u ∈ tokenize text)
    (hle : t.start ≤ u.start) :
    t.line = u.line ↔ ∀ e, text.EndsBreak e → ¬(t.start < e ∧ e ≤ u.start) := by
  obtain ⟨a, b, rfl, hab, hcursor⟩ := tokenize_cursor ht
  obtain ⟨a', b', htext, hab', hcursor'⟩ := tokenize_cursor hu
  simp only [Cursor.after, Cursor.mk.injEq, Nat.zero_add] at hcursor hcursor'
  obtain ⟨hstart, hline, -⟩ := hcursor
  obtain ⟨hstart', hline', -⟩ := hcursor'
  have hprefix : a' <+: a ++ b := by
    rw [htext]
    exact List.prefix_append a' b'
  obtain ⟨mid, rfl⟩ : a <+: a' :=
    List.prefix_of_prefix_length_le (List.prefix_append a b) hprefix (by omega)
  obtain rfl : b = mid ++ b' := by simpa using htext
  rw [hstart, hstart', hline, hline', breakCount_append fun h => hab (h.append_right b')]
  calc 1 + a.breakCount = 1 + (a.breakCount + breakCount mid)
      ↔ (breakEnds a.length mid).length = 0 := by
        rw [length_breakEnds]
        omega
    _ ↔ ∀ e, e ∉ breakEnds a.length mid := by
        rw [List.length_eq_zero_iff, List.eq_nil_iff_forall_not_mem]
    _ ↔ _ := by
        simp only [mem_breakEnds_part hab hab', not_and]

/-- Line and column of a token are the position of its offset among the line starts of the text,
so a context gives them too, although the lexer counts them on from token to token. Two tokens stand
on one line exactly when no break ends between their starts. -/
theorem tokenize_position (text path : Text) (lookahead terminator contextLines : Value) :
    (∀ t ∈ tokenize text,
      Position.ofOffset? text.lineStarts t.start = some ⟨t.line, t.column⟩ ∧
      (Context.ofTokens (tokenize text) path lookahead terminator contextLines).position t.start =
        ⟨t.line, t.column⟩) ∧
    (∀ t ∈ tokenize text, ∀ u ∈ tokenize text, t.start ≤ u.start →
      (t.line = u.line ↔ ∀ e, text.EndsBreak e → ¬(t.start < e ∧ e ≤ u.start))) ∧
    (∀ k t u, (tokenize text)[k]? = some t → (tokenize text)[k + 1]? = some u → t.CountedOn u) := by
  refine ⟨fun t ht => ?_, fun t ht u hu => line_eq_iff ht hu, fun k t u => placed_countedOn⟩
  have hplace : Position.ofOffset? text.lineStarts t.start = some ⟨t.line, t.column⟩ := by
    obtain ⟨before, after, rfl, hpair, hcursor⟩ := tokenize_cursor ht
    have hstart : t.start = before.length :=
      (congrArg Cursor.offset hcursor).trans (Nat.zero_add _)
    rw [hstart, Cursor.ofOffset?_lineStarts hpair, ← hcursor]
  refine ⟨hplace, ?_⟩
  have hcontent : (Context.ofTokens (tokenize text) path lookahead terminator contextLines).lineStarts =
      text.lineStarts := congrArg Text.lineStarts (sourceText_tokenize text)
  rw [Context.position, hcontent, hplace, Option.getD_some]

end HouseStyle
