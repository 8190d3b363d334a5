import HouseStyle.Proofs.Token.Extent

/-! The tokens of a text partition it. They are not empty, they stand back to back from the start
of the text to its end, each is the slice that was cut at its offset, and only the last one may
lack its end. -/

namespace HouseStyle

/-! ### Lexemes -/

@[simp] theorem lexemes_nil : lexemes [] = [] := by
  rw [lexemes]

/-- The first lexeme takes what the next cut says, and the others are those of the rest. -/
theorem lexemes_of_ne_nil {text : Text} (h : text ≠ []) :
    lexemes text =
      ⟨(Cut.next text).kind, text.take (Cut.next text).length, (Cut.next text).unterminated⟩ ::
        lexemes (text.drop (Cut.next text).length) := by
  obtain ⟨s, rest, rfl⟩ := List.exists_cons_of_ne_nil h
  obtain ⟨n, hn⟩ := Nat.exists_eq_add_of_lt (Cut.next_fits h).length_pos
  rw [lexemes]
  simp [hn]

/-- Induction on the lexemes of a text: a text is empty or a lexeme and a rest. -/
theorem lexemes_induction {motive : Text → Prop} (nil : motive [])
    (cut : ∀ text, text ≠ [] → motive (text.drop (Cut.next text).length) → motive text)
    (text : Text) : motive text := by
  by_cases h : text = []
  · rwa [h]
  · refine cut text h (lexemes_induction nil cut _)
termination_by text.length
decreasing_by
  have := (Cut.next_fits h).length_pos
  have := List.length_pos_of_ne_nil h
  rw [List.length_drop]
  omega

/-- The lexemes of a text join to the text. -/
theorem lexemes_join (text : Text) : (lexemes text).flatMap (·.text) = text := by
  induction text using lexemes_induction with
  | nil => simp
  | cut text h ih => rw [lexemes_of_ne_nil h, List.flatMap_cons, ih, List.take_append_drop]

/-! ### Tokens -/

@[simp] theorem placed_map_toLexeme (cursor : Cursor) (ls : List Lexeme) :
    (placed cursor ls).map (·.toLexeme) = ls := by
  induction ls generalizing cursor with
  | nil => rfl
  | cons l rest ih => simp [placed, ih]

@[simp] theorem tokenize_map_toLexeme (text : Text) :
    (tokenize text).map (·.toLexeme) = lexemes text :=
  placed_map_toLexeme _ _

/-- Tokens that stand back to back from one offset to another. -/
def Abut : Nat → List Token → Nat → Prop
  | start, [], stop => start = stop
  | start, t :: rest, stop => t.start = start ∧ Abut t.stop rest stop

theorem placed_abut (cursor : Cursor) (ls : List Lexeme) :
    Abut cursor.offset (placed cursor ls)
      (cursor.offset + (ls.flatMap (·.text)).length) := by
  induction ls generalizing cursor with
  | nil => simp [placed, Abut]
  | cons l rest ih =>
    refine ⟨rfl, ?_⟩
    have := ih (cursor.after l.text)
    rwa [List.flatMap_cons, List.length_append, ← Nat.add_assoc]

/-- A token is what the lexer cuts at its offset. -/
structure Token.CutFrom (t : Token) (text : Text) : Prop where
  start_lt : t.start < text.length
  text_eq : t.text = (text.drop t.start).take (t.stop - t.start)
  next_eq : Cut.next (text.drop t.start) = ⟨t.kind, t.stop - t.start, t.unterminated⟩

theorem placed_cutFrom {before text : Text} {cursor : Cursor} (hcursor : cursor.offset = before.length)
    {t : Token} (ht : t ∈ placed cursor (lexemes text)) : t.CutFrom (before ++ text) := by
  induction text using lexemes_induction generalizing before cursor with
  | nil => simp [placed] at ht
  | cut text h ih =>
    have hfits := Cut.next_fits h
    rw [lexemes_of_ne_nil h, placed] at ht
    rcases List.mem_cons.mp ht with rfl | ht
    · have := hfits.length_pos
      have := hfits.length_le
      constructor
      · simp only [hcursor, List.length_append]
        omega
      · simp [Token.stop, hcursor, hfits.length_le]
      · simp [Token.stop, hcursor, hfits.length_le]
    · have := @ih (before ++ text.take (Cut.next text).length)
        (cursor.after (text.take (Cut.next text).length)) (by simp [Cursor.after, hcursor]) ht
      simpa using this

theorem cutFrom_of_mem_tokenize {text : Text} {t : Token} (ht : t ∈ tokenize text) :
    t.CutFrom text :=
  @placed_cutFrom [] text {} rfl t ht

namespace Token.CutFrom

variable {t : Token} {text : Text}

theorem fits (h : t.CutFrom text) :
    Cut.Fits (text.drop t.start) ⟨t.kind, t.stop - t.start, t.unterminated⟩ := by
  rw [← h.next_eq]
  refine Cut.next_fits fun hnil => ?_
  have := h.start_lt
  rw [List.drop_eq_nil_iff] at hnil
  omega

theorem text_ne_nil (h : t.CutFrom text) : t.text ≠ [] := by
  have := h.fits.length_pos
  simp only [Token.stop] at this
  exact List.ne_nil_of_length_pos (by omega)

theorem stop_le (h : t.CutFrom text) : t.stop ≤ text.length := by
  have := h.fits.length_le
  have := h.start_lt
  simp only [List.length_drop] at *
  omega

/-- A token without its end is a string or a comment, and the text ends with it. -/
theorem of_unterminated (h : t.CutFrom text) (hu : t.unterminated) :
    (t.kind = .string ∨ t.kind = .comment) ∧ t.stop = text.length := by
  obtain ⟨hkind, hall⟩ := h.fits.takes_all hu
  have := h.start_lt
  simp only [List.length_drop, Token.stop] at hall ⊢
  exact ⟨hkind, by omega⟩

end Token.CutFrom

theorem Abut.lt {start stop : Nat} {tokens : List Token} (h : Abut start tokens stop)
    (hne : ∀ t ∈ tokens, t.text ≠ []) (htokens : tokens ≠ []) : start < stop := by
  induction tokens generalizing start with
  | nil => exact absurd rfl htokens
  | cons t rest ih =>
    obtain ⟨rfl, hrest⟩ := h
    have hpos := List.length_pos_of_ne_nil (hne t (by simp))
    by_cases hnil : rest = []
    · subst hnil
      simp only [Abut, Token.stop] at hrest
      omega
    · have := ih hrest (fun u hu => hne u (by simp [hu])) hnil
      simp only [Token.stop] at this
      omega

/-- Among tokens that stand back to back and are not empty, the one that stops where all stop is
the last one. -/
theorem Abut.getLast?_of_stop {start stop : Nat} {tokens : List Token} (h : Abut start tokens stop)
    (hne : ∀ t ∈ tokens, t.text ≠ []) {t : Token} (ht : t ∈ tokens) (hstop : t.stop = stop) :
    tokens.getLast? = some t := by
  induction tokens generalizing start with
  | nil => cases ht
  | cons u rest ih =>
    have hrest : ∀ v ∈ rest, v.text ≠ [] := fun v hv => hne v (by simp [hv])
    rcases List.mem_cons.mp ht with rfl | ht
    · by_cases hnil : rest = []
      · simp [hnil]
      · have := h.2.lt hrest hnil
        omega
    · rw [List.getLast?_cons, ih h.2 hrest ht, Option.getD_some]

theorem sourceText_tokenize (text : Text) : sourceText (tokenize text) = text := by
  calc sourceText (tokenize text)
      = ((tokenize text).map (·.toLexeme)).flatMap (·.text) := by
        rw [sourceText, List.flatMap_map]
    _ = text := by rw [tokenize_map_toLexeme, lexemes_join]

/-! ### The partition -/

/-- Any text is cut into tokens that join to it. No token is empty, the first starts at zero, each
starts where the one before stops, and the last stops at the end of the text. Each is the slice
between its offsets, and the cut that the lexer made there, which took a symbol at least and went
no further than the text. Only a string or a comment lacks its end, and then it is the last token
and stops where the text does. -/
theorem tokenize_partition (text : Text) :
    sourceText (tokenize text) = text ∧
    Abut 0 (tokenize text) text.length ∧
    (∀ t ∈ tokenize text,
      t.text ≠ [] ∧ t.stop ≤ text.length ∧
      t.text = (text.drop t.start).take (t.stop - t.start) ∧
      Cut.next (text.drop t.start) = ⟨t.kind, t.stop - t.start, t.unterminated⟩) ∧
    (∀ t ∈ tokenize text, t.unterminated →
      (t.kind = .string ∨ t.kind = .comment) ∧
      (tokenize text).getLast? = some t ∧ t.stop = text.length) := by
  have hcut : ∀ t ∈ tokenize text, t.CutFrom text := fun t ht => cutFrom_of_mem_tokenize ht
  have hne : ∀ t ∈ tokenize text, t.text ≠ [] := fun t ht => (hcut t ht).text_ne_nil
  have habut : Abut 0 (tokenize text) text.length := by
    have := placed_abut {} (lexemes text)
    rwa [lexemes_join, Nat.zero_add] at this
  refine ⟨sourceText_tokenize text, habut, fun t ht => ?_, fun t ht hu => ?_⟩
  · exact ⟨hne t ht, (hcut t ht).stop_le, (hcut t ht).text_eq, (hcut t ht).next_eq⟩
  · obtain ⟨hkind, hstop⟩ := (hcut t ht).of_unterminated hu
    exact ⟨hkind, habut.getLast?_of_stop hne ht hstop, hstop⟩

end HouseStyle
