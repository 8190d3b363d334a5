import HouseStyle.Proofs.Token.KeptCode

/-! Where lexemes stand in the text that they join to. The text from the offset of a lexeme on is
what the lexemes from there on join to. -/

namespace HouseStyle

/-- The offset at which the lexeme at an index starts. -/
def offset (ls : List Lexeme) (k : Nat) : Nat := (joined (ls.take k)).length

section

variable (ls : List Lexeme)

@[simp] theorem offset_zero : offset ls 0 = 0 := by
  simp [offset]

theorem drop_offset (k : Nat) : (joined ls).drop (offset ls k) = joined (ls.drop k) := by
  have hsplit : joined ls = joined (ls.take k) ++ joined (ls.drop k) := by
    rw [← joined_append, List.take_append_drop]
  rw [hsplit]
  exact List.drop_left' rfl

theorem take_offset (k : Nat) : (joined ls).take (offset ls k) = joined (ls.take k) := by
  conv_lhs => rw [← List.take_append_drop k ls, joined_append]
  rw [List.take_append_drop]
  exact List.take_left' rfl

theorem offset_add (i n : Nat) :
    offset ls (i + n) = offset ls i + (joined ((ls.drop i).take n)).length := by
  rw [offset, List.take_add, joined_append, List.length_append, offset]

theorem offset_le_offset {i j : Nat} (h : i ≤ j) : offset ls i ≤ offset ls j := by
  obtain ⟨n, rfl⟩ := Nat.exists_eq_add_of_le h
  rw [offset_add]
  exact Nat.le_add_right _ _

theorem offset_succ_le {i j : Nat} (h : i < j) : offset ls (i + 1) ≤ offset ls j :=
  offset_le_offset ls h

theorem offset_le_length (k : Nat) : offset ls k ≤ (joined ls).length := by
  conv_rhs => rw [← List.take_append_drop k ls, joined_append, List.length_append]
  exact Nat.le_add_right _ _

/-- The text between the offsets of two lexemes. -/
theorem slice_offset {i j : Nat} (h : i ≤ j) :
    ((joined ls).drop (offset ls i)).take (offset ls j - offset ls i) =
      joined ((ls.drop i).take (j - i)) := by
  obtain ⟨n, rfl⟩ := Nat.exists_eq_add_of_le h
  rw [drop_offset, offset_add, Nat.add_sub_cancel_left, Nat.add_sub_cancel_left]
  conv_lhs => rw [← List.take_append_drop n (ls.drop i), joined_append]
  rw [List.take_append_drop]
  exact List.take_left

end

variable {ls : List Lexeme}

theorem drop_cons {i : Nat} {l : Lexeme} (h : ls[i]? = some l) :
    ls.drop i = l :: ls.drop (i + 1) := by
  obtain ⟨hi, rfl⟩ := List.getElem?_eq_some_iff.mp h
  exact List.drop_eq_getElem_cons hi

theorem offset_succ {i : Nat} {l : Lexeme} (h : ls[i]? = some l) :
    offset ls (i + 1) = offset ls i + l.text.length := by
  rw [offset, List.take_add_one, h, joined_append, List.length_append, offset]
  simp

theorem IsLexed.drop (h : IsLexed ls) (i : Nat) : IsLexed (ls.drop i) := by
  rw [← List.take_append_drop i ls] at h
  exact h.append_right

theorem IsLexed.text_ne_nil (h : IsLexed ls) {i : Nat} {l : Lexeme} (hl : ls[i]? = some l) :
    l.text ≠ [] := by
  obtain ⟨hi, rfl⟩ := List.getElem?_eq_some_iff.mp hl
  rw [← List.take_append_drop i ls, List.drop_eq_getElem_cons hi] at h
  exact h.append_right.cons.1

theorem IsLexed.offset_lt (h : IsLexed ls) {i j : Nat} (hij : i < j) (hi : i < ls.length) :
    offset ls i < offset ls j := by
  have hl := List.getElem?_eq_getElem hi
  have hpos := List.length_pos_of_ne_nil (h.text_ne_nil hl)
  calc offset ls i < offset ls (i + 1) := by
        rw [offset_succ hl]
        omega
    _ ≤ offset ls j := offset_le_offset ls hij

theorem IsLexed.offset_lt_iff (h : IsLexed ls) {i j : Nat} (hj : j ≤ ls.length) :
    offset ls i < offset ls j ↔ i < j := by
  constructor
  · intro hlt
    by_contra hge
    have := offset_le_offset ls (Nat.le_of_not_lt hge)
    omega
  · exact fun hij => h.offset_lt hij (by omega)

/-- Lexemes that start at one offset are one. -/
theorem IsLexed.offset_inj (h : IsLexed ls) {i j : Nat} (hi : i ≤ ls.length) (hj : j ≤ ls.length)
    (heq : offset ls i = offset ls j) : i = j := by
  rcases Nat.lt_trichotomy i j with hlt | rfl | hlt
  · have := h.offset_lt hlt (by omega)
    omega
  · rfl
  · have := h.offset_lt hlt (by omega)
    omega

/-! ### Tokens -/

theorem placed_getElem? {cursor : Cursor} {k : Nat} {t : Token}
    (h : (placed cursor ls)[k]? = some t) :
    ls[k]? = some t.toLexeme ∧ t.start = cursor.offset + offset ls k := by
  induction ls generalizing cursor k with
  | nil => simp [placed] at h
  | cons l ls ih =>
    cases k with
    | zero =>
      obtain rfl : _ = t := Option.some.inj h
      simp
    | succ k =>
      obtain ⟨hl, hstart⟩ := @ih (cursor.after l.text) k h
      refine ⟨hl, ?_⟩
      rw [hstart, Cursor.after, offset, offset, List.take_succ_cons, joined_cons,
        List.length_append, Nat.add_assoc]

/-- The token at an index is the lexeme there, between its offset and the next one. -/
theorem tokenize_getElem? {text : Text} {k : Nat} {t : Token} (h : (tokenize text)[k]? = some t) :
    (lexemes text)[k]? = some t.toLexeme ∧ t.start = offset (lexemes text) k ∧
      t.stop = offset (lexemes text) (k + 1) := by
  obtain ⟨hl, hstart⟩ := placed_getElem? h
  rw [Nat.zero_add] at hstart
  exact ⟨hl, hstart, by rw [Token.stop, offset_succ hl, hstart]⟩

/-- Each token starts behind those before it. -/
theorem tokenize_start_lt {text : Text} {i j : Nat} {t u : Token} (ht : (tokenize text)[i]? = some t)
    (hu : (tokenize text)[j]? = some u) (hij : i < j) : t.start < u.start := by
  obtain ⟨hl, hstart, -⟩ := tokenize_getElem? ht
  obtain ⟨-, hstart', -⟩ := tokenize_getElem? hu
  rw [hstart, hstart']
  exact (isLexed_lexemes text).offset_lt hij (List.getElem?_eq_some_iff.mp hl).1

theorem tokenize_eq_of_start {text : Text} {t u : Token} (ht : t ∈ tokenize text)
    (hu : u ∈ tokenize text) (hstart : t.start = u.start) : t = u := by
  obtain ⟨i, hi⟩ := List.mem_iff_getElem?.mp ht
  obtain ⟨j, hj⟩ := List.mem_iff_getElem?.mp hu
  rcases Nat.lt_trichotomy i j with hlt | rfl | hlt
  · exact absurd hstart (tokenize_start_lt hi hj hlt).ne
  · exact Option.some.inj (hi.symm.trans hj)
  · exact absurd hstart (tokenize_start_lt hj hi hlt).ne'

theorem tokenize_nodup (text : Text) : (tokenize text).Nodup := by
  rw [List.nodup_iff_pairwise_ne, List.pairwise_iff_getElem]
  intro i j hi hj hij heq
  have := tokenize_start_lt (List.getElem?_eq_getElem hi) (List.getElem?_eq_getElem hj) hij
  rw [heq] at this
  exact this.false

end HouseStyle
