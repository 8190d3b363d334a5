import HouseStyle.Proofs.Text.Breaks
import Mathlib.Data.List.Nodup

/-! Lines by their starts. An offset stands on the last line that begins at or before it, and its
column counts on from there, so positions tell offsets apart and are ordered like them. From its
start a text goes on with the line and then with a break, unless it ends. -/

namespace HouseStyle

/-- Whether a position comes before another one: on an earlier line, or earlier on its line. -/
def Position.Before (p q : Position) : Prop :=
  p.line < q.line ∨ p.line = q.line ∧ p.column < q.column

namespace Text

/-! ### Line starts -/

theorem lineStarts_pairwise (t : Text) : t.lineStarts.Pairwise (· < ·) := by
  have hends : ∀ o, (breakEnds o t).Pairwise (· < ·) := by
    induction t using breaks_induction with
    | nil => simp [breakEnds_nil]
    | pair rest ih =>
      intro o
      rw [breakEnds_pair]
      exact List.pairwise_cons.mpr ⟨fun e he => (breakEnds_bounds he).1, ih _⟩
    | symbol s rest h ih =>
      intro o
      rw [breakEnds_symbol h]
      split_ifs
      · exact List.pairwise_cons.mpr ⟨fun e he => (breakEnds_bounds he).1, ih _⟩
      · exact ih _
  exact List.pairwise_cons.mpr ⟨fun e he => (breakEnds_bounds he).1, hends 0⟩

/-- The lines behind a break at the start of a text are those of the rest. -/
theorem lineStarts_behind {s t : Text} {n : Nat} (h : breakEnds 0 s = n :: breakEnds n t) :
    s.lineStarts = 0 :: t.lineStarts.map (n + ·) := by
  rw [lineStarts, h, breakEnds_eq_map n t]
  rfl

/-- A line begins behind each symbol of a break, at once or behind its other symbol. -/
theorem exists_start_behind {t : Text} {k : Nat} {s : Sym} (hk : t[k]? = some s) (hs : s.isBreak) :
    ∃ e ∈ t.lineStarts, k < e ∧ ∀ m, k < m → m < e → ∃ c, t[m]? = some c ∧ c.isBreak := by
  have hmem {e : Nat} (h : t.EndsBreak e) : e ∈ t.lineStarts :=
    List.mem_cons_of_mem _ ((mem_breakEnds t e).mpr h)
  by_cases hpair : s = .char '\r' ∧ t[k + 1]? = some (.char '\n')
  · refine ⟨k + 2, hmem ⟨k + 1, rfl, .inl hpair.2⟩, by omega, fun m hlt hle => ?_⟩
    obtain rfl : m = k + 1 := by omega
    exact ⟨_, hpair.2, rfl⟩
  · refine ⟨k + 1, hmem ⟨k, rfl, ?_⟩, by omega, fun m hlt hle => by omega⟩
    rcases isBreak_iff.mp hs with rfl | rfl
    · exact .inr ⟨hk, fun h => hpair ⟨rfl, h⟩⟩
    · exact .inl hk

/-! ### The line of an offset -/

/-- Of increasing starts, those taken up to an offset are all that are not behind it. -/
theorem takeWhile_eq_filter_of_pairwise {starts : List Nat} (h : starts.Pairwise (· < ·)) (o : Int) :
    (starts.takeWhile fun (s : Nat) => (s : Int) ≤ o) = starts.filter fun (s : Nat) => (s : Int) ≤ o := by
  induction starts with
  | nil => rfl
  | cons s rest ih =>
    obtain ⟨hs, hrest⟩ := List.pairwise_cons.mp h
    rw [List.takeWhile_cons, List.filter_cons, ih hrest]
    split_ifs with hle
    · rfl
    · rw [eq_comm, List.filter_eq_nil_iff]
      intro e he
      have := hs e he
      simp only [decide_eq_true_eq] at hle ⊢
      omega

/-- The line on which an offset stands, by its place among the lines and its start. -/
structure StandsOn (t : Text) (o i start : Nat) : Prop where
  start_eq : t.lineStarts[i]? = some start
  start_le : start ≤ o
  last : ∀ e ∈ t.lineStarts, start < e → o < e

theorem exists_standsOn (t : Text) (o : Nat) : ∃ i start, t.StandsOn o i start ∧
    Position.ofOffset? t.lineStarts o = some ⟨i + 1, (o : Int) - start + 1⟩ := by
  obtain ⟨taken, htaken⟩ : ∃ taken, (t.lineStarts.takeWhile fun (s : Nat) => (s : Int) ≤ o) = taken :=
    ⟨_, rfl⟩
  have hprefix : taken <+: t.lineStarts := htaken ▸ List.takeWhile_prefix _
  have hmem {e : Nat} : e ∈ taken ↔ e ∈ t.lineStarts ∧ e ≤ o := by
    rw [← htaken, takeWhile_eq_filter_of_pairwise t.lineStarts_pairwise, List.mem_filter,
      decide_eq_true_eq, Int.ofNat_le]
  have hfirst : 0 ∈ taken := hmem.mpr ⟨List.mem_cons_self, Nat.zero_le o⟩
  have hlt : taken.length - 1 < taken.length := Nat.sub_one_lt (List.length_pos_of_mem hfirst).ne'
  have hat : t.lineStarts[taken.length - 1]? = some taken[taken.length - 1] :=
    List.prefix_iff_getElem?.mp hprefix _ hlt
  refine ⟨taken.length - 1, taken[taken.length - 1],
    ⟨hat, (hmem.mp (List.getElem_mem hlt)).2, fun e he hafter => ?_⟩, ?_⟩
  · -- A start up to the offset is among those taken, of which this one is the last.
    by_contra hle
    obtain ⟨j, hj, rfl⟩ := List.mem_iff_getElem.mp (hmem.mpr ⟨he, Nat.le_of_not_lt hle⟩)
    have hsorted := t.lineStarts_pairwise.sublist hprefix.sublist
    rcases Nat.lt_or_ge j (taken.length - 1) with hj' | hj'
    · have := List.pairwise_iff_getElem.mp hsorted j _ hj hlt hj'
      omega
    · obtain rfl : j = taken.length - 1 := by omega
      omega
  · simp only [Position.ofOffset?, htaken, hat]
    rfl

namespace StandsOn

variable {t : Text} {o o' i j start start' : Nat}

theorem mem (h : t.StandsOn o i start) : start ∈ t.lineStarts :=
  List.mem_of_getElem? h.start_eq

/-- Lines are in the order of their starts. -/
theorem index_lt (h : t.StandsOn o i start) (h' : t.StandsOn o' j start') (hlt : start < start') :
    i < j := by
  obtain ⟨hi, rfl⟩ := List.getElem?_eq_some_iff.mp h.start_eq
  obtain ⟨hj, rfl⟩ := List.getElem?_eq_some_iff.mp h'.start_eq
  rcases Nat.lt_trichotomy i j with hij | rfl | hij
  · exact hij
  · omega
  · have := List.pairwise_iff_getElem.mp t.lineStarts_pairwise j i hj hi hij
    omega

/-- A later offset stands on a later line, or on the same one. -/
theorem before (h : t.StandsOn o i start) (h' : t.StandsOn o' j start') (hlt : o < o') :
    i < j ∨ i = j ∧ start = start' := by
  rcases Nat.lt_trichotomy start start' with hs | rfl | hs
  · exact .inl (h.index_lt h' hs)
  · refine .inr ⟨?_, rfl⟩
    obtain ⟨hi, hstart⟩ := List.getElem?_eq_some_iff.mp h.start_eq
    obtain ⟨hj, hstart'⟩ := List.getElem?_eq_some_iff.mp h'.start_eq
    have hnodup : t.lineStarts.Nodup := t.lineStarts_pairwise.imp Nat.ne_of_lt
    exact (hnodup.getElem_inj_iff).mp (hstart.trans hstart'.symm)
  · have := h'.last start h.mem hs
    have := h.start_le
    omega

end StandsOn

/-! ### The text of a line -/

theorem pieces_symbol {s : Sym} {rest : Text}
    (h : ¬(s = .char '\r' ∧ rest.head? = some (.char '\n'))) :
    pieces (s :: rest) = if s.isBreak then [] :: pieces rest
      else match pieces rest with
        | [] => [[s]]
        | first :: others => (s :: first) :: others := by
  rw [pieces.eq_def]
  split
  · next heq => cases heq
  · next heq =>
    cases heq
    exact absurd ⟨rfl, rfl⟩ h
  · next heq =>
    cases heq
    rfl

theorem length_pieces (t : Text) : t.pieces.length = t.lineStarts.length := by
  rw [lineStarts, List.length_cons]
  induction t using breaks_induction with
  | nil => simp [pieces, breakEnds_nil]
  | pair rest ih => simp [pieces, breakEnds_pair, ih, length_breakEnds]
  | symbol s rest h ih =>
    rw [length_breakEnds] at ih
    rw [breakEnds_symbol h, pieces_symbol h]
    split_ifs
    · simp [ih, length_breakEnds]
    · cases hrest : pieces rest with
      | nil => simp [hrest] at ih
      | cons first others => simpa [hrest, length_breakEnds] using ih

/-- From the start of a line a text goes on with the line, and then with a break if it does not
end. -/
theorem pieces_spec {t : Text} {i start : Nat} (h : t.lineStarts[i]? = some start) :
    ∃ line rest, t.pieces[i]? = some line ∧ t.drop start = line ++ rest ∧
      ∀ s ∈ rest.head?, s.isBreak := by
  induction t using breaks_induction generalizing i start with
  | nil =>
    cases i with
    | zero => exact ⟨[], [], by simp [pieces], by simp, by simp⟩
    | succ i => simp [lineStarts, breakEnds_nil] at h
  | pair rest ih =>
    rw [lineStarts_behind (breakEnds_pair 0 rest)] at h
    cases i with
    | zero =>
      obtain rfl : 0 = start := Option.some.inj h
      exact ⟨[], _, by simp [pieces], rfl, by simp [Sym.isBreak, Sym.is]⟩
    | succ i =>
      rw [List.getElem?_cons_succ, List.getElem?_map] at h
      obtain ⟨start, hstart, rfl⟩ := Option.map_eq_some_iff.mp h
      obtain ⟨line, more, hline, hdrop, hmore⟩ := ih hstart
      refine ⟨line, more, by simpa [pieces] using hline, ?_, hmore⟩
      rw [Nat.add_comm]
      exact hdrop
  | symbol s rest hs ih =>
    cases hbreak : s.isBreak with
    | true =>
      have hends : breakEnds 0 (s :: rest) = 1 :: breakEnds 1 rest := by
        rw [breakEnds_symbol hs, if_pos hbreak]
      have hpieces : pieces (s :: rest) = [] :: pieces rest := by rw [pieces_symbol hs, if_pos hbreak]
      rw [lineStarts_behind hends] at h
      cases i with
      | zero =>
        obtain rfl : 0 = start := Option.some.inj h
        exact ⟨[], _, by rw [hpieces]; rfl, rfl, by simpa using hbreak⟩
      | succ i =>
        rw [List.getElem?_cons_succ, List.getElem?_map] at h
        obtain ⟨start, hstart, rfl⟩ := Option.map_eq_some_iff.mp h
        obtain ⟨line, more, hline, hdrop, hmore⟩ := ih hstart
        refine ⟨line, more, by rw [hpieces]; exact hline, ?_, hmore⟩
        rw [Nat.add_comm]
        exact hdrop
    | false =>
      obtain ⟨first, others, hrest⟩ : ∃ first others, pieces rest = first :: others :=
        List.exists_cons_of_length_pos (by rw [length_pieces]; exact Nat.succ_pos _)
      have hpieces : pieces (s :: rest) = (s :: first) :: others := by
        rw [pieces_symbol hs, hbreak, hrest]
        rfl
      have hstarts : lineStarts (s :: rest) = 0 :: (breakEnds 0 rest).map (1 + ·) := by
        rw [lineStarts, breakEnds_symbol hs, hbreak, breakEnds_eq_map]
        rfl
      rw [hstarts] at h
      cases i with
      | zero =>
        obtain rfl : 0 = start := Option.some.inj h
        obtain ⟨line, more, hline, hdrop, hmore⟩ := @ih 0 0 rfl
        rw [hrest] at hline
        obtain rfl : first = line := Option.some.inj hline
        refine ⟨s :: first, more, by rw [hpieces]; rfl, ?_, hmore⟩
        rw [List.drop_zero] at hdrop ⊢
        rw [hdrop, List.cons_append]
      | succ i =>
        rw [List.getElem?_cons_succ, List.getElem?_map] at h
        obtain ⟨start, hstart, rfl⟩ := Option.map_eq_some_iff.mp h
        obtain ⟨line, more, hline, hdrop, hmore⟩ := @ih (i + 1) start hstart
        rw [hrest] at hline
        refine ⟨line, more, by rw [hpieces]; exact hline, ?_, hmore⟩
        rw [Nat.add_comm]
        exact hdrop

section

variable {t : Text} {o i start : Nat}

/-- A symbol that is no break stands in its line at its column. -/
theorem StandsOn.piece_at (h : t.StandsOn o i start) {s : Sym} (ho : t[o]? = some s)
    (hs : s.isBreak = false) : ∃ piece, t.pieces[i]? = some piece ∧ piece[o - start]? = some s := by
  obtain ⟨line, rest, hline, hdrop, hrest⟩ := pieces_spec h.start_eq
  have hle := h.start_le
  refine ⟨line, hline, ?_⟩
  have hat (m : Nat) : (line ++ rest)[m]? = t[start + m]? := by rw [← hdrop, List.getElem?_drop]
  by_cases hlt : o - start < line.length
  · rw [← List.getElem?_append_left hlt, hat, Nat.add_sub_cancel' hle, ho]
  · -- Else the break behind the line ends before the offset, which stands on a later line.
    exfalso
    have hin : rest[o - start - line.length]? = some s := by
      rw [← List.getElem?_append_right (Nat.le_of_not_lt hlt), hat, Nat.add_sub_cancel' hle, ho]
    cases rest with
    | nil => simp at hin
    | cons c rest =>
      have hc : t[start + line.length]? = some c := by
        rw [← hat, List.getElem?_append_right (Nat.le_refl _), Nat.sub_self]
        rfl
      obtain ⟨e, he, hlte, hinside⟩ := exists_start_behind hc (hrest c rfl)
      have hoe : o < e := h.last e he (by omega)
      rcases Nat.lt_or_ge (start + line.length) o with hgt | hge
      · obtain ⟨c', hc', hbreak⟩ := hinside o hgt hoe
        rw [ho] at hc'
        obtain rfl := Option.some.inj hc'
        rw [hs] at hbreak
        cases hbreak
      · obtain rfl : o = start + line.length := by omega
        rw [ho] at hc
        obtain rfl := Option.some.inj hc
        have := hrest s rfl
        rw [hs] at this
        cases this

/-- A line on which a symbol stands is one of the source lines. -/
theorem StandsOn.lines_at (h : t.StandsOn o i start) (ho : o < t.length) :
    i < t.lines.length ∧ t.lines[i]? = t.pieces[i]? := by
  obtain ⟨line, rest, hline, hdrop, hrest⟩ := pieces_spec h.start_eq
  have hi : i < t.pieces.length := (List.getElem?_eq_some_iff.mp hline).1
  rw [lines]
  split_ifs with hlast
  · -- The line left out begins at the end of the text.
    have hne : i ≠ t.pieces.length - 1 := by
      intro hend
      have hnil : line = [] := by
        rw [List.getLast?_eq_getElem?, ← hend, hline] at hlast
        exact Option.some.inj hlast.2
      obtain ⟨c, hc⟩ : ∃ c, t[start]? = some c :=
        ⟨_, List.getElem?_eq_getElem (h.start_le.trans_lt ho)⟩
      rw [hnil, List.nil_append] at hdrop
      have hbreak : c.isBreak := hrest c (by rw [← hdrop, List.head?_drop, hc]; rfl)
      obtain ⟨e, he, hlt, -⟩ := exists_start_behind hc hbreak
      obtain ⟨j, hj, rfl⟩ := List.mem_iff_getElem.mp he
      obtain ⟨hi', hstart⟩ := List.getElem?_eq_some_iff.mp h.start_eq
      rw [length_pieces] at hend
      rcases Nat.lt_trichotomy j i with hji | rfl | hji
      · have := List.pairwise_iff_getElem.mp t.lineStarts_pairwise j i hj hi' hji
        omega
      · omega
      · omega
    have hlt : i < t.pieces.length - 1 := by omega
    exact ⟨by rwa [List.length_dropLast], List.getElem?_dropLast.trans (if_pos hlt)⟩
  · exact ⟨hi, rfl⟩

end

/-! ### Lines that keep their endings -/

/-- Whether the last symbol ends a line. -/
def IsEnded (t : Text) : Prop := ∃ s, t.getLast? = some s ∧ isLineEnd s

section

variable {s : Sym} {t rest line : Text} {lines : List Text}

theorem keptLines_symbol (h : ¬(s = .char '\r' ∧ rest.head? = some (.char '\n'))) :
    keptLines (s :: rest) = if isLineEnd s then [s] :: keptLines rest
      else match keptLines rest with
        | [] => [[s]]
        | first :: others => (s :: first) :: others := by
  rw [keptLines.eq_def]
  split
  · next heq => cases heq
  · next heq =>
    cases heq
    exact absurd ⟨rfl, rfl⟩ h
  · next heq =>
    cases heq
    rfl

/-- What a symbol that ends no line begins is the line of what follows, if anything does. -/
theorem keptLines_inner (h : isLineEnd s = false) :
    keptLines (s :: rest) = match keptLines rest with
      | [] => [[s]]
      | first :: others => (s :: first) :: others := by
  have hreturn : ¬(s = .char '\r' ∧ rest.head? = some (.char '\n')) := by
    rintro ⟨rfl, -⟩
    exact absurd h (by decide)
  rw [keptLines_symbol hreturn, if_neg (by simp [h])]

theorem flatten_keptLines (t : Text) : t.keptLines.flatten = t := by
  induction t using breaks_induction with
  | nil => rfl
  | pair rest ih => rw [keptLines, List.flatten_cons, ih]; rfl
  | symbol s rest h ih =>
    rw [keptLines_symbol h]
    split_ifs
    · rw [List.flatten_cons, ih, List.singleton_append]
    · cases hlines : keptLines rest with
      | nil =>
        rw [hlines] at ih
        rw [← ih]
        rfl
      | cons first others =>
        rw [hlines] at ih
        rw [← ih]
        rfl

theorem keptLines_eq_nil : keptLines t = [] ↔ t = [] := by
  refine ⟨fun h => ?_, fun h => h ▸ rfl⟩
  rw [← flatten_keptLines t, h, List.flatten_nil]

/-- A symbol that ends no line can be put before a line. -/
theorem keptLines_cons_of_line (h : isLineEnd s = false) (hline : keptLines line = [line]) :
    keptLines (s :: line) = [s :: line] := by
  rw [keptLines_inner h, hline]

/-- Behind symbols that end no line a line goes on, if anything does. -/
theorem keptLines_append_of_inner {inner : Text} (h : ∀ s ∈ inner, isLineEnd s = false)
    (hne : t ≠ []) : keptLines (inner ++ t) = [inner ++ t] ↔ keptLines t = [t] := by
  induction inner with
  | nil => rfl
  | cons s inner ih =>
    obtain ⟨hs, hinner⟩ := List.forall_mem_cons.mp h
    rw [← ih hinner, List.cons_append, keptLines_inner hs]
    cases hlines : keptLines (inner ++ t) with
    | nil => simp [keptLines_eq_nil, hne] at hlines
    | cons first others => simp

/-- Each line of a text is one line. -/
theorem keptLines_of_mem (h : line ∈ keptLines t) : keptLines line = [line] := by
  induction t using breaks_induction generalizing line with
  | nil => cases h
  | pair rest ih =>
    rcases List.mem_cons.mp h with rfl | h
    · rfl
    · exact ih h
  | symbol s rest hs ih =>
    rw [keptLines_symbol hs] at h
    split_ifs at h with hend
    · rcases List.mem_cons.mp h with rfl | h
      · rw [keptLines_symbol (by simp), if_pos hend]
        rfl
      · exact ih h
    · have hend := Bool.eq_false_iff.mpr hend
      cases hlines : keptLines rest with
      | nil =>
        rw [hlines, List.mem_singleton] at h
        rw [h, keptLines_inner hend]
        rfl
      | cons first others =>
        rw [hlines] at h ih
        rcases List.mem_cons.mp h with rfl | h
        · exact keptLines_cons_of_line hend (ih List.mem_cons_self)
        · exact ih (List.mem_cons_of_mem _ h)

theorem isEnded_cons (hne : line ≠ []) : IsEnded (s :: line) ↔ IsEnded line := by
  cases line with
  | nil => exact absurd rfl hne
  | cons c line => rw [IsEnded, List.getLast?_cons_cons, IsEnded]

theorem mem_dropLast_cons {α : Type} {a b : α} {bs : List α} :
    a ∈ (b :: bs).dropLast ↔ a = b ∧ bs ≠ [] ∨ a ∈ bs.dropLast := by
  cases bs <;> simp

/-- Each line but the last has its ending. -/
theorem isEnded_of_mem_dropLast (h : line ∈ (keptLines t).dropLast) : IsEnded line := by
  induction t using breaks_induction generalizing line with
  | nil => cases h
  | pair rest ih =>
    rcases mem_dropLast_cons.mp h with ⟨rfl, -⟩ | h
    · exact ⟨.char '\n', rfl, by decide⟩
    · exact ih h
  | symbol s rest hs ih =>
    rw [keptLines_symbol hs] at h
    split_ifs at h with hend
    · rcases mem_dropLast_cons.mp h with ⟨rfl, -⟩ | h
      · exact ⟨s, rfl, hend⟩
      · exact ih h
    · cases hlines : keptLines rest with
      | nil =>
        rw [hlines] at h
        cases h
      | cons first others =>
        rw [hlines] at h ih
        rcases mem_dropLast_cons.mp h with ⟨rfl, hothers⟩ | h
        · have hfirst := ih (mem_dropLast_cons.mpr (.inl ⟨rfl, hothers⟩))
          refine (isEnded_cons ?_).mpr hfirst
          rintro rfl
          obtain ⟨s, hs, -⟩ := hfirst
          cases hs
        · exact ih (mem_dropLast_cons.mpr (.inr h))

/-- A line with its ending is cut from what follows, unless that goes on with the ending. -/
theorem keptLines_append (hline : keptLines line = [line]) (hended : IsEnded line)
    (hrest : rest.head? ≠ some (.char '\n')) :
    keptLines (line ++ rest) = line :: keptLines rest := by
  induction line using breaks_induction with
  | nil => cases hline
  | pair more ih =>
    have hmore : more = [] := keptLines_eq_nil.mp (List.cons.inj hline).2
    rw [hmore]
    rfl
  | symbol s more hs ih =>
    rw [keptLines_symbol hs] at hline
    split_ifs at hline with hend
    · have hmore : more = [] := keptLines_eq_nil.mp (List.cons.inj hline).2
      rw [hmore, List.singleton_append, keptLines_symbol (fun h => hrest h.2), if_pos hend]
    · have hend := Bool.eq_false_iff.mpr hend
      cases hlines : keptLines more with
      | nil =>
        rw [keptLines_eq_nil.mp hlines] at hended
        obtain ⟨c, hc, hcend⟩ := hended
        obtain rfl : s = c := Option.some.inj hc
        exact absurd hcend (by simp [hend])
      | cons first others =>
        rw [hlines] at hline
        obtain ⟨hfirst, rfl⟩ := List.cons.inj hline
        obtain rfl := (List.cons.inj hfirst).2
        have hne : first ≠ [] := by
          rintro rfl
          rw [keptLines] at hlines
          cases hlines
        rw [List.cons_append, keptLines_inner hend, ih hlines ((isEnded_cons hne).mp hended)]

/-- Lines that are put together come apart again if each of them but the last has its ending, and
none begins with a line feed, which might go with the ending before it. -/
theorem keptLines_flatten (hlines : ∀ line ∈ lines, keptLines line = [line])
    (hended : ∀ line ∈ lines.dropLast, IsEnded line)
    (hhead : ∀ line ∈ lines, line.head? ≠ some (.char '\n')) : keptLines lines.flatten = lines := by
  induction lines with
  | nil => rfl
  | cons first rest ih =>
    obtain ⟨hfirst, hrest⟩ := List.forall_mem_cons.mp hlines
    have hheads := (List.forall_mem_cons.mp hhead).2
    by_cases hnil : rest = []
    · rw [hnil, List.flatten_singleton]
      exact hfirst
    have hended' := hended first (mem_dropLast_cons.mpr (.inl ⟨rfl, hnil⟩))
    have hhead' : rest.flatten.head? ≠ some (.char '\n') := by
      obtain ⟨second, more, rfl⟩ := List.exists_cons_of_ne_nil hnil
      have hsecond := List.forall_mem_cons.mp hrest
      cases second with
      | nil => cases hsecond.1
      | cons c second => exact hheads (c :: second) List.mem_cons_self
    rw [List.flatten_cons, keptLines_append hfirst hended' hhead',
      ih hrest (fun line h => hended line (mem_dropLast_cons.mpr (.inr h))) hheads]

end

end Text

end HouseStyle
