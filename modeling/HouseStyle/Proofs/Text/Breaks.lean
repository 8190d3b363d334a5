import HouseStyle.Proofs.Text.Stops
import HouseStyle.Text.Lines
import Mathlib.Data.List.Basic
import Mathlib.Data.List.TakeWhile

/-! Line breaks by their ends. A break ends behind a line feed, and behind a carriage return that no
line feed follows. Two texts put together have the breaks of both, unless they part a carriage return
from its line feed, and the line of an offset is the number of breaks that end before it. -/

namespace HouseStyle.Text

/-- Whether a break of a text ends at an offset. -/
def EndsBreak (t : Text) (e : Nat) : Prop :=
  ∃ k, e = k + 1 ∧
    (t[k]? = some (.char '\n') ∨ t[k]? = some (.char '\r') ∧ t[k + 1]? ≠ some (.char '\n'))

/-- Whether two texts part a carriage return from its line feed. -/
def PartsPair (u v : Text) : Prop := u.getLast? = some (.char '\r') ∧ v.head? = some (.char '\n')

/-- The pairs of a carriage return and its line feed. -/
def pairCount : Text → Nat
  | [] => 0
  | .char '\r' :: .char '\n' :: rest => pairCount rest + 1
  | _ :: rest => pairCount rest

/-! ### Induction on breaks -/

/-- A text is empty, or begins with a pair, or with a symbol that is not the first one of a pair. -/
theorem breaks_induction {motive : Text → Prop} (nil : motive [])
    (pair : ∀ rest, motive rest → motive (.char '\r' :: .char '\n' :: rest))
    (symbol : ∀ s rest, ¬(s = .char '\r' ∧ rest.head? = some (.char '\n')) → motive rest →
      motive (s :: rest)) (t : Text) : motive t := by
  match t with
  | [] => exact nil
  | [s] => exact symbol s [] (by simp) nil
  | s :: s' :: rest =>
    by_cases hpair : s = .char '\r' ∧ s' = .char '\n'
    · obtain ⟨rfl, rfl⟩ := hpair
      exact pair rest (breaks_induction nil pair symbol rest)
    · exact symbol s (s' :: rest) (by simpa using hpair) (breaks_induction nil pair symbol _)

theorem isBreak_iff {s : Sym} : s.isBreak ↔ s = .char '\r' ∨ s = .char '\n' := by
  simp [Sym.isBreak, Sym.is_iff]

theorem breakEnds_nil (o : Nat) : breakEnds o [] = [] := by
  simp [breakEnds]

theorem breakEnds_pair (o : Nat) (rest : Text) :
    breakEnds o (.char '\r' :: .char '\n' :: rest) = (o + 2) :: breakEnds (o + 2) rest := by
  simp [breakEnds]

section

variable {s : Sym} {rest : Text}

theorem breakEnds_symbol (h : ¬(s = .char '\r' ∧ rest.head? = some (.char '\n'))) (o : Nat) :
    breakEnds o (s :: rest) =
      if s.isBreak then (o + 1) :: breakEnds (o + 1) rest else breakEnds (o + 1) rest := by
  rw [breakEnds.eq_def]
  split
  · next heq => cases heq
  · next heq =>
    cases heq
    exact absurd ⟨rfl, rfl⟩ h
  · next heq =>
    cases heq
    rfl

theorem pairCount_symbol (h : ¬(s = .char '\r' ∧ rest.head? = some (.char '\n'))) :
    pairCount (s :: rest) = pairCount rest := by
  rw [pairCount.eq_def]
  split
  · next heq => cases heq
  · next heq =>
    cases heq
    exact absurd ⟨rfl, rfl⟩ h
  · next heq =>
    cases heq
    rfl

end

theorem breakEnds_eq_map (o : Nat) (t : Text) : breakEnds o t = (breakEnds 0 t).map (o + ·) := by
  induction t using breaks_induction generalizing o with
  | nil => simp [breakEnds_nil]
  | pair rest ih =>
    rw [breakEnds_pair, breakEnds_pair, ih (o + 2), ih (0 + 2)]
    simp [Nat.add_assoc]
  | symbol s rest h ih =>
    rw [breakEnds_symbol h, breakEnds_symbol h, ih (o + 1), ih (0 + 1)]
    split_ifs <;> simp [Nat.add_assoc]

theorem length_breakEnds (o : Nat) (t : Text) : (breakEnds o t).length = t.breakCount := by
  rw [breakEnds_eq_map, List.length_map, breakCount]

theorem breakCount_eq_zero_iff {t : Text} : t.breakCount = 0 ↔ ∀ s ∈ t, s.isBreak = false := by
  induction t using breaks_induction with
  | nil => simp [breakCount, breakEnds_nil]
  | pair rest ih =>
    have hbreak : (Sym.char '\n').isBreak = true := rfl
    simp [breakCount, breakEnds_pair, hbreak]
  | symbol s rest h ih =>
    rw [breakCount, breakEnds_symbol h, apply_ite List.length, List.length_cons, length_breakEnds,
      List.forall_mem_cons, ← ih]
    cases s.isBreak with
    | true => simp
    | false => simp

/-- The line feeds and the carriage returns of a text, less the pairs of them, are its breaks. -/
theorem breakCount_add_pairCount (t : Text) :
    t.breakCount + t.pairCount = t.count (.char '\n') + t.count (.char '\r') := by
  have hne : Sym.char '\r' ≠ .char '\n' := by decide
  induction t using breaks_induction with
  | nil => simp [breakCount, breakEnds_nil, pairCount]
  | pair rest ih =>
    rw [breakCount, breakEnds_pair, List.length_cons, length_breakEnds, pairCount,
      List.count_cons_of_ne hne, List.count_cons_self, List.count_cons_self,
      List.count_cons_of_ne hne.symm]
    omega
  | symbol s rest h ih =>
    rw [breakCount, breakEnds_symbol h, pairCount_symbol h, apply_ite List.length, List.length_cons,
      length_breakEnds]
    by_cases hcr : s = .char '\r'
    · subst hcr
      rw [if_pos (isBreak_iff.mpr (.inl rfl)), List.count_cons_of_ne hne, List.count_cons_self]
      omega
    · by_cases hlf : s = .char '\n'
      · subst hlf
        rw [if_pos (isBreak_iff.mpr (.inr rfl)), List.count_cons_self, List.count_cons_of_ne hcr]
        omega
      · rw [if_neg (by simp [isBreak_iff, hcr, hlf]), List.count_cons_of_ne hlf,
          List.count_cons_of_ne hcr]
        exact ih

/-! ### Ends -/

theorem mem_breakEnds (t : Text) (e : Nat) : e ∈ breakEnds 0 t ↔ t.EndsBreak e := by
  induction t using breaks_induction generalizing e with
  | nil => simp [breakEnds_nil, EndsBreak]
  | pair rest ih =>
    rw [breakEnds_pair, breakEnds_eq_map, List.mem_cons, List.mem_map]
    simp only [ih, EndsBreak]
    constructor
    · rintro (rfl | ⟨_, ⟨k, rfl, hk⟩, rfl⟩)
      · exact ⟨1, rfl, by simp⟩
      · exact ⟨k + 2, by omega, by simpa using hk⟩
    · rintro ⟨k, rfl, hk⟩
      match k with
      | 0 => simp at hk
      | 1 => exact .inl rfl
      | k + 2 => exact .inr ⟨k + 1, ⟨k, rfl, by simpa using hk⟩, by omega⟩
  | symbol s rest h ih =>
    have hhere : s.isBreak ↔
        s = .char '\n' ∨ s = .char '\r' ∧ rest[0]? ≠ some (.char '\n') := by
      rw [isBreak_iff, ← List.head?_eq_getElem?]
      tauto
    have hmem : e ∈ breakEnds 0 (s :: rest) ↔
        (s.isBreak ∧ e = 1) ∨ ∃ e', rest.EndsBreak e' ∧ 1 + e' = e := by
      rw [breakEnds_symbol h, breakEnds_eq_map]
      split_ifs with hbreak <;> simp [hbreak, ih]
    rw [hmem]
    simp only [EndsBreak]
    constructor
    · rintro (⟨hbreak, rfl⟩ | ⟨_, ⟨k, rfl, hk⟩, rfl⟩)
      · exact ⟨0, rfl, by simpa using hhere.mp hbreak⟩
      · exact ⟨k + 1, by omega, by simpa using hk⟩
    · rintro ⟨k, rfl, hk⟩
      cases k with
      | zero => exact .inl ⟨hhere.mpr (by simpa using hk), rfl⟩
      | succ k => exact .inr ⟨k + 1, ⟨k, rfl, by simpa using hk⟩, by omega⟩

theorem breakEnds_bounds {o e : Nat} {t : Text} (h : e ∈ breakEnds o t) :
    o < e ∧ e ≤ o + t.length := by
  rw [breakEnds_eq_map, List.mem_map] at h
  obtain ⟨e, he, rfl⟩ := h
  obtain ⟨k, rfl, hk⟩ := (mem_breakEnds t e).mp he
  have hlt : k < t.length := by
    rcases hk with hk | hk
    · exact (List.getElem?_eq_some_iff.mp hk).1
    · exact (List.getElem?_eq_some_iff.mp hk.1).1
  omega

/-- Two texts that part no pair have the breaks of both. -/
theorem breakEnds_append {u v : Text} (h : ¬PartsPair u v) (o : Nat) :
    breakEnds o (u ++ v) = breakEnds o u ++ breakEnds (o + u.length) v := by
  induction u using breaks_induction generalizing o with
  | nil => simp [breakEnds_nil]
  | pair rest ih =>
    have hrest : ¬PartsPair rest v := fun ⟨hlast, hhead⟩ =>
      h ⟨by simp [List.getLast?_cons, hlast], hhead⟩
    simp only [List.cons_append, breakEnds_pair, ih hrest, List.length_cons]
    rw [show o + 2 + rest.length = o + (rest.length + 1 + 1) by omega]
  | symbol s rest hs ih =>
    have hrest : ¬PartsPair rest v := fun ⟨hlast, hhead⟩ =>
      h ⟨by simp [List.getLast?_cons, hlast], hhead⟩
    have hs' : ¬(s = .char '\r' ∧ (rest ++ v).head? = some (.char '\n')) := by
      rintro ⟨rfl, hhead⟩
      cases rest with
      | nil => exact h ⟨rfl, hhead⟩
      | cons c rest => exact hs ⟨rfl, hhead⟩
    rw [List.cons_append, breakEnds_symbol hs', breakEnds_symbol hs, ih hrest, List.length_cons,
      show o + 1 + rest.length = o + (rest.length + 1) by omega]
    split_ifs <;> rfl

theorem breakCount_append {u v : Text} (h : ¬PartsPair u v) :
    (u ++ v).breakCount = u.breakCount + v.breakCount := by
  rw [breakCount, breakEnds_append h, List.length_append, length_breakEnds, length_breakEnds]

theorem PartsPair.append_right {u v : Text} (h : PartsPair u v) (w : Text) : PartsPair u (v ++ w) :=
  ⟨h.1, by rw [List.head?_append, h.2, Option.some_or]⟩

theorem PartsPair.append_left {v w : Text} (h : PartsPair v w) (u : Text) : PartsPair (u ++ v) w :=
  ⟨by rw [List.getLast?_append, h.1, Option.some_or], h.2⟩

/-- The breaks of a part of a text are those that end behind its start and not behind its end. -/
theorem mem_breakEnds_part {u v w : Text} (huv : ¬PartsPair u (v ++ w)) (hvw : ¬PartsPair (u ++ v) w)
    (e : Nat) :
    e ∈ breakEnds u.length v ↔
      (u ++ (v ++ w)).EndsBreak e ∧ u.length < e ∧ e ≤ (u ++ v).length := by
  have hends : breakEnds 0 (u ++ (v ++ w)) =
      breakEnds 0 u ++ (breakEnds u.length v ++ breakEnds (u ++ v).length w) := by
    rw [breakEnds_append huv, breakEnds_append fun h => hvw (h.append_left u), Nat.zero_add,
      List.length_append]
  rw [← mem_breakEnds, hends, List.mem_append, List.mem_append]
  constructor
  · intro he
    obtain ⟨hlt, hle⟩ := breakEnds_bounds he
    exact ⟨.inr (.inl he), hlt, by rwa [List.length_append]⟩
  · rintro ⟨he | he | he, hlt, hle⟩
    · have := (breakEnds_bounds he).2
      omega
    · exact he
    · have := (breakEnds_bounds he).1
      omega

/-! ### The last break -/

theorem breakEnds_eq_nil {t : Text} (h : ∀ s ∈ t, s.isBreak = false) (o : Nat) :
    breakEnds o t = [] := by
  induction t generalizing o with
  | nil => exact breakEnds_nil o
  | cons s rest ih =>
    have hs : s.isBreak = false := h s (by simp)
    have hpair : ¬(s = .char '\r' ∧ rest.head? = some (.char '\n')) := by
      rintro ⟨rfl, -⟩
      exact absurd hs (by decide)
    rw [breakEnds_symbol hpair, hs, ih fun s hs => h s (by simp [hs])]
    rfl

/-- A text is free of breaks, or has a last break symbol. -/
theorem exists_last_break (t : Text) :
    (∀ s ∈ t, s.isBreak = false) ∨
      ∃ u s v, t = u ++ s :: v ∧ s.isBreak ∧ ∀ c ∈ v, c.isBreak = false := by
  induction t with
  | nil => exact .inl (by simp)
  | cons s rest ih =>
    rcases ih with hfree | ⟨u, c, v, rfl, hc, hv⟩
    · cases hs : s.isBreak with
      | false => exact .inl (by simpa [hs] using hfree)
      | true => exact .inr ⟨[], s, rest, rfl, hs, hfree⟩
    · exact .inr ⟨s :: u, c, v, rfl, hc, hv⟩

/-- A text with a last break symbol ends its last break right behind it. -/
theorem breakEnds_getLast? {u v : Text} {s : Sym} (hs : s.isBreak)
    (hv : ∀ c ∈ v, c.isBreak = false) (o : Nat) :
    (breakEnds o (u ++ s :: v)).getLast? = some (o + u.length + 1) := by
  induction u using breaks_induction generalizing o with
  | nil =>
    have hpair : ¬(s = .char '\r' ∧ v.head? = some (.char '\n')) := by
      rintro ⟨-, hhead⟩
      exact absurd (hv _ (List.mem_of_head? hhead)) (by decide)
    rw [List.nil_append, breakEnds_symbol hpair, if_pos hs, breakEnds_eq_nil hv]
    rfl
  | pair rest ih =>
    simp only [List.cons_append, breakEnds_pair, List.getLast?_cons, ih, Option.getD_some,
      List.length_cons, Option.some.injEq]
    omega
  | symbol c rest hc ih =>
    by_cases hpair : c = .char '\r' ∧ (rest ++ s :: v).head? = some (.char '\n')
    · obtain ⟨rfl, hhead⟩ := hpair
      cases rest with
      | cons d rest => exact absurd ⟨rfl, hhead⟩ hc
      | nil =>
        obtain rfl : s = .char '\n' := Option.some.inj hhead
        rw [List.cons_append, List.nil_append, breakEnds_pair, breakEnds_eq_nil hv]
        rfl
    · rw [List.cons_append, breakEnds_symbol hpair]
      split_ifs
      · rw [List.getLast?_cons, ih, Option.getD_some, List.length_cons]
        congr 1
        omega
      · rw [ih, List.length_cons]
        congr 1
        omega

/-! ### Lines -/

/-- The lines that begin in a text or right behind it are those of the text alone. -/
theorem lineStarts_takeWhile {u v : Text} (h : ¬PartsPair u v) :
    ((u ++ v).lineStarts.takeWhile fun (s : Nat) => (s : Int) ≤ (u.length : Int)) =
      u.lineStarts := by
  have hsplit : (u ++ v).lineStarts = u.lineStarts ++ breakEnds (0 + u.length) v := by
    rw [lineStarts, breakEnds_append h, lineStarts, List.cons_append]
  rw [hsplit, List.takeWhile_append_of_pos, List.append_right_eq_self]
  · cases hends : breakEnds (0 + u.length) v with
    | nil => rfl
    | cons e es =>
      have := (breakEnds_bounds (by rw [hends]; exact List.mem_cons_self)).1
      rw [List.takeWhile_cons_of_neg]
      rw [decide_eq_true_eq]
      omega
  · intro s hs
    rw [decide_eq_true_eq]
    rcases List.mem_cons.mp hs with rfl | hs
    · omega
    · have := (breakEnds_bounds hs).2
      omega

end Text

/-- The offset behind a text stands on the last line that begins in it. -/
theorem Position.ofOffset?_lineStarts {u v : Text} (h : ¬Text.PartsPair u v) :
    Position.ofOffset? (u ++ v).lineStarts u.length =
      u.lineStarts.getLast?.map fun (start : Nat) => ⟨u.breakCount + 1, u.length - start + 1⟩ := by
  have hindex : u.lineStarts.length - 1 = u.breakCount := by
    rw [Text.lineStarts, List.length_cons, Text.length_breakEnds, Nat.add_sub_cancel]
  have hlast : (u ++ v).lineStarts[u.breakCount]? = u.lineStarts.getLast? := by
    rw [Text.lineStarts, Text.breakEnds_append h, ← List.cons_append, List.getElem?_append_left,
      List.getLast?_eq_getElem?, ← hindex]
    · rfl
    · rw [List.length_cons, Text.length_breakEnds]
      exact Nat.lt_succ_self _
  simp only [Position.ofOffset?, Text.lineStarts_takeWhile h, hindex, hlast, bind_pure_comp,
    Option.map_eq_map, Option.map_map]
  rfl

/-- The lines that begin up to an offset are among those that begin up to a later one. -/
theorem takeWhile_le_mono (starts : List Nat) {o o' : Int} (hle : o ≤ o') :
    (starts.takeWhile fun (s : Nat) => (s : Int) ≤ o) <+:
      starts.takeWhile fun (s : Nat) => (s : Int) ≤ o' := by
  have hboth : (fun s : Nat => decide ((s : Int) ≤ o)) =
      fun s : Nat => decide (decide ((s : Int) ≤ o) ∧ decide ((s : Int) ≤ o')) := by
    funext s
    simp only [decide_eq_true_eq, decide_eq_decide]
    omega
  rw [hboth, ← List.takeWhile_takeWhile]
  exact List.takeWhile_prefix _

theorem Position.exists_ofOffset? {starts : List Nat} (h : starts ≠ []) (o : Int) :
    ∃ p, Position.ofOffset? starts o = some p := by
  have hlt : (starts.takeWhile fun (s : Nat) => (s : Int) ≤ o).length - 1 < starts.length := by
    have := (List.takeWhile_prefix (fun s : Nat => decide ((s : Int) ≤ o)) (l := starts)).length_le
    have := List.length_pos_iff.mpr h
    omega
  rw [Position.ofOffset?, List.getElem?_eq_getElem hlt]
  exact ⟨_, rfl⟩

/-- A later offset stands on no earlier line. -/
theorem Position.line_le_line {starts : List Nat} {o o' : Int} (hle : o ≤ o') {p q : Position}
    (hp : Position.ofOffset? starts o = some p) (hq : Position.ofOffset? starts o' = some q) :
    p.line ≤ q.line := by
  obtain ⟨-, -, rfl⟩ := Option.map_eq_some_iff.mp hp
  obtain ⟨-, -, rfl⟩ := Option.map_eq_some_iff.mp hq
  exact Nat.succ_le_succ (Nat.sub_le_sub_right (takeWhile_le_mono starts hle).length_le 1)

end HouseStyle
