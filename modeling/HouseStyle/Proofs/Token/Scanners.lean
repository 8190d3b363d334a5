import HouseStyle.Proofs.Text.Stops
import HouseStyle.Proofs.Token.Extent

/-! What a scanner takes of a text does not depend on what stands behind a stop. A scanner that
stays inside the first part of a text takes the same of it when another text follows, as long as
that one begins with a stop. -/

namespace HouseStyle.Literal

/-- A length that stays the same when what follows gives way to a text that stops. -/
def Steady (f : Text → Nat) : Prop :=
  ∀ w b b' : Text, b'.Stops → f (w ++ b) ≤ w.length → f (w ++ b') = f (w ++ b)

theorem run_append_of_lt {p : Sym → Bool} {w b : Text} (h : run p (w ++ b) < w.length) (b' : Text) :
    run p (w ++ b') = run p (w ++ b) := by
  unfold run at *
  rw [List.takeWhile_append] at h
  split at h
  · rw [List.length_append] at h
    omega
  · next hw => rw [List.takeWhile_append, List.takeWhile_append, if_neg hw, if_neg hw]

/-- A run that ends in a part of a text is a run of the part. -/
theorem run_of_append {p : Sym → Bool} {w b : Text} (h : run p (w ++ b) ≤ w.length) :
    run p w = run p (w ++ b) := by
  unfold run at *
  rw [List.takeWhile_append] at h ⊢
  split_ifs at h ⊢ with hall
  · have hnil : b.takeWhile p = [] := by
      rw [List.length_append] at h
      exact List.length_eq_zero_iff.mp (by omega)
    rw [hnil, List.append_nil, hall]
  · rfl

theorem run_steady {p : Sym → Bool} (hp : ∀ s : Sym, s.isStop → p s = false) : Steady (run p) := by
  intro w b b' hb' hle
  rcases Nat.lt_or_eq_of_le hle with hlt | heq
  · exact run_append_of_lt hlt b'
  · unfold run at *
    rw [List.takeWhile_append] at heq
    rw [List.takeWhile_append, List.takeWhile_append]
    split at heq
    · next hw =>
      rw [List.length_append] at heq
      have hb : b.takeWhile p = [] := List.eq_nil_of_length_eq_zero (by omega)
      rw [if_pos hw, if_pos hw, hb, hb'.takeWhile_eq_nil hp]
    · next hw => exact absurd heq hw

/-! ### Numbers -/

theorem isDigitOrLine_of_isStop {s : Sym} (h : s.isStop) : isDigitOrLine s = false :=
  Sym.eq_false_of_isStop isDigitOrLine (fun n hn => (Sym.stopCodes_classes n hn).2.1) h

theorem isHex_of_isStop {s : Sym} (h : s.isStop) : isHex s = false :=
  Sym.eq_false_of_isStop isHex (fun n hn => (Sym.stopCodes_classes n hn).2.2.1) h

theorem isBinary_of_isStop {s : Sym} (h : s.isStop) : isBinary s = false :=
  Sym.eq_false_of_isStop isBinary (fun n hn => (Sym.stopCodes_classes n hn).2.2.2.1) h

theorem isOctal_of_isStop {s : Sym} (h : s.isStop) : isOctal s = false :=
  Sym.eq_false_of_isStop isOctal (fun n hn => (Sym.stopCodes_classes n hn).2.2.2.2) h

theorem run_le_run {p q : Sym → Bool} (h : ∀ s, p s → q s) (t : Text) : run p t ≤ run q t := by
  induction t with
  | nil => exact Nat.le_refl _
  | cons s rest ih =>
    unfold run at *
    by_cases hs : p s
    · simp [hs, h s hs, ih]
    · simp [hs]

theorem fraction_eq_zero {t : Text} (h : t.head? ≠ some (.char '.')) : fraction t = 0 := by
  unfold fraction
  split
  · exact absurd rfl h
  · rfl

/-- A fraction is a point and what a run takes, provided that it begins with a digit. -/
theorem fraction_point (t : Text) : fraction (.char '.' :: t) =
    if run Sym.isDigit t = 0 then 0 else 1 + run isDigitOrLine t := by
  cases t with
  | nil => rfl
  | cons d rest =>
    by_cases hd : d.isDigit
    · have hline : isDigitOrLine d := by simp [isDigitOrLine, hd]
      simp [fraction, run, hd, hline]
      omega
    · simp [fraction, run, hd]

theorem fraction_steady : Steady fraction := by
  intro w b b' hb' hle
  match w with
  | [] =>
    have hzero : fraction b = 0 := Nat.le_zero.mp hle
    rw [List.nil_append, List.nil_append, hzero, fraction_eq_zero (hb'.head?_ne (by decide))]
  | s :: w =>
    by_cases hs : s = .char '.'
    · subst hs
      have hmono := run_le_run (p := Sym.isDigit) (q := isDigitOrLine)
        (fun s hs => by simp [isDigitOrLine, hs]) (w ++ b)
      simp only [List.cons_append, fraction_point, List.length_cons] at hle ⊢
      have hdigits : run Sym.isDigit (w ++ b') = run Sym.isDigit (w ++ b) := by
        refine run_steady (fun _ => Sym.isDigit_of_isStop) w b b' hb' ?_
        split_ifs at hle <;> omega
      rw [hdigits]
      split_ifs at hle ⊢
      · rfl
      · rw [run_steady (fun _ => isDigitOrLine_of_isStop) w b b' hb' (by omega)]
    · rw [fraction_eq_zero (by simpa using hs), fraction_eq_zero (by simpa using hs)]

theorem sign_eq_zero {t : Text} (ht : t.Stops) : sign t = 0 := by
  have hplus := ht.head?_ne (c := '+') (by decide)
  have hminus := ht.head?_ne (c := '-') (by decide)
  unfold sign
  split <;> simp_all

theorem sign_cons (s : Sym) (t t' : Text) : sign (s :: t) = sign (s :: t') := by
  unfold sign
  split <;> simp_all

/-- A sign, if there is one, and the digits after it; nothing without a digit. -/
def signedDigits (t : Text) : Nat :=
  if run Sym.isDigit (t.drop (sign t)) = 0 then 0 else sign t + run Sym.isDigit (t.drop (sign t))

theorem exponent_cons (c : Char) (t : Text) : exponent (.char c :: t) =
    if (c = 'e' ∨ c = 'E') ∧ signedDigits t ≠ 0 then 1 + signedDigits t else 0 := by
  unfold exponent signedDigits
  by_cases hc : c = 'e' ∨ c = 'E'
  · by_cases hd : run Sym.isDigit (t.drop (sign t)) = 0
    · simp [hd]
    · simp [hc, hd]
      omega
  · simp [hc]

theorem signedDigits_steady : Steady signedDigits := by
  intro w b b' hb' hle
  have hdigits : Steady (run Sym.isDigit) := run_steady fun _ => Sym.isDigit_of_isStop
  match w with
  | [] =>
    have hzero : signedDigits b = 0 := Nat.le_zero.mp hle
    have hrun : run Sym.isDigit b' = 0 := by
      unfold run
      rw [hb'.takeWhile_eq_nil fun _ => Sym.isDigit_of_isStop, List.length_nil]
    rw [List.nil_append, List.nil_append, hzero, signedDigits, sign_eq_zero hb', List.drop_zero,
      if_pos hrun]
  | s :: w =>
    have hsign : sign (s :: w ++ b') = sign (s :: w ++ b) := sign_cons s _ _
    have hone : sign (s :: w ++ b) ≤ (s :: w).length := by
      have := sign_le_length [s]
      have hcons : sign (s :: w ++ b) = sign [s] := sign_cons s _ _
      rw [List.length_singleton] at this
      rw [List.length_cons]
      omega
    unfold signedDigits at hle ⊢
    rw [hsign]
    rw [List.drop_append_of_le_length hone] at hle ⊢
    rw [List.drop_append_of_le_length hone]
    have hdrop : run Sym.isDigit ((s :: w).drop (sign (s :: w ++ b)) ++ b') =
        run Sym.isDigit ((s :: w).drop (sign (s :: w ++ b)) ++ b) := by
      refine hdigits _ b b' hb' ?_
      rw [List.length_drop]
      split_ifs at hle <;> omega
    rw [hdrop]

theorem exponent_eq_zero {t : Text} (h : ∀ c, t.head? = some (.char c) → c ≠ 'e' ∧ c ≠ 'E') :
    exponent t = 0 := by
  unfold exponent
  split
  · next c rest =>
    have := h c rfl
    simp [this.1, this.2]
  · rfl

theorem exponent_steady : Steady exponent := by
  intro w b b' hb' hle
  match w with
  | [] =>
    have hzero : exponent b = 0 := Nat.le_zero.mp hle
    rw [List.nil_append, List.nil_append, hzero]
    refine exponent_eq_zero fun c hc => ⟨?_, ?_⟩
    · rintro rfl
      exact hb'.head?_ne (by decide) hc
    · rintro rfl
      exact hb'.head?_ne (by decide) hc
  | .char c :: w =>
    simp only [List.cons_append, exponent_cons, List.length_cons] at hle ⊢
    by_cases hc : c = 'e' ∨ c = 'E'
    · rw [signedDigits_steady w b b' hb' (by split_ifs at hle <;> grind)]
    · rw [if_neg (fun h => hc h.1), if_neg (fun h => hc h.1)]
  | .stray _ :: w => rfl
  | .half _ :: w => rfl

/-- Scanners in a row are steady if each of them is. -/
theorem Steady.andThen {f g : Text → Nat} (hf : Steady f) (hg : Steady g) :
    Steady fun t => f t + g (t.drop (f t)) := by
  intro w b b' hb' hle
  simp only at hle ⊢
  have hfle : f (w ++ b) ≤ w.length := by omega
  rw [hf w b b' hb' hfle]
  rw [List.drop_append_of_le_length hfle] at hle ⊢
  rw [List.drop_append_of_le_length hfle]
  rw [hg _ b b' hb' (by rw [List.length_drop]; omega)]

theorem decimal_steady : Steady decimal :=
  ((run_steady fun _ => isDigitOrLine_of_isStop).andThen fraction_steady).andThen exponent_steady

theorem based_steady {p : Sym → Bool} (hp : ∀ s : Sym, s.isStop → p s = false) {w b b' : Text}
    (hw : 2 ≤ w.length) (hb' : b'.Stops) (hle : based p (w ++ b) ≤ w.length) :
    based p (w ++ b') = based p (w ++ b) := by
  have hrun : run p ((w ++ b').drop 2) = run p ((w ++ b).drop 2) := by
    rw [List.drop_append_of_le_length hw, List.drop_append_of_le_length hw]
    refine run_steady hp _ b b' hb' ?_
    rw [← List.drop_append_of_le_length hw, List.length_drop]
    unfold based at hle
    split at hle <;> omega
  unfold based at hle ⊢
  rw [hrun]
  split
  · next hzero =>
    rw [hzero] at hle
    exact decimal_steady w b b' hb' hle
  · rfl

/-- A number that begins with zero and another symbol is one with a base letter or a decimal. -/
theorem number_cons (c : Char) (t : Text) : number (.char '0' :: .char c :: t) =
    if c = 'x' ∨ c = 'X' then based isHex (.char '0' :: .char c :: t)
    else if c = 'b' ∨ c = 'B' then based isBinary (.char '0' :: .char c :: t)
    else if c = 'o' ∨ c = 'O' then based isOctal (.char '0' :: .char c :: t)
    else decimal (.char '0' :: .char c :: t) := by
  simp only [number, Bool.or_eq_true, decide_eq_true_eq]

theorem based_eq_decimal {p : Sym → Bool} {t : Text} (h : based p t ≤ 1) :
    based p t = decimal t := by
  unfold based at *
  split at h
  · rfl
  · omega

/-- A number of one symbol is a decimal numeral. -/
theorem number_eq_decimal {t : Text} (h : number t ≤ 1) : number t = decimal t := by
  unfold number at *
  split at h
  · split_ifs at h ⊢ <;> first | exact based_eq_decimal h | rfl
  · rfl

/-- A number that does not begin with zero and a base letter is a decimal numeral. -/
theorem number_of_head? {s : Sym} {t : Text}
    (h : s = .char '0' → ∀ c, t.head? = some (.char c) → c ∉ ['x', 'X', 'b', 'B', 'o', 'O']) :
    number (s :: t) = decimal (s :: t) := by
  unfold number
  split
  · next c rest heq =>
    cases heq
    have := h rfl c rfl
    simp_all
  · rfl

theorem number_steady {w b b' : Text} (hw : w ≠ []) (hb' : b'.Stops)
    (hle : number (w ++ b) ≤ w.length) : number (w ++ b') = number (w ++ b) := by
  match w with
  | [s] =>
    have hnumber : number ([s] ++ b') = decimal ([s] ++ b') := by
      refine number_of_head? fun _ c hc => ?_
      have hstop := hb' _ hc
      intro hmem
      fin_cases hmem <;> exact absurd hstop (by decide)
    have hdecimal : number ([s] ++ b) = decimal ([s] ++ b) := number_eq_decimal hle
    rw [hdecimal] at hle ⊢
    rw [hnumber]
    exact decimal_steady [s] b b' hb' hle
  | s :: d :: w =>
    by_cases hs : s = .char '0'
    · subst hs
      cases d with
      | char c =>
        have hlength : 2 ≤ (Sym.char '0' :: .char c :: w).length := by simp
        simp only [List.cons_append, number_cons] at hle ⊢
        split_ifs at hle ⊢
        · exact based_steady (fun _ => isHex_of_isStop) hlength hb' hle
        · exact based_steady (fun _ => isBinary_of_isStop) hlength hb' hle
        · exact based_steady (fun _ => isOctal_of_isStop) hlength hb' hle
        · exact decimal_steady (_ :: _ :: w) b b' hb' hle
      | stray _ => exact decimal_steady (_ :: _ :: w) b b' hb' hle
      | half _ => exact decimal_steady (_ :: _ :: w) b b' hb' hle
    · have hnumber (t : Text) : number (s :: t) = decimal (s :: t) :=
        number_of_head? fun h => absurd h hs
      simp only [List.cons_append, hnumber] at hle ⊢
      exact decimal_steady (s :: d :: w) b b' hb' hle

/-! ### Block comments -/

/-- The end of a block comment does not depend on what follows. -/
theorem commentEnd?_append {depth taken n : Nat} {t : Text} (h : commentEnd? depth taken t = some n)
    (b : Text) : commentEnd? depth taken (t ++ b) = some n := by
  fun_induction commentEnd? depth taken t with
  | case1 => cases h
  | case2 => cases h
  | case3 depth taken rest ih => simpa [commentEnd?] using ih h
  | case4 depth taken rest hdepth => simpa [commentEnd?, hdepth] using h
  | case5 depth taken rest hdepth ih => simpa [commentEnd?, hdepth] using ih h
  | case6 depth taken x s rest h1 h2 ih =>
    simp only [List.cons_append]
    rw [commentEnd?]
    · exact ih h
    · exact fun hx hs => by
        subst hs
        exact h1 hx rfl
    · exact fun hx hs => by
        subst hs
        exact h2 hx rfl

/-- A block comment that ends inside a text ends there whatever follows. -/
theorem commentEnd?_of_append {depth taken n : Nat} {t b : Text}
    (h : commentEnd? depth taken (t ++ b) = some n) (hn : n ≤ taken + t.length) :
    commentEnd? depth taken t = some n := by
  fun_induction commentEnd? depth taken t with
  | case1 depth taken =>
    have := commentEnd?_bounds h
    simp only [List.length_nil] at hn
    omega
  | case2 depth taken s =>
    have := commentEnd?_bounds h
    simp only [List.length_singleton] at hn
    omega
  | case3 depth taken rest ih =>
    refine ih (by simpa [commentEnd?] using h) ?_
    simp only [List.length_cons] at hn
    omega
  | case4 depth taken rest hdepth => simpa [commentEnd?, hdepth] using h
  | case5 depth taken rest hdepth ih =>
    refine ih (by simpa [commentEnd?, hdepth] using h) ?_
    simp only [List.length_cons] at hn
    omega
  | case6 depth taken x s rest h1 h2 ih =>
    refine ih ?_ (by simp only [List.length_cons] at hn ⊢; omega)
    simp only [List.cons_append] at h
    rw [commentEnd?] at h
    · exact h
    · exact fun hx hs => by
        subst hs
        exact h1 hx rfl
    · exact fun hx hs => by
        subst hs
        exact h2 hx rfl

/-! ### Strings -/

section Strings

variable {cur : Open} {outer : List Open} {taken : Nat}

theorem stringEnd?_quotes_of_parens (h : cur.parens ≠ 0) (t : Text) :
    stringEnd? cur outer taken (.char '"' :: .char '"' :: .char '"' :: t) =
      stringEnd? ⟨.triple, 0⟩ (cur :: outer) (taken + 3) t := by
  cases hquote : cur.quote <;> cases outer <;> simp [stringEnd?, hquote, h]

theorem stringEnd?_quote_of_parens (h : cur.parens ≠ 0) {t : Text}
    (ht : ∀ rest, t ≠ .char '"' :: .char '"' :: rest) :
    stringEnd? cur outer taken (.char '"' :: t) =
      stringEnd? ⟨.single, 0⟩ (cur :: outer) (taken + 1) t := by
  cases hquote : cur.quote <;> cases outer <;> simp [stringEnd?, hquote, h]

theorem stringEnd?_other {s : Sym} (hescape : s ≠ .char '\\') (hquote : s ≠ .char '"') (t : Text) :
    stringEnd? cur outer taken (s :: t) =
      if cur.parens = 0 then stringEnd? cur outer (taken + 1) t
      else if s.is '(' then stringEnd? { cur with parens := cur.parens + 1 } outer (taken + 1) t
      else if s.is ')' then stringEnd? { cur with parens := cur.parens - 1 } outer (taken + 1) t
      else stringEnd? cur outer (taken + 1) t := by
  rw [stringEnd?]
  all_goals simp_all

/-- A single quote ends a string that began with one, whatever follows. -/
theorem stringEnd?_quote_of_single (hparens : cur.parens = 0) (hquote : cur.quote = .single)
    (t : Text) : stringEnd? cur outer taken (.char '"' :: t) =
      match outer with
      | [] => some (taken + 1)
      | frame :: outer => stringEnd? frame outer (taken + 1) t := by
  by_cases ht : ∃ rest, t = .char '"' :: .char '"' :: rest
  · obtain ⟨rest, rfl⟩ := ht
    cases outer <;> simp [stringEnd?, hparens, hquote]
  · simp only [not_exists] at ht
    cases outer <;> simp [stringEnd?, hparens, hquote]
end Strings

/-- Two quotes do not come to stand at the start of a text because of what follows it. -/
theorem append_ne_quotes {t b : Text} (ht : ∀ rest, t ≠ .char '"' :: .char '"' :: rest)
    (hb : b.head? ≠ some (.char '"')) (rest : Text) : t ++ b ≠ .char '"' :: .char '"' :: rest := by
  intro h
  match t with
  | [] => simp_all
  | [s] => simp_all
  | s :: s' :: t =>
    simp only [List.cons_append, List.cons.injEq] at h
    exact ht t (by rw [h.1, h.2.1])

theorem length_le_of_append_eq_quotes {t b rest : Text}
    (ht : ∀ rest, t ≠ .char '"' :: .char '"' :: rest) (h : t ++ b = .char '"' :: .char '"' :: rest) : t.length ≤ 1 := by
  match t with
  | [] => simp
  | [s] => simp
  | s :: s' :: t =>
    simp only [List.cons_append, List.cons.injEq] at h
    exact absurd (by rw [h.1, h.2.1]) (ht t)

/-- The end of a string does not depend on what follows, unless that is a further quote. -/
theorem stringEnd?_append {cur : Open} {outer : List Open} {taken n : Nat} {t : Text}
    (h : stringEnd? cur outer taken t = some n) {b : Text} (hb : b.head? ≠ some (.char '"')) :
    stringEnd? cur outer taken (t ++ b) = some n := by
  fun_induction stringEnd? cur outer taken t with
  | case1 => cases h
  | case2 => cases h
  | case3 cur outer taken s rest hparens ih => simpa [stringEnd?, hparens] using ih h
  | case4 cur outer taken s rest hparens ih => simpa [stringEnd?, hparens] using ih h
  | case5 cur taken rest hparens hquote => simpa [stringEnd?, hparens, hquote] using h
  | case6 cur taken rest hparens frame outer hquote ih =>
    simpa [stringEnd?, hparens, hquote] using ih h
  | case7 cur taken rest hparens hquote => simpa [stringEnd?, hparens, hquote] using h
  | case8 cur taken rest hparens frame outer hquote ih =>
    simpa [stringEnd?, hparens, hquote] using ih h
  | case9 cur outer taken rest hparens ih =>
    simp only [List.cons_append]
    rw [stringEnd?_quotes_of_parens hparens]
    exact ih h
  | case10 cur outer taken rest hrest hparens hquote ih =>
    simpa [stringEnd?, hparens, hquote, append_ne_quotes hrest hb] using ih h
  | case11 cur taken rest hrest hparens hquote =>
    rw [List.cons_append, stringEnd?_quote_of_single hparens hquote]
    exact h
  | case12 cur taken rest hrest hparens frame outer hquote ih =>
    rw [List.cons_append, stringEnd?_quote_of_single hparens hquote]
    exact ih h
  | case13 cur outer taken rest hrest hparens ih =>
    rw [List.cons_append, stringEnd?_quote_of_parens hparens (append_ne_quotes hrest hb)]
    exact ih h
  | case14 cur outer taken s rest hnil hescape hquotes hquote hparens ih =>
    have hback : s ≠ .char '\\' := fun hs => by cases rest <;> simp_all
    rw [List.cons_append, stringEnd?_other hback hquote, if_pos hparens]
    exact ih h
  | case15 cur outer taken s rest hnil hescape hquotes hquote hparens hopen ih =>
    have hback : s ≠ .char '\\' := fun hs => by cases rest <;> simp_all
    rw [List.cons_append, stringEnd?_other hback hquote, if_neg hparens, if_pos hopen]
    exact ih h
  | case16 cur outer taken s rest hnil hescape hquotes hquote hparens hopen hclose ih =>
    have hback : s ≠ .char '\\' := fun hs => by cases rest <;> simp_all
    rw [List.cons_append, stringEnd?_other hback hquote, if_neg hparens, if_neg hopen,
      if_pos hclose]
    exact ih h
  | case17 cur outer taken s rest hnil hescape hquotes hquote hparens hopen hclose ih =>
    have hback : s ≠ .char '\\' := fun hs => by cases rest <;> simp_all
    rw [List.cons_append, stringEnd?_other hback hquote, if_neg hparens, if_neg hopen,
      if_neg hclose]
    exact ih h

/-- A string that ends inside a text ends there whatever follows. -/
theorem stringEnd?_of_append {cur : Open} {outer : List Open} {taken n : Nat} {t b : Text}
    (h : stringEnd? cur outer taken (t ++ b) = some n) (hn : n ≤ taken + t.length) :
    stringEnd? cur outer taken t = some n := by
  fun_induction stringEnd? cur outer taken t with
  | case1 cur outer taken =>
    have := stringEnd?_bounds h
    simp only [List.length_nil] at hn
    omega
  | case2 cur outer taken =>
    cases b with
    | nil => simp [stringEnd?] at h
    | cons s b =>
      simp only [List.singleton_append, stringEnd?] at h
      simp only [List.length_singleton] at hn
      split at h
      all_goals
        have := stringEnd?_bounds h
        omega
  | case3 cur outer taken s rest hparens ih =>
    simp only [List.cons_append, stringEnd?, hparens, if_pos] at h
    exact ih h (by simp only [List.length_cons] at hn; omega)
  | case4 cur outer taken s rest hparens ih =>
    simp only [List.cons_append, stringEnd?, if_neg hparens] at h
    exact ih h (by simp only [List.length_cons] at hn ⊢; omega)
  | case5 cur taken rest hparens hquote => simpa [stringEnd?, hparens, hquote] using h
  | case6 cur taken rest hparens frame outer hquote ih =>
    refine ih (by simpa [stringEnd?, hparens, hquote] using h) ?_
    simp only [List.length_cons] at hn
    omega
  | case7 cur taken rest hparens hquote => simpa [stringEnd?, hparens, hquote] using h
  | case8 cur taken rest hparens frame outer hquote ih =>
    refine ih (by simpa [stringEnd?, hparens, hquote] using h) ?_
    simp only [List.length_cons] at hn ⊢
    omega
  | case9 cur outer taken rest hparens ih =>
    simp only [List.cons_append] at h
    rw [stringEnd?_quotes_of_parens hparens] at h
    exact ih h (by simp only [List.length_cons] at hn; omega)
  | case10 cur outer taken rest hrest hparens hquote ih =>
    simp only [List.length_cons] at hn
    by_cases hquotes : ∃ r, rest ++ b = .char '"' :: .char '"' :: r
    · obtain ⟨r, hr⟩ := hquotes
      have hlength := length_le_of_append_eq_quotes hrest hr
      rw [List.cons_append, hr] at h
      cases outer with
      | nil =>
        simp [stringEnd?, hparens, hquote] at h
        omega
      | cons frame outer =>
        simp [stringEnd?, hparens, hquote] at h
        have := stringEnd?_bounds h
        omega
    · simp only [not_exists] at hquotes
      refine ih (by simpa [stringEnd?, hparens, hquote, hquotes] using h) (by omega)
  | case11 cur taken rest hrest hparens hquote =>
    rw [List.cons_append, stringEnd?_quote_of_single hparens hquote] at h
    exact h
  | case12 cur taken rest hrest hparens frame outer hquote ih =>
    rw [List.cons_append, stringEnd?_quote_of_single hparens hquote] at h
    exact ih h (by simp only [List.length_cons] at hn; omega)
  | case13 cur outer taken rest hrest hparens ih =>
    simp only [List.length_cons] at hn
    by_cases hquotes : ∃ r, rest ++ b = .char '"' :: .char '"' :: r
    · obtain ⟨r, hr⟩ := hquotes
      have hlength := length_le_of_append_eq_quotes hrest hr
      rw [List.cons_append, hr, stringEnd?_quotes_of_parens hparens] at h
      have := stringEnd?_bounds h
      omega
    · simp only [not_exists] at hquotes
      rw [List.cons_append, stringEnd?_quote_of_parens hparens hquotes] at h
      exact ih h (by omega)
  | case14 cur outer taken s rest hnil hescape hquotes hquote hparens ih =>
    have hback : s ≠ .char '\\' := fun hs => by cases rest <;> simp_all
    rw [List.cons_append, stringEnd?_other hback hquote, if_pos hparens] at h
    exact ih h (by simp only [List.length_cons] at hn; omega)
  | case15 cur outer taken s rest hnil hescape hquotes hquote hparens hopen ih =>
    have hback : s ≠ .char '\\' := fun hs => by cases rest <;> simp_all
    rw [List.cons_append, stringEnd?_other hback hquote, if_neg hparens, if_pos hopen] at h
    exact ih h (by simp only [List.length_cons] at hn; omega)
  | case16 cur outer taken s rest hnil hescape hquotes hquote hparens hopen hclose ih =>
    have hback : s ≠ .char '\\' := fun hs => by cases rest <;> simp_all
    rw [List.cons_append, stringEnd?_other hback hquote, if_neg hparens, if_neg hopen,
      if_pos hclose] at h
    exact ih h (by simp only [List.length_cons] at hn; omega)
  | case17 cur outer taken s rest hnil hescape hquotes hquote hparens hopen hclose ih =>
    have hback : s ≠ .char '\\' := fun hs => by cases rest <;> simp_all
    rw [List.cons_append, stringEnd?_other hback hquote, if_neg hparens, if_neg hopen,
      if_neg hclose] at h
    exact ih h (by simp only [List.length_cons] at hn; omega)
theorem opening_eq_single {t : Text} (ht : ∀ rest, t ≠ .char '"' :: .char '"' :: rest) :
    Quote.opening (.char '"' :: t) = .single := by
  unfold Quote.opening
  split
  · next rest h =>
    simp only [List.cons.injEq, true_and] at h
    exact absurd h (ht rest)
  · rfl

/-- A string that ends inside a text is the same when a text without a quote at its start
follows. -/
theorem string?_append {t b b' : Text} {n : Nat} (h : string? (.char '"' :: t ++ b) = some n)
    (hn : n ≤ t.length + 1) (hb' : b'.head? ≠ some (.char '"')) :
    string? (.char '"' :: t ++ b') = some n := by
  have hbounds := string?_bounds h
  unfold string? at *
  by_cases ht : ∃ rest, t = .char '"' :: .char '"' :: rest
  · obtain ⟨rest, rfl⟩ := ht
    have hopening (r : Text) :
        Quote.opening (.char '"' :: .char '"' :: .char '"' :: r) = .triple := rfl
    simp only [List.cons_append, hopening] at h ⊢
    simp only [List.length_cons] at hn
    exact stringEnd?_append (stringEnd?_of_append h (by simp only [Quote.length]; omega)) hb'
  · simp only [not_exists] at ht
    by_cases hquotes : ∃ r, t ++ b = .char '"' :: .char '"' :: r
    · obtain ⟨r, hr⟩ := hquotes
      have hlength := length_le_of_append_eq_quotes ht hr
      rw [List.cons_append, hr] at h
      have := stringEnd?_bounds h
      simp only [Quote.opening, Quote.length] at this
      omega
    · simp only [not_exists] at hquotes
      rw [List.cons_append, opening_eq_single hquotes] at h
      rw [List.cons_append, opening_eq_single (append_ne_quotes ht hb')]
      exact stringEnd?_append (stringEnd?_of_append h (by simp only [Quote.length]; omega)) hb'

end HouseStyle.Literal
