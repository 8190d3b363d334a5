import HouseStyle.Proofs.Edit.Repair

/-! A text with repairs in it is mended. The induction is on the repairs that are still to come; a
step goes from the lexeme at which the last one ended to the one at which the next one ends. -/

namespace HouseStyle

/-! ### Splicing -/

section

variable {text : Text} {c : Nat} {p : Proposal} {ps : List Proposal}

/-- What stands before the next fix stays. -/
theorem splice_append {u rest : Text} {d : Nat} (hd : c + u.length = d)
    (hdrop : text.drop c = u ++ rest) (h : ∀ p ∈ ps.head?, d ≤ p.span.start) :
    splice text c ps = u ++ splice text d ps := by
  have hrest : text.drop d = rest := by
    rw [← hd, ← List.drop_drop, hdrop, List.drop_left]
  cases ps with
  | nil => rw [splice, splice, hrest, hdrop]
  | cons p ps =>
    have hstart := h p rfl
    rw [splice, splice, hrest, hdrop, show p.span.start - c = u.length + (p.span.start - d) by omega,
      List.take_length_add_append, List.append_assoc, List.append_assoc, List.append_assoc]

/-- Up to a place before the next fix the text stays. -/
theorem splice_of_le {d : Nat} (hle : c ≤ d)
    (h : Ascending d text.length (ps.map Proposal.span)) :
    splice text c ps = (text.drop c).take (d - c) ++ splice text d ps := by
  refine splice_append ?_ (List.take_append_drop (d - c) (text.drop c)).symm fun p hp => ?_
  · have := h.cursor_le
    rw [List.length_take, List.length_drop]
    omega
  · cases ps with
    | nil => cases hp
    | cons q qs =>
      obtain rfl := Option.some.inj hp
      exact h.1

theorem splice_cons (hp : p.span.start = c) :
    splice text c (p :: ps) = p.fix.insertion ++ splice text p.span.stop ps := by
  rw [splice, hp, Nat.sub_self, List.take_zero, List.nil_append]

end

variable {ls : List Lexeme}

theorem between_getLast? {k m : Nat} {l : Lexeme} (hkm : k ≤ m)
    (hl : (between ls k (m + 1)).getLast? = some l) (hm : m < ls.length) : ls[m]? = some l := by
  rw [between, List.getLast?_take, if_neg (by omega)] at hl
  have hlast : (ls.drop k)[m + 1 - k - 1]? = some ls[m] := by
    rw [List.getElem?_drop, show k + (m + 1 - k - 1) = m by omega, List.getElem?_eq_getElem hm]
  rw [hlast, Option.some_or] at hl
  rw [List.getElem?_eq_getElem hm, hl]

theorem between_append_drop {k i : Nat} (h : k ≤ i) : between ls k i ++ ls.drop i = ls.drop k := by
  rw [between, show ls.drop i = (ls.drop k).drop (i - k) by
    rw [List.drop_drop, Nat.add_sub_cancel' h], List.take_append_drop]

/-! ### One repair -/

section

variable {lone : Prop} {t : Text} {i j k : Nat}

/-- What stands before a mended text stays, if its last lexeme can stand before it. -/
theorem Mended.prepend (h : Mended lone (ls.drop i) t) (hki : k ≤ i) (hi : i ≤ ls.length)
    (hseam : ∀ m l, i = m + 1 → k ≤ m → ls[m]? = some l → Seam l (joined (ls.drop i)) t) :
    Mended lone (ls.drop k) (joined (between ls k i) ++ t) := by
  rw [← between_append_drop hki]
  refine .stretch _ (fun l hl => ?_) h
  rcases Nat.lt_or_eq_of_le hki with hlt | rfl
  · obtain ⟨m, rfl⟩ := Nat.exists_eq_add_one_of_ne_zero (Nat.ne_zero_of_lt hlt)
    exact hseam m l rfl (by omega) (between_getLast? (by omega) hl (by omega))
  · simp [between] at hl

/-- The last lexeme of a statement can stand before a stop that is no slash. -/
theorem Closes.seam (h : Closes ls i) (hls : IsLexed ls) (ht : t.Stops)
    (hslash : t.head? ≠ some (.char '/')) {m : Nat} {l : Lexeme} (hm : i + 1 = m + 1)
    (hl : ls[m]? = some l) : Seam l (joined (ls.drop (i + 1))) t := by
  obtain rfl : i = m := by omega
  obtain ⟨l', hl', htrivia, hclosed⟩ := h.code
  obtain rfl : l = l' := Option.some.inj (hl.symm.trans hl')
  exact seam_of_stops (h.stops hls) (isLineComment_of_not_isTrivia htrivia) hclosed ht
    fun _ hhead => absurd hhead hslash

/-- What stands before a header can stand before a stop that is no slash. -/
theorem Opens.seam (h : Opens ls i) (hls : IsLexed ls) (ht : t.Stops)
    (hslash : t.head? ≠ some (.char '/')) {m : Nat} {l : Lexeme} (hm : i = m + 1)
    (hl : ls[m]? = some l) : Seam l (joined (ls.drop i)) t := by
  obtain ⟨l', hl', htrivia⟩ := h.code
  have hlexed := hls.drop m
  rw [drop_cons hl, ← hm] at hlexed
  refine seam_of_not_punctuation hlexed (h.before m l hm hl) ⟨l', ?_, htrivia⟩ ht hslash
  rw [List.head?_drop, hl']

theorem mended_finish (hls : IsLexed ls) (hi : Closes ls i) (hk : k ≤ i + 1)
    (h : Mended lone (ls.drop (i + 1)) t) :
    Mended lone (ls.drop k) (joined (between ls k (i + 1)) ++ ([.char ';'] ++ t)) := by
  have hinsert : Mended lone (ls.drop (i + 1)) (.char ';' :: t) := .insert (by simp) h
  exact hinsert.prepend hk hi.lt fun m l hm _ hl =>
    hi.seam hls (.cons (by decide) t) (by simp) hm hl

theorem mended_raise (hls : IsLexed ls) (hi : Closes ls i) (hij : i < j) (hk : k ≤ i + 1)
    (hquiet : ∀ l ∈ between ls (i + 1) j, l.isTrivia)
    (hlone : lone → ∀ s ∈ joined (between ls (i + 1) j), s.isBreak = false)
    (h : Mended lone (ls.drop j) t) :
    Mended lone (ls.drop k) (joined (between ls k (i + 1)) ++ ([.char ' '] ++ t)) := by
  have hspace : Mended lone (ls.drop (i + 1)) ([.char ' '] ++ t) := by
    rw [← between_append_drop (i := j) hij]
    refine .respace _ _ hquiet ?_ hlone h
    intro s hs
    rw [List.mem_singleton.mp hs]
    decide
  exact hspace.prepend hk hi.lt fun m l hm _ hl =>
    hi.seam hls (.cons (by decide) t) (by simp) hm hl

theorem mended_wrap (hls : IsLexed ls) (hi : Opens ls i) (hj : Closes ls j) (hij : i ≤ j)
    (hk : k ≤ i) (h : Mended lone (ls.drop (j + 1)) t) :
    Mended lone (ls.drop k) (joined (between ls k i) ++
      (.char '(' :: joined (between ls i (j + 1)) ++ [.char ')'] ++ t)) := by
  have hright : Mended lone (ls.drop (j + 1)) (.char ')' :: t) := .insert (by simp) h
  have hinner : Mended lone (ls.drop i) (joined (between ls i (j + 1)) ++ .char ')' :: t) :=
    hright.prepend (by omega) hj.lt fun m l hm _ hl =>
      hj.seam hls (.cons (by decide) t) (by simp) hm hl
  have hleft : Mended lone (ls.drop i)
      (.char '(' :: joined (between ls i (j + 1)) ++ [.char ')'] ++ t) := by
    have := Mended.insert (c := '(') (by simp) hinner
    simpa using this
  exact hleft.prepend hk hi.lt.le fun m l hm _ hl =>
    hi.seam hls (.cons (by decide) _) (by simp) hm hl

/-- Blanks in front change nothing. -/
theorem Mended.blanks {us : List Lexeme} {w : Text} (h : Mended lone us t)
    (hw : w = [.char ' '] ∨ w = []) : Mended lone us (w ++ t) := by
  refine .respace [] w (by simp) ?_ (by simp) h
  rcases hw with rfl | rfl
  · intro s hs
    rw [List.mem_singleton.mp hs]
    decide
  · simp

/-- White space goes. -/
theorem Mended.drop_spaces {bs us : List Lexeme} (h : Mended lone us t) (hbs : ∀ l ∈ bs, l.isSpace)
    (hlone : lone → ∀ s ∈ joined bs, s.isBreak = false) : Mended lone (bs ++ us) t :=
  .respace bs [] (fun l hl => isTrivia_of_isSpace (hbs l hl)) (by simp) hlone h

theorem between_succ {m : Nat} {l : Lexeme} (hkm : k ≤ m) (hl : ls[m]? = some l) :
    between ls k (m + 1) = between ls k m ++ [l] := by
  have hlast : (ls.drop k)[m - k]? = some l := by
    rw [List.getElem?_drop, Nat.add_sub_cancel' hkm, hl]
  rw [between, Nat.succ_sub hkm, List.take_add_one, hlast]
  rfl

theorem between_cons {m : Nat} {l : Lexeme} (hkm : k < m) (hl : ls[k]? = some l) :
    between ls k m = l :: between ls (k + 1) m := by
  obtain ⟨n, rfl⟩ := Nat.exists_eq_add_of_lt hkm
  rw [between, between, drop_cons hl,
    show k + n + 1 - k = (k + n + 1 - (k + 1)) + 1 by omega, List.take_succ_cons]

/-- White space or a comment right before a parenthesis that goes may come before any text. -/
theorem Mended.prepend_of_trivia (h : Mended lone (ls.drop i) t) (hls : IsLexed ls) (hi : Opens ls i)
    (hki : k ≤ i) (hbefore : ∀ m l, i = m + 1 → ls[m]? = some l → l.isTrivia) :
    Mended lone (ls.drop k) (joined (between ls k i) ++ t) := by
  rcases Nat.lt_or_eq_of_le hki with hlt | rfl
  · obtain ⟨m, rfl⟩ := Nat.exists_eq_add_one_of_ne_zero (Nat.ne_zero_of_lt hlt)
    have hm : m < ls.length := by
      have := hi.lt
      omega
    have hl := List.getElem?_eq_getElem hm
    have htrivia := hbefore m _ rfl hl
    obtain ⟨l', hl', hcode⟩ := hi.code
    have hlexed := hls.drop m
    rw [drop_cons hl, drop_cons hl'] at hlexed
    have htrail : Mended lone (ls.drop m) (ls[m].text ++ t) := by
      rw [drop_cons hl]
      refine .trail _ ?_ (fun hline => ?_) (fun hended => ?_) h
      · cases hk : ls[m].kind <;>
          simp_all [Lexeme.isTrivia, TokenKind.isTrivia, Cut.isOpenEnded]
      · rw [hlexed.isTrivia_of_line hline] at hcode
        cases hcode
      · rw [hlexed.closed_of_ne_nil (by simp [hlexed.cons.2.2.cons.1])] at hended
        cases hended
    rw [between_succ (by omega) hl, joined_append, List.append_assoc]
    have hsingle : joined [ls[m]] = ls[m].text := by simp
    rw [hsingle]
    refine htrail.prepend (by omega) hm.le fun n l hn _ hln => ?_
    have hlexed' := hls.drop n
    rw [drop_cons hln, ← hn] at hlexed'
    refine seam_of_head? hlexed' ⟨_, by rw [List.head?_drop, hl], htrivia⟩ ?_
    rw [drop_cons hl, joined_cons, List.head?_append_of_ne_nil _ hlexed.cons.1,
      List.head?_append_of_ne_nil _ hlexed.cons.1]
  · simpa [between] using h

theorem not_isBreak_of_countP {w : Text} (h : w.countP Sym.isBreak = 0) :
    ∀ s ∈ w, s.isBreak = false := by
  intro s hs
  simpa using List.countP_eq_zero.mp h s hs

/-- The inside of a group without the white space around it. -/
theorem mended_inside (hls : IsLexed ls) (hij : i ≤ j)
    (hclose : ∃ l, ls[j]? = some l ∧ l.isMark ')')
    (hline : ∀ l ∈ ((between ls i j).filter fun l => !l.isSpace).getLast?,
      l.isLineComment = false)
    (hslash : ∀ l ∈ ((between ls i j).filter fun l => !l.isSpace).getLast?,
      l.text = [.char '/'] → t.head? ≠ some (.char '/'))
    (hlone : lone → (joined (between ls i j)).countP Sym.isBreak ≤
      (Text.strip (joined (between ls i j))).countP Sym.isBreak)
    (ht : t.Stops) (h : Mended lone (ls.drop j) t) :
    Mended lone (ls.drop i) (Text.strip (joined (between ls i j)) ++ t) := by
  obtain ⟨closer, hcloser, hmark⟩ := hclose
  have hlexed : IsLexed (between ls i j ++ ls.drop j) := by
    rw [between_append_drop hij]
    exact hls.drop i
  have hstop : (joined (ls.drop j)).Stops := by
    simp only [Lexeme.isMark, Lexeme.isPunct, Bool.and_eq_true, decide_eq_true_eq] at hmark
    rw [drop_cons hcloser, joined_cons, hmark.2]
    exact .cons (by decide) _
  have hne : joined (ls.drop j) ≠ [] := by
    rw [drop_cons hcloser]
    simp [hls.text_ne_nil hcloser]
  have hclosed {us vs : List Lexeme} {l : Lexeme} (h : IsLexed (us ++ l :: (vs ++ ls.drop j))) :
      l.unterminated = false :=
    h.append_right.closed_of_ne_nil (by simp [hne])
  obtain ⟨lead, core, trail, hxs, hlead, htrail, -, hlast, hstrip⟩ := hlexed.exists_core
    fun l hl => by
      refine ⟨hline l hl, ?_⟩
      have hmem := List.mem_of_getLast? hl
      obtain ⟨us, vs, hsplit⟩ := List.append_of_mem (List.mem_filter.mp hmem).1
      rw [hsplit, List.append_assoc, List.cons_append] at hlexed
      exact hclosed hlexed
  rw [← between_append_drop hij, hstrip, hxs]
  rw [hxs] at hlexed hstrip hlone
  rw [hstrip] at hlone
  simp only [joined_append, List.countP_append] at hlone
  have htail : Mended lone (trail ++ ls.drop j) t :=
    h.drop_spaces htrail fun hl => not_isBreak_of_countP (by have := hlone hl; omega)
  have hcore : Mended lone (core ++ (trail ++ ls.drop j)) (joined core ++ t) := by
    refine .stretch core (fun l hl => ?_) htail
    obtain ⟨us, hus⟩ := List.getLast?_eq_some_iff.mp hl
    rw [hlast] at hl
    have hold : (joined (trail ++ ls.drop j)).Stops := by
      cases trail with
      | nil => exact hstop
      | cons l' trail =>
        have hl' : IsLexed (l' :: trail ++ ls.drop j) := by
          rw [List.append_assoc, List.append_assoc] at hlexed
          exact hlexed.append_right.append_right
        exact hl'.stops_of_isTrivia (isTrivia_of_isSpace (htrail l' (by simp)))
    refine seam_of_stops hold ?_ ?_ ht ?_
    · exact hline l hl
    · rw [hus] at hlexed
      simp only [List.append_assoc, List.singleton_append] at hlexed
      rw [← List.append_assoc] at hlexed
      exact hclosed hlexed
    · exact fun hl' hhead => absurd hhead (hslash l hl hl')
  have := hcore.drop_spaces hlead fun hl => not_isBreak_of_countP (by have := hlone hl; omega)
  simpa using this

theorem mended_unwrap {before after : Text} (hls : IsLexed ls) (hi : Opens ls i) (hij : i < j)
    (hopen : ∃ l, ls[i]? = some l ∧ l.isMark '(') (hclose : ∃ l, ls[j]? = some l ∧ l.isMark ')')
    (hbefore : before = [.char ' '] ∨
      before = [] ∧ ∀ k l, i = k + 1 → ls[k]? = some l → l.isTrivia)
    (hafter : after = [.char ' '] ∨ after = [])
    (hline : ∀ l ∈ ((between ls (i + 1) j).filter fun l => !l.isSpace).getLast?,
      l.isLineComment = false)
    (hslash : ∀ l ∈ ((between ls (i + 1) j).filter fun l => !l.isSpace).getLast?,
      l.text = [.char '/'] → (joined (ls.drop (j + 1))).head? ≠ some (.char '/'))
    (hlone : lone → (joined (between ls i (j + 1))).countP Sym.isBreak ≤
      (before ++ Text.strip (joined (between ls (i + 1) j)) ++ after).countP Sym.isBreak)
    (ht : t.Stops) (hhead : t.head? = some (.char '/') →
      (joined (ls.drop (j + 1))).head? = some (.char '/'))
    (hk : k ≤ i) (h : Mended lone (ls.drop (j + 1)) t) :
    Mended lone (ls.drop k) (joined (between ls k i) ++
      (before ++ Text.strip (joined (between ls (i + 1) j)) ++ after ++ t)) := by
  obtain ⟨opener, hopener, hmark⟩ := hopen
  obtain ⟨closer, hcloser, hmark'⟩ := id hclose
  have hblank {w : Text} (hw : w = [.char ' '] ∨ w = []) : w.countP Sym.isBreak = 0 := by
    rcases hw with rfl | rfl <;> rfl
  have hbefore' : before = [.char ' '] ∨ before = [] := hbefore.imp_right And.left
  have htail : Mended lone (ls.drop j) (after ++ t) := by
    rw [drop_cons hcloser]
    exact .remove (by simp [Lexeme.isLoose, hmark']) (h.blanks hafter)
  have hinside : Mended lone (ls.drop (i + 1))
      (Text.strip (joined (between ls (i + 1) j)) ++ (after ++ t)) := by
    refine mended_inside hls hij hclose hline (fun l hl htext => ?_) (fun hl => ?_) ?_ htail
    · rcases hafter with rfl | rfl
      · simp
      · exact fun hslash' => hslash l hl htext (hhead hslash')
    · have := hlone hl
      rw [List.countP_append, List.countP_append, hblank hbefore', hblank hafter, Nat.zero_add,
        Nat.add_zero] at this
      refine le_trans ?_ this
      rw [between_succ (by omega) hcloser, between_cons hij hopener, joined_append, joined_cons,
        List.countP_append, List.countP_append]
      omega
    · rcases hafter with rfl | rfl
      · exact .cons (by decide) t
      · exact ht
  have hopened : Mended lone (ls.drop i)
      (Text.strip (joined (between ls (i + 1) j)) ++ (after ++ t)) := by
    rw [drop_cons hopener]
    exact .remove (by simp [Lexeme.isLoose, hmark]) hinside
  rw [List.append_assoc, List.append_assoc]
  rcases hbefore with rfl | ⟨rfl, hbefore⟩
  · exact (hopened.blanks (.inl rfl)).prepend hk hi.lt.le fun m l hm _ hl =>
      hi.seam hls (.cons (by decide) _) (by simp) hm hl
  · exact hopened.prepend_of_trivia hls hi hk hbefore

end

/-! ### Words of a comment -/

theorem Reworded.append_left {t t' : Text} (u : Text) (h : Reworded t t') :
    Reworded (u ++ t) (u ++ t') := by
  induction u with
  | nil => exact h
  | cons s u ih => exact ih.keep s

section

variable {ps : List Proposal} {i k : Nat} {l : Lexeme} {a b : Sym} {x : Text}

/-- A repair that starts in a comment, behind its first two symbols, rewords it. -/
theorem Repair.of_start_in_comment {fix : Fix} (h : Repair ls fix) (hi : ls[i]? = some l)
    (hl : l.text = a :: b :: x) (hle : offset ls i + 2 ≤ fix.span.start)
    (hlt : fix.span.start < offset ls (i + 1)) :
    ∃ u w v w', x = u ++ w ++ v ∧ w ≠ [] ∧ w' ≠ [] ∧ (∀ s ∈ w, s.isInert) ∧
      (∀ s ∈ w', s.isInert) ∧ fix.span.start = offset ls i + 2 + u.length ∧
      fix.span.stop = offset ls i + 2 + u.length + w.length ∧ fix.insertion = w' := by
  -- No offset of a lexeme lies strictly inside another one.
  have hnone {m : Nat} (hm : fix.span.start = offset ls m) : False := by
    rcases Nat.lt_or_ge i m with hlt' | hge
    · have : offset ls (i + 1) ≤ offset ls m := offset_le_offset ls hlt'
      omega
    · have := offset_le_offset ls hge
      omega
  cases h with
  | finish m hm hstart => exact (hnone hstart).elim
  | raise m j hm hmj hj hquiet hstart => exact (hnone hstart).elim
  | wrap m j hm hj hmj hstart => exact (hnone hstart).elim
  | unwrap m j before after hm hj hmj hpos hopen hclose hbefore hafter hline hslash hstart =>
    exact (hnone hstart).elim
  | @reword m l' a' b' u w v w' hm hkind hl' hw hw' hinert hinert' hstart hstop hnew =>
    have hsucc := offset_succ hm
    rw [hl'] at hsucc
    simp only [List.length_cons, List.length_append] at hsucc
    have hpos := List.length_pos_of_ne_nil hw
    obtain rfl : i = m := by
      rcases Nat.lt_trichotomy i m with hlt' | heq | hlt'
      · have : offset ls (i + 1) ≤ offset ls m := offset_le_offset ls hlt'
        omega
      · exact heq
      · have : offset ls (m + 1) ≤ offset ls i := offset_le_offset ls hlt'
        omega
    obtain rfl : l = l' := Option.some.inj (hi.symm.trans hm)
    rw [hl] at hl'
    simp only [List.cons.injEq] at hl'
    exact ⟨u, w, v, w', hl'.2.2, hw, hw', hinert, hinert', hstart, hstop, hnew⟩

/-- Repairs from a place inside a comment on reword the rest of it and go on behind it. -/
theorem exists_reworded (hi : ls[i]? = some l) (hl : l.text = a :: b :: x)
    (hrepair : ∀ p ∈ ps, Repair ls p.fix) {n : Nat} (hn : n ≤ x.length)
    (h : Ascending (offset ls i + 2 + n) (joined ls).length (ps.map Proposal.span)) :
    ∃ x' rest, rest <:+ ps ∧
      Ascending (offset ls (i + 1)) (joined ls).length (rest.map Proposal.span) ∧
      Reworded (x.drop n) x' ∧
      splice (joined ls) (offset ls i + 2 + n) ps =
        x' ++ splice (joined ls) (offset ls (i + 1)) rest := by
  have hsucc : offset ls (i + 1) = offset ls i + 2 + x.length := by
    rw [offset_succ hi, hl]
    simp only [List.length_cons]
    omega
  have hdrop (m : Nat) (hm : m ≤ x.length) : (joined ls).drop (offset ls i + 2 + m) =
      x.drop m ++ joined (ls.drop (i + 1)) := by
    rw [show offset ls i + 2 + m = offset ls i + (m + 1 + 1) by omega, ← List.drop_drop,
      drop_offset, drop_cons hi, joined_cons, hl, List.cons_append, List.cons_append,
      List.drop_succ_cons, List.drop_succ_cons, List.drop_append_of_le_length hm]
  induction ps generalizing n with
  | nil =>
    refine ⟨x.drop n, [], List.suffix_refl _, ?_, .refl _, ?_⟩
    · exact offset_le_length ls (i + 1)
    · rw [splice, splice, hdrop n hn, drop_offset]
  | cons p ps ih =>
    obtain ⟨hstart, hrest⟩ := h
    by_cases hlt : p.span.start < offset ls (i + 1)
    · obtain ⟨u, w, v, w', rfl, hw, hw', hinert, hinert', hu, hstop, hnew⟩ :=
        (hrepair p (by simp)).of_start_in_comment hi hl (by
          change offset ls i + 2 ≤ p.span.start
          omega) hlt
      have hu' : p.span.start = offset ls i + 2 + u.length := hu
      have hstop' : p.span.stop = offset ls i + 2 + (u.length + w.length) := by
        rw [← Nat.add_assoc]
        exact hstop
      have hle : u.length + w.length ≤ (u ++ w ++ v).length := by
        simp only [List.length_append]
        omega
      rw [hstop'] at hrest
      obtain ⟨x', rest, hsuffix, hasc, hreworded, hsplice⟩ :=
        ih (fun q hq => hrepair q (by simp [hq])) hle hrest
      have hv : (u ++ w ++ v).drop (u.length + w.length) = v := by
        rw [← List.length_append]
        exact List.drop_left
      rw [hv] at hreworded
      have hn' : n ≤ u.length := by omega
      refine ⟨u.drop n ++ (w' ++ x'), rest, hsuffix.trans (List.suffix_cons p ps), hasc, ?_, ?_⟩
      · rw [List.append_assoc, List.drop_append_of_le_length hn']
        exact (Reworded.word hw hw' hinert hinert' hreworded).append_left _
      · rw [splice, hstop', hsplice, hnew, hu', hdrop n hn, List.append_assoc, List.append_assoc,
          List.drop_append_of_le_length hn', List.append_assoc,
          show offset ls i + 2 + u.length - (offset ls i + 2 + n) = (u.drop n).length by
            rw [List.length_drop]
            omega,
          List.take_left, List.append_assoc, List.append_assoc]
    · have hasc : Ascending (offset ls (i + 1)) (joined ls).length ((p :: ps).map Proposal.span) :=
        ⟨by omega, hrest⟩
      refine ⟨x.drop n, p :: ps, List.suffix_refl _, hasc, .refl _, ?_⟩
      rw [splice_of_le (d := offset ls (i + 1)) (by omega) hasc, hdrop n hn, hsucc]
      congr 1
      rw [show offset ls i + 2 + x.length - (offset ls i + 2 + n) = (x.drop n).length by
        rw [List.length_drop]
        omega, List.take_left]

/-! ### All repairs -/

/-- What a repair that starts where a lexeme does begins with. -/
theorem Repair.of_start {fix : Fix} (h : Repair ls fix) (hls : IsLexed ls) {m : Nat}
    (hm : m ≤ ls.length) (hstart : fix.span.start = offset ls m) :
    (∃ i, m = i + 1 ∧ Closes ls i ∧
      (fix.insertion.head? = some (.char ';') ∨ fix.insertion.head? = some (.char ' '))) ∨
    Opens ls m ∧ (fix.insertion.head? = some (.char '(') ∨ ∃ l, ls[m]? = some l ∧ l.isMark '(') := by
  have heq {n : Nat} (hn : n ≤ ls.length) (hs : fix.span.start = offset ls n) : m = n :=
    hls.offset_inj hm hn (hstart.symm.trans hs)
  cases h with
  | finish i hi hs hstop hnew =>
    exact .inl ⟨i, heq hi.lt hs, hi, .inl (by rw [hnew]; rfl)⟩
  | raise i j hi hij hj hquiet hs hstop hnew =>
    exact .inl ⟨i, heq hi.lt hs, hi, .inr (by rw [hnew]; rfl)⟩
  | wrap i j hi hj hij hs hstop hnew =>
    obtain rfl := heq hi.lt.le hs
    exact .inr ⟨hi, .inl (by rw [hnew]; rfl)⟩
  | unwrap i j before after hi hj hij hpos hopen hclose hbefore hafter hline hslash hs =>
    obtain rfl := heq hi.lt.le hs
    exact .inr ⟨hi, .inr hopen⟩
  | @reword i l a b u w v w' hi hkind hl hw hw' hinert hinert' hs =>
    -- It starts strictly inside a comment.
    have hsucc := offset_succ hi
    rw [hl] at hsucc
    simp only [List.length_cons, List.length_append] at hsucc
    have hpos := List.length_pos_of_ne_nil hw
    rcases Nat.lt_or_ge i m with hlt | hge
    · have : offset ls (i + 1) ≤ offset ls m := offset_le_offset ls hlt
      omega
    · have := offset_le_offset ls hge
      omega

/-- What a text with repairs begins with, from a lexeme on: with what it began with before or with
the repair that starts there. -/
theorem splice_head? (hls : IsLexed ls) (hrepair : ∀ p ∈ ps, Repair ls p.fix) {m : Nat}
    (hm : m ≤ ls.length) (h : Ascending (offset ls m) (joined ls).length (ps.map Proposal.span)) :
    (splice (joined ls) (offset ls m) ps).head? = (joined (ls.drop m)).head? ∨
    (∃ i, m = i + 1 ∧ Closes ls i ∧
      ((splice (joined ls) (offset ls m) ps).head? = some (.char ';') ∨
        (splice (joined ls) (offset ls m) ps).head? = some (.char ' '))) ∨
    Opens ls m ∧ ((splice (joined ls) (offset ls m) ps).head? = some (.char '(') ∨
      ∃ l, ls[m]? = some l ∧ l.isMark '(') := by
  cases ps with
  | nil =>
    left
    rw [splice, drop_offset]
  | cons p ps =>
    rcases Nat.lt_or_eq_of_le h.1 with hlt | heq
    · left
      have hsize := h.2.cursor_le
      have hle := p.span.start_le_stop
      have hne : ((joined ls).drop (offset ls m)).take (p.span.start - offset ls m) ≠ [] := by
        rw [← List.length_pos_iff, List.length_take, List.length_drop]
        omega
      rw [splice, List.append_assoc, List.head?_append_of_ne_nil _ hne, ← drop_offset,
        List.head?_take, if_neg (by omega)]
    · right
      have hhead {c : Char} (hc : p.fix.insertion.head? = some (.char c)) :
          (splice (joined ls) (offset ls m) (p :: ps)).head? = some (.char c) := by
        rw [splice_cons heq.symm, List.head?_append, hc]
        rfl
      rcases (hrepair p (by simp)).of_start hls hm heq.symm with
        ⟨i, hi, hcloses, hc⟩ | ⟨hopens, hc⟩
      · exact .inl ⟨i, hi, hcloses, hc.imp hhead hhead⟩
      · exact .inr ⟨hopens, hc.imp_left hhead⟩

/-- Behind the last lexeme of a statement a text with repairs stops, and it begins with a slash only
if it did before. -/
theorem Closes.splice_stops {j : Nat} (hj : Closes ls j) (hls : IsLexed ls)
    (hrepair : ∀ p ∈ ps, Repair ls p.fix)
    (h : Ascending (offset ls (j + 1)) (joined ls).length (ps.map Proposal.span)) :
    (splice (joined ls) (offset ls (j + 1)) ps).Stops ∧
      ((splice (joined ls) (offset ls (j + 1)) ps).head? = some (.char '/') →
        (joined (ls.drop (j + 1))).head? = some (.char '/')) := by
  have hmark {c : Char} (hc : (splice (joined ls) (offset ls (j + 1)) ps).head? = some (.char c))
      (hstop : (Sym.char c).isStop) (hne : c ≠ '/') :
      (splice (joined ls) (offset ls (j + 1)) ps).Stops ∧
        ((splice (joined ls) (offset ls (j + 1)) ps).head? = some (.char '/') →
          (joined (ls.drop (j + 1))).head? = some (.char '/')) := by
    rw [Text.Stops, hc]
    refine ⟨fun s hs => ?_, fun hs => ?_⟩
    · rwa [← Option.some.inj hs]
    · exact absurd (Sym.char.inj (Option.some.inj hs)) hne
  rcases splice_head? hls hrepair hj.lt h with
    heq | ⟨i, -, -, hc | hc⟩ | ⟨hopens, hc | ⟨l, hl, hopen⟩⟩
  · rw [Text.Stops, heq]
    exact ⟨hj.stops hls, id⟩
  · exact hmark hc (by decide) (by decide)
  · exact hmark hc (by decide) (by decide)
  · exact hmark hc (by decide) (by decide)
  · -- No parenthesis stands there.
    simp only [Lexeme.isMark, Lexeme.isPunct, Bool.and_eq_true, decide_eq_true_eq] at hopen
    rcases hj.behind l hl with htrivia | ⟨c, hc, hclose⟩
    · simp [Lexeme.isTrivia, TokenKind.isTrivia, hopen.1] at htrivia
    · simp only [Lexeme.isMark, Lexeme.isPunct, hopen.2, Bool.and_eq_true, decide_eq_true_eq] at hclose
      fin_cases hc <;> simp at hclose

/-- Behind a comment that runs to the end of its line, or lacks its end, a text with repairs begins
as it did before. -/
theorem splice_head?_of_comment {i : Nat} {l : Lexeme} (hls : IsLexed ls) (hi : ls[i]? = some l)
    (hkind : l.kind = .comment) (hend : l.isLineComment ∨ l.unterminated)
    (hrepair : ∀ p ∈ ps, Repair ls p.fix)
    (h : Ascending (offset ls (i + 1)) (joined ls).length (ps.map Proposal.span)) :
    (splice (joined ls) (offset ls (i + 1)) ps).head? = (joined (ls.drop (i + 1))).head? := by
  have hlt := (List.getElem?_eq_some_iff.mp hi).1
  have hlexed := hls.drop i
  rw [drop_cons hi] at hlexed
  rcases splice_head? hls hrepair hlt h with heq | ⟨j, hj, hcloses, -⟩ | ⟨hopens, -⟩
  · exact heq
  · obtain rfl : i = j := by omega
    obtain ⟨l', hl', htrivia, -⟩ := hcloses.code
    obtain rfl : l = l' := Option.some.inj (hi.symm.trans hl')
    simp [Lexeme.isTrivia, TokenKind.isTrivia, hkind] at htrivia
  · obtain ⟨l', hl', htrivia⟩ := hopens.code
    rw [drop_cons hl'] at hlexed
    rcases hend with hline | hended
    · rw [hlexed.isTrivia_of_line hline] at htrivia
      cases htrivia
    · have := hlexed.nil_of_unterminated hended
      simp [hlexed.cons.2.2.cons.1] at this

theorem mended_reword {lone : Prop} {t x' : Text} (hls : IsLexed ls) (hi : ls[i]? = some l)
    (hkind : l.kind = .comment) (hl : l.text = a :: b :: x) (hx : Reworded x x') (hk : k ≤ i)
    (hhead : l.isLineComment ∨ l.unterminated → t.head? = (joined (ls.drop (i + 1))).head?)
    (h : Mended lone (ls.drop (i + 1)) t) :
    Mended lone (ls.drop k) (joined (between ls k i) ++ ([a, b] ++ (x' ++ t))) := by
  have hlexed := hls.drop i
  rw [drop_cons hi] at hlexed
  have htrivia : l.isTrivia := by simp [Lexeme.isTrivia, TokenKind.isTrivia, hkind]
  have hreword : Mended lone (ls.drop i) ([a, b] ++ (x' ++ t)) := by
    rw [drop_cons hi]
    have hline (hline : l.isLineComment) : ∀ s ∈ t.head?, s.isBreak := by
      rw [hhead (.inl hline)]
      exact hlexed.head?_of_line hline
    have hended (hended : l.unterminated) : t = [] := by
      rw [hlexed.nil_of_unterminated hended] at hhead
      exact List.head?_eq_none_iff.mp (hhead (.inr hended))
    have hreword : Mended lone (l :: ls.drop (i + 1)) (a :: b :: x' ++ t) :=
      .reword hkind hl hx hline hended h
    exact hreword
  refine hreword.prepend hk (List.getElem?_eq_some_iff.mp hi).1.le fun m l' hm _ hl' => ?_
  have hlexed' := hls.drop m
  rw [drop_cons hl', ← hm] at hlexed'
  refine seam_of_head? hlexed' ⟨l, by rw [List.head?_drop, hi], htrivia⟩ ?_
  rw [drop_cons hi, joined_cons, hl]
  rfl

/-- A text with repairs in it is mended. Where a grave accent stands alone, no repair may take a
line break out. -/
theorem mended_of_repairs {lone : Prop} (hls : IsLexed ls) (hrepair : ∀ p ∈ ps, Repair ls p.fix)
    (hbreaks : lone → ∀ p ∈ ps, (p.span.slice (joined ls)).countP Sym.isBreak ≤
      p.fix.insertion.countP Sym.isBreak)
    {k : Nat} (hk : k ≤ ls.length)
    (h : Ascending (offset ls k) (joined ls).length (ps.map Proposal.span)) :
    Mended lone (ls.drop k) (splice (joined ls) (offset ls k) ps) := by
  induction hn : ps.length using Nat.strong_induction_on generalizing ps k with
  | h n ih =>
    cases ps with
    | nil =>
      rw [splice, drop_offset]
      exact .same _
    | cons p ps =>
      have hrepair' : ∀ q ∈ ps, Repair ls q.fix := fun q hq => hrepair q (by simp [hq])
      have hle {i : Nat} (hi : i ≤ ls.length) (hs : p.span.start = offset ls i) : k ≤ i := by
        by_contra hlt
        have := hls.offset_lt (Nat.lt_of_not_le hlt) (by omega)
        have := h.1
        omega
      have hsplice {i : Nat} (hki : k ≤ i) (hs : p.span.start = offset ls i) :
          splice (joined ls) (offset ls k) (p :: ps) = joined (between ls k i) ++
            (p.fix.insertion ++ splice (joined ls) p.span.stop ps) := by
        have hasc : Ascending (offset ls i) (joined ls).length ((p :: ps).map Proposal.span) :=
          ⟨hs.ge, h.2⟩
        rw [splice_of_le (offset_le_offset ls hki) hasc, slice_offset ls hki, splice_cons hs,
          between]
      have hrest {j : Nat} (hj : j ≤ ls.length) (hs : p.span.stop = offset ls j) :
          Mended lone (ls.drop j) (splice (joined ls) (offset ls j) ps) :=
        ih ps.length (by simp [← hn]) hrepair' (fun hl q hq => hbreaks hl q (by simp [hq])) hj
          (hs ▸ h.2) rfl
      have hlone {i j : Nat} (hij : i ≤ j) (hs : p.span.start = offset ls i)
          (ht : p.span.stop = offset ls j) (hl : lone) :
          (joined (between ls i j)).countP Sym.isBreak ≤ p.fix.insertion.countP Sym.isBreak := by
        have := hbreaks hl p (by simp)
        rwa [Span.slice, Span.length, hs, ht, slice_offset ls hij] at this
      cases hrepair p (by simp) with
      | finish i hi hstart hstop hnew =>
        have hki := hle hi.lt hstart
        have hstop : p.span.stop = offset ls (i + 1) := hstop
        rw [hsplice hki hstart, hnew, hstop]
        exact mended_finish hls hi hki (hrest hi.lt hstop)
      | raise i j hi hij hj hquiet hstart hstop hnew =>
        have hki := hle hi.lt hstart
        have hstop : p.span.stop = offset ls j := hstop
        rw [hsplice hki hstart, hnew, hstop]
        refine mended_raise hls hi hij hki hquiet (fun hl => ?_) (hrest hj.le hstop)
        have := hlone hij hstart hstop hl
        rw [hnew] at this
        exact not_isBreak_of_countP (Nat.le_zero.mp this)
      | wrap i j hi hj hij hstart hstop hnew =>
        have hki := hle hi.lt.le hstart
        have hstop : p.span.stop = offset ls (j + 1) := hstop
        rw [hsplice hki hstart, hnew, hstop]
        exact mended_wrap hls hi hj hij hki (hrest hj.lt hstop)
      | unwrap i j before after hi hj hij hpos hopen hclose hbefore hafter hline hslash hstart hstop
          hnew =>
        have hki := hle hi.lt.le hstart
        have hstop : p.span.stop = offset ls (j + 1) := hstop
        obtain ⟨ht, hhead⟩ := hj.splice_stops hls hrepair' (hstop ▸ h.2)
        rw [hsplice hki hstart, hnew, hstop]
        refine mended_unwrap hls hi hij hopen hclose hbefore hafter hline hslash (fun hl => ?_) ht
          hhead hki (hrest hj.lt hstop)
        have := hlone (by omega) hstart hstop hl
        rwa [hnew] at this
      | @reword i l a b u w v w' hi hkind hl hw hw' hinert hinert' hstart hstop hnew =>
        have hi' := (List.getElem?_eq_some_iff.mp hi).1
        have hstart : p.span.start = offset ls i + 2 + u.length := hstart
        have hlt : p.span.start < offset ls (i + 1) := by
          have hpos := List.length_pos_of_ne_nil hw
          rw [offset_succ hi, hl]
          simp only [List.length_cons, List.length_append]
          omega
        have hki : k ≤ i := by
          by_contra hlt'
          have : offset ls (i + 1) ≤ offset ls k := offset_le_offset ls (Nat.lt_of_not_le hlt')
          have := h.1
          omega
        have hfrom {c : Nat} (hc : c ≤ offset ls i + 2) :
            Ascending c (joined ls).length ((p :: ps).map Proposal.span) :=
          ⟨by omega, h.2⟩
        obtain ⟨x', rest, hsuffix, hasc, hreworded, hx'⟩ :=
          exists_reworded hi hl hrepair (Nat.zero_le _) (hfrom (Nat.le_refl _))
        have hshorter : rest.length < n := by
          rcases Nat.lt_or_eq_of_le hsuffix.length_le with hlt' | heq
          · omega
          · rw [hsuffix.eq_of_length heq] at hasc
            have := hasc.1
            omega
        have hsub : ∀ q ∈ rest, q ∈ p :: ps := fun q hq => hsuffix.subset hq
        have htwo : ((joined ls).drop (offset ls i)).take (offset ls i + 2 - offset ls i) = [a, b] := by
          rw [drop_offset, drop_cons hi, joined_cons, hl, Nat.add_sub_cancel_left]
          rfl
        rw [splice_of_le (offset_le_offset ls hki) (hfrom (Nat.le_add_right _ _)),
          slice_offset ls hki, splice_of_le (Nat.le_add_right _ 2) (hfrom (Nat.le_refl _)), htwo, hx']
        refine mended_reword hls hi hkind hl hreworded hki (fun hend => ?_) ?_
        · exact splice_head?_of_comment hls hi hkind hend (fun q hq => hrepair q (hsub q hq)) hasc
        · exact ih rest.length hshorter (fun q hq => hrepair q (hsub q hq))
            (fun hl' q hq => hbreaks hl' q (hsub q hq)) hi' hasc rfl

end

end HouseStyle
