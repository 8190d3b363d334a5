import HouseStyle.Proofs.Outline.Spaces
import HouseStyle.Proofs.Rule.Made
import HouseStyle.Proofs.Rule.Normalized
import HouseStyle.Proofs.Rule.Unwrapped

/-! A comment in other words. All other lexemes stay as they are, on their lines, so the outline stays
too, and nothing else than the words of the comment is wanted otherwise. -/

namespace HouseStyle

open Outline Text
open Rule hiding id

/-! ### Lexemes -/

theorem breakCount_word {u w t : Text} (hne : w ≠ []) (hw : ∀ s ∈ w, s.isInert) :
    (u ++ w ++ t).breakCount = u.breakCount + t.breakCount := by
  have hbreak : ∀ s ∈ w, s.isBreak = false := fun s hs => by
    have := hw s hs
    simp only [Sym.isInert, Bool.not_eq_true', Bool.or_eq_false_iff] at this
    exact this.1.1.1
  have hfront : ¬PartsPair u w := fun h => by
    have := hbreak _ (List.mem_of_mem_head? h.2)
    revert this
    decide
  have hback : ¬PartsPair (u ++ w) t := fun h => by
    have hlast := h.1
    rw [List.getLast?_append_of_ne_nil _ hne] at hlast
    have := hbreak _ (List.mem_of_getLast? hlast)
    revert this
    decide
  rw [breakCount_append hback, breakCount_append hfront, breakCount_eq_zero_iff.mpr hbreak, Nat.add_zero]

theorem Reworded.around {w w' : Text} (hne : w ≠ []) (hne' : w' ≠ []) (hw : ∀ s ∈ w, s.isInert)
    (hw' : ∀ s ∈ w', s.isInert) (u t : Text) : Reworded (u ++ w ++ t) (u ++ w' ++ t) := by
  induction u with
  | nil => exact .word hne hne' hw hw' (.refl t)
  | cons s u ih => exact .keep s ih

/-- Where lexemes hold as many line breaks as others, as many lines come before each. -/
theorem IsLexed.breakCount_take_of_forall₂ {ls ls' : List Lexeme} (h : IsLexed ls) (h' : IsLexed ls')
    (hall : List.Forall₂ (fun l l' => l'.text.breakCount = l.text.breakCount) ls ls') (j : Nat) :
    (joined (ls'.take j)).breakCount = (joined (ls.take j)).breakCount := by
  induction hall generalizing j with
  | nil => rfl
  | @cons l l' ls ls' hl hall ih =>
    cases j with
    | zero => rfl
    | succ j =>
      have hfront := (h.take (j + 1)).not_partsPair_cons
      have hfront' := (h'.take (j + 1)).not_partsPair_cons
      rw [List.take_succ_cons, List.take_succ_cons, joined_cons, joined_cons, breakCount_append hfront',
        breakCount_append hfront, hl, ih h.cons.2.2 h'.cons.2.2]

namespace Outline

theorem loud_of_mark {tokens : Array Token} {c : Char} {k : Nat} (hk : tokenIs tokens (·.isMark c) k) :
    Loud tokens k := by
  obtain ⟨t, ht, hmark⟩ := tokenIs_iff.mp hk
  exact ⟨t, ht, Scan.not_isTrivia hmark⟩

/-- The brace of a closure is code, whether it is closed or not. -/
theorem loud_of_closure {list : List Token} {end_ : Text} {c : Nat}
    (hc : c ∈ (Outline.ofTokens list end_).closures) : Loud list.toArray c := by
  have hinvariant := Scan.scanned_invariant list end_
  obtain ⟨-, ⟨resume, depth, hframe⟩ | ⟨p, hp⟩⟩ :=
    hinvariant.housed.closures c (mem_ofTokens_closures.mp hc)
  · exact loud_of_mark (hinvariant.nested.waits _ hframe).2.2.1
  · exact hinvariant.sound.loud p c (hinvariant.nested.symm c p hp)

theorem mem_solids_of_loud {list : List Token} {j : Nat} (hj : Loud list.toArray j) : j ∈ solids list := by
  obtain ⟨t, ht, hcode⟩ := hj
  refine mem_solids.mpr ⟨t, List.getElem?_toArray.symm.trans ht, ?_⟩
  cases hkind : t.kind <;> simp_all [isSolid, Lexeme.isTrivia, TokenKind.isTrivia]

end Outline

/-- One text with a comment of another one in other words. -/
structure Retells (text text' : Text) (i : Nat) (l l' : Lexeme) : Prop where
  old : (lexemes text)[i]? = some l
  new : lexemes text' = (lexemes text).set i l'
  comment : l.kind = .comment
  comment' : l'.kind = .comment
  breaks : l'.text.breakCount = l.text.breakCount

namespace Retells

variable {text text' : Text} {i j : Nat} {l l' : Lexeme} (h : Retells text text' i l l')
include h

theorem lexeme_ne (hj : j ≠ i) : (lexemes text')[j]? = (lexemes text)[j]? := by
  rw [h.new, List.getElem?_set_ne hj.symm]

theorem lexeme_self : (lexemes text')[i]? = some l' := by
  rw [h.new, List.getElem?_set_self (List.getElem?_eq_some_iff.mp h.old).1]

theorem forall₂ : List.Forall₂ (fun l l' => l'.kind = l.kind ∧ l'.text.breakCount = l.text.breakCount ∧
    (l.kind ≠ .comment → l' = l)) (lexemes text) (lexemes text') := by
  refine List.forall₂_iff_get.mpr ⟨by simp [h.new], fun k hk hk' => ?_⟩
  by_cases hki : k = i
  · subst hki
    have hl : (lexemes text).get ⟨k, hk⟩ = l := by
      have := (List.getElem?_eq_some_iff.mp h.old).2
      exact this
    have hl' : (lexemes text').get ⟨k, hk'⟩ = l' := by
      have := (List.getElem?_eq_some_iff.mp h.lexeme_self).2
      exact this
    rw [hl, hl']
    exact ⟨h.comment'.trans h.comment.symm, h.breaks, fun hcode => absurd h.comment hcode⟩
  · have hl : (lexemes text').get ⟨k, hk'⟩ = (lexemes text).get ⟨k, hk⟩ := by
      have := h.lexeme_ne hki
      rw [List.getElem?_eq_getElem hk, List.getElem?_eq_getElem hk'] at this
      exact Option.some.inj this
    rw [hl]
    exact ⟨rfl, rfl, fun _ => rfl⟩

/-- The solid tokens are the same ones, and stand where they stood. -/
theorem reading_eq : reading (tokenize text) = reading (tokenize text') := by
  have hread (text : Text) : reading (tokenize text) =
      ((lexemes text).filter fun l => l.kind ≠ .whitespace && l.kind ≠ .comment).map
        fun l => (l.kind, l.text) := by
    rw [← tokenize_map_toLexeme, List.filter_map, List.map_map]
    rfl
  rw [hread, hread]
  have hall := h.forall₂
  generalize lexemes text = ls, lexemes text' = ls' at hall
  induction hall with
  | nil => rfl
  | @cons l l' ls ls' hl hall ih =>
    obtain ⟨hkind, -, hcode⟩ := hl
    by_cases hcomment : l.kind = .comment
    · simpa [hkind, hcomment] using ih
    · rw [hcode hcomment, List.filter_cons, List.filter_cons]
      split_ifs
      · rw [List.map_cons, List.map_cons, ih]
      · exact ih

theorem solids_eq : solids (tokenize text') = solids (tokenize text) := by
  refine (solids_pairwise _).eq_of_mem_iff (solids_pairwise _) fun j => ?_
  have hkind : ((lexemes text')[j]?).map (·.kind) = ((lexemes text)[j]?).map (·.kind) := by
    by_cases hj : j = i
    · rw [hj, h.lexeme_self, h.old, Option.map_some, Option.map_some, h.comment, h.comment']
    · rw [h.lexeme_ne hj]
  have hsolid (text : Text) : j ∈ solids (tokenize text) ↔
      ∃ k ∈ ((lexemes text)[j]?).map (·.kind), k ≠ .whitespace ∧ k ≠ .comment := by
    rw [mem_solids, ← tokenize_lexeme, Option.map_map]
    simp [isSolid]
  rw [hsolid, hsolid, hkind]

theorem renumber_eq (hj : j ∈ solids (tokenize text)) :
    renumber (tokenize text) (tokenize text') j = j := by
  obtain ⟨k, hk, rfl⟩ := List.getElem_of_mem hj
  have hk' : k < (solids (tokenize text')).length := by rwa [h.solids_eq]
  rw [← place_of_lt hk, renumber_place, place_of_lt hk', place_of_lt hk]
  simp only [h.solids_eq]

/-! ### The outline -/

theorem agrees : (outlineOf text').segments =
      (outlineOf text).segments.map (Segment.rename (renumber (tokenize text) (tokenize text'))) ∧
    (∀ j, (outlineOf text').partner? j = (outlineOf text).partner? j) ∧
    (∀ j ∈ solids (tokenize text), (outlineOf text').nestingAt j = (outlineOf text).nestingAt j) ∧
    (outlineOf text').closures = (outlineOf text).closures := by
  obtain ⟨-, hagrees, hsolid, hsolid'⟩ := ofTokens_spaces h.reading_eq ";"
  refine ⟨hagrees.segments, fun j => ?_, fun j hj => ?_, ?_⟩
  · by_cases hj : j ∈ solids (tokenize text)
    · have hpartner := hagrees.partner j hj
      rw [h.renumber_eq hj] at hpartner
      refine hpartner.trans ?_
      cases hq : (Outline.ofTokens (tokenize text) ";").partner? j with
      | none => exact hq.symm
      | some q => 
        refine Eq.trans ?_ hq.symm
        rw [Option.map_some, h.renumber_eq (hsolid q j (partner_symm hq))]
    · have hnone : (outlineOf text).partner? j = none := by
        rw [Option.eq_none_iff_forall_ne_some]
        exact fun q hq => hj (hsolid j q hq)
      rw [hnone, Option.eq_none_iff_forall_ne_some]
      exact fun q hq => hj (h.solids_eq ▸ hsolid' j q hq)
  · have hnesting := hagrees.nesting j hj
    rw [h.renumber_eq hj] at hnesting
    exact hnesting
  · calc (outlineOf text').closures = (outlineOf text).closures.map _ := hagrees.closures
      _ = (outlineOf text).closures.map id :=
        List.map_congr_left fun c hc => h.renumber_eq (mem_solids_of_loud (loud_of_closure hc))
      _ = (outlineOf text).closures := List.map_id _

omit h in
theorem symm (h : Retells text text' i l l') : Retells text' text i l' l where
  old := h.lexeme_self
  new := by
    obtain ⟨hi, hl⟩ := List.getElem?_eq_some_iff.mp h.old
    rw [h.new, List.set_set, ← hl, List.set_getElem_self]
  comment := h.comment'
  comment' := h.comment
  breaks := h.breaks.symm

theorem line_eq {t t' : Token} (ht : (outlineOf text).token? j = some t)
    (ht' : (outlineOf text').token? j = some t') : t'.line = t.line := by
  have hline := congrArg Cursor.line
    (placed_cursor (isLexed_lexemes text) (List.getElem?_toArray.symm.trans ht))
  have hline' := congrArg Cursor.line
    (placed_cursor (isLexed_lexemes text') (List.getElem?_toArray.symm.trans ht'))
  simp only [Cursor.after] at hline hline'
  rw [hline, hline', (isLexed_lexemes text).breakCount_take_of_forall₂ (isLexed_lexemes text')
    (h.forall₂.imp fun _ _ hl => hl.2.1)]

/-- Whether a brace stands below stays, for no other word in a comment ends its line. -/
theorem isBelow_eq (x y : Nat) : isBelow (between (lexemes text') x y) =
    isBelow (between (lexemes text) x y) := by
  by_cases hin : x ≤ i ∧ i < y
  · have hmem {ls : List Lexeme} {l : Lexeme} (hl : ls[i]? = some l) (hkind : l.kind = .comment) :
        isBelow (between ls x y) = false := by
      have hany : (between ls x y).any (·.kind = .comment) := by
        exact List.any_eq_true.mpr ⟨l, mem_between_of hin.1 hin.2 hl, by simpa using hkind⟩
      rw [isBelow, hany, Bool.not_true, Bool.and_false]
    rw [hmem h.old h.comment, hmem h.lexeme_self h.comment']
  · rcases Nat.le_total x y with hxy | hyx
    · have hsame := @between_shift (lexemes text) (lexemes text') id x y 0 hxy
        (fun k _ _ => rfl) fun k hxk hky => h.lexeme_ne fun heq => hin ⟨heq ▸ hxk, heq ▸ hky⟩
      exact congrArg isBelow hsame
    · rw [between, between, Nat.sub_eq_zero_of_le hyx, List.take_zero, List.take_zero]

theorem ne_of_loud (hj : Loud (tokenize text).toArray j) : j ≠ i := by
  rintro rfl
  obtain ⟨u, hu, hcode⟩ := exists_of_loud hj
  rw [h.old] at hu
  cases hu
  simp [Lexeme.isTrivia, TokenKind.isTrivia, h.comment] at hcode

theorem token_ne (hj : j ≠ i) : ((outlineOf text').token? j).map (·.toLexeme) =
    ((outlineOf text).token? j).map (·.toLexeme) := by
  change ((tokenize text').toArray[j]?).map _ = ((tokenize text).toArray[j]?).map _
  rw [List.getElem?_toArray, List.getElem?_toArray, tokenize_lexeme, tokenize_lexeme, h.lexeme_ne hj]

/-- A segment is that of the other text again. -/
theorem rename_rename {s : Segment} (hs : s ∈ (outlineOf text).segments) :
    (s.rename (renumber (tokenize text) (tokenize text'))).rename
      (renumber (tokenize text') (tokenize text)) = s := by
  have hround : (outlineOf text).segments.map (Segment.rename (renumber (tokenize text') (tokenize text)) ∘
      Segment.rename (renumber (tokenize text) (tokenize text'))) = (outlineOf text).segments.map id := by
    rw [← List.map_map, ← h.agrees.1, ← h.symm.agrees.1, List.map_id]
  exact List.map_inj_left.mp hround s hs

theorem boundary_eq {s : Segment} (hs : s ∈ (outlineOf text).segments) {b : Nat}
    (hb : s.boundary.map (renumber (tokenize text) (tokenize text')) = some b)
    (hloud : Loud (tokenize text').toArray b) : s.boundary = some b := by
  have hboundary := congrArg Segment.boundary (h.rename_rename hs)
  simp only [Segment.rename, hb, Option.map_some,
    h.symm.renumber_eq (mem_solids_of_loud hloud)] at hboundary
  exact hboundary.symm

theorem moves {s : Segment} (hs : s ∈ (outlineOf text).segments) : Moves text text' id i s
    (s.rename (renumber (tokenize text) (tokenize text'))) := by
  obtain ⟨-, hpartner, hnesting, -⟩ := h.agrees
  have hloud : ∀ j ∈ s.indices, Loud (tokenize text).toArray j := fun j hj => loud_of_mem hs hj
  refine ⟨strictMono_id, fun _ _ => rfl, ?_, ?_, rfl, rfl, fun hopen => ?_, fun b hopen hb => ?_⟩
  · refine alike_of_lexemes strictMono_id (fun j hj => lt_of_mem_indices hs hj)
      (fun j hj => h.lexeme_ne (h.ne_of_loud (hloud j hj)))
      (fun j _ => (hpartner j).trans (Option.map_id_apply).symm)
      ⟨0, fun j hj => hnesting j (mem_solids_of_loud (hloud j hj))⟩
  · exact List.map_congr_left fun j hj => h.renumber_eq (mem_solids_of_loud (hloud j hj))
  · obtain ⟨b, hboundary, -, -, hmark⟩ := boundary_of_opensBlock hs hopen
    simp [Segment.rename, hboundary, h.renumber_eq (mem_solids_of_loud (loud_of_mark hmark))]
  · exact ⟨(gap_spec hs hopen hb).1, fun _ => rfl, h.isBelow_eq _ b⟩

theorem allPaired (hpaired : (outlineOf text).AllPaired) : (outlineOf text').AllPaired := by
  intro j t ht hbracket
  rw [h.agrees.2.1]
  have hloud : Loud (tokenize text').toArray j := by
    obtain ⟨pair, -, hmark⟩ := List.any_eq_true.mp hbracket
    rcases Bool.or_eq_true_iff.mp hmark with hmark | hmark <;>
      exact ⟨t, ht, Scan.not_isTrivia hmark⟩
  have hlexeme := h.token_ne (h.symm.ne_of_loud hloud)
  rw [show (outlineOf text').token? j = some t from ht] at hlexeme
  obtain ⟨u, hu, heq⟩ := Option.map_eq_some_iff.mp hlexeme.symm
  exact hpaired j u hu (by simpa [isBracket, heq] using hbracket)

/-- The body of a closure on one line is one in the other text too. -/
theorem isInlineClosureBody_imp {s : Segment} (hs : s ∈ (outlineOf text).segments)
    (hinline : Termination.isInlineClosureBody (outlineOf text')
      (s.rename (renumber (tokenize text) (tokenize text')))) :
    Termination.isInlineClosureBody (outlineOf text) s := by
  obtain ⟨-, hpartner, -, hclosures⟩ := h.agrees
  obtain ⟨b, p, t, u, hb, ht, hmark, hp, hclosure, hu, hline⟩ :=
    Termination.isInlineClosureBody_iff.mp hinline
  rw [hpartner] at hp
  rw [hclosures] at hclosure
  have hloud : Loud (tokenize text').toArray b := ⟨t, ht, Scan.not_isTrivia hmark⟩
  have hb' := h.boundary_eq hs hb hloud
  have hlexeme := h.token_ne (h.symm.ne_of_loud hloud)
  rw [ht] at hlexeme
  obtain ⟨t₀, ht₀, hsame⟩ := Option.map_eq_some_iff.mp hlexeme.symm
  have hlexeme' := h.token_ne (h.ne_of_loud (loud_of_closure hclosure))
  rw [hu] at hlexeme'
  obtain ⟨u₀, hu₀, -⟩ := Option.map_eq_some_iff.mp hlexeme'.symm
  refine Termination.isInlineClosureBody_iff.mpr
    ⟨b, p, t₀, u₀, hb', ht₀, by rwa [hsame], hp, hclosure, hu₀, ?_⟩
  rw [← h.line_eq hu₀ hu, ← h.line_eq ht₀ ht, hline]

theorem lacks_eq {s : Segment} (hs : s ∈ (outlineOf text).segments) :
    Termination.lacksTerminator (outlineOf text')
        (s.rename (renumber (tokenize text) (tokenize text'))) =
      Termination.lacksTerminator (outlineOf text) s := by
  have hmoves := h.moves hs
  rw [Termination.lacksTerminator_eq, Termination.lacksTerminator_eq,
    Termination.lacksWherever_map hmoves.alike (List.ne_nil_of_mem (last_mem hs)) hmoves.indices
      hmoves.head rfl]
  congr 2
  rw [Bool.eq_iff_iff]
  refine ⟨h.isInlineClosureBody_imp hs, fun hinline => h.symm.isInlineClosureBody_imp ?_ ?_⟩
  · rw [h.agrees.1]
    exact List.mem_map_of_mem hs
  · rwa [h.rename_rename hs]

/-- All that is wanted in the one text is wanted in the other one. -/
theorem cleared (hpaired : (outlineOf text).AllPaired) :
    Cleared text text' i fun _ _ => False := by
  refine ⟨h.allPaired hpaired, ?_, ?_⟩
  · rw [h.new, List.take_set_of_le (Nat.le_refl i)]
  · rw [h.agrees.1, List.forall₂_map_right_iff]
    refine List.forall₂_same.mpr fun s hs => ?_
    have hmoves := h.moves hs
    exact ⟨fun w _ => (hmoves.stays hs w fun _ => h.lacks_eq hs).1, fun w hw => hw.elim,
      fun henclosed => hmoves.enclosed ▸ henclosed⟩

end Retells

namespace Rule

variable {text : Text} {e : Fix}

/-! ### The fix of a marker -/

/-- The fix of a marker tells its comment in other words. -/
theorem retells_of_word {i : Nat} {l : Lexeme} {u w t : Text} (hl : (lexemes text)[i]? = some l)
    (hkind : l.kind = .comment) (htext : l.text = u ++ w ++ t)
    (hstart : e.span.start = offset (lexemes text) i + u.length)
    (hstop : e.span.stop = offset (lexemes text) i + u.length + w.length) (hne : w ≠ [])
    (hw : ∀ s ∈ w, s.isWord) (hnew : e.insertion ≠ [] ∧ ∀ s ∈ e.insertion, s.isInert) :
    Retells text (e.putIn text) i l { l with text := u ++ e.insertion ++ t } := by
  have hinert : ∀ s ∈ w, s.isInert := fun s hs => Sym.isInert_of_isWord (hw s hs)
  have hlt := (List.getElem?_eq_some_iff.mp hl).1
  have hsplit : (lexemes text).take i ++ l :: (lexemes text).drop (i + 1) = lexemes text := by
    rw [← drop_cons hl, List.take_append_drop]
  have hset : (lexemes text).set i { l with text := u ++ e.insertion ++ t } =
      (lexemes text).take i ++ { l with text := u ++ e.insertion ++ t } ::
        (lexemes text).drop (i + 1) := List.set_eq_take_append_cons_drop.trans (if_pos hlt)
  have hput : e.putIn text =
      joined ((lexemes text).set i { l with text := u ++ e.insertion ++ t }) := by
    have hjoined : text = joined ((lexemes text).take i) ++ u ++ w ++
        (t ++ joined ((lexemes text).drop (i + 1))) := by
      calc text = joined (lexemes text) := (lexemes_join text).symm
        _ = joined ((lexemes text).take i ++ l :: (lexemes text).drop (i + 1)) := by rw [hsplit]
        _ = _ := by simp only [joined_append, joined_cons, htext, List.append_assoc]
    have hfront : text.take (offset (lexemes text) i + u.length) =
        joined ((lexemes text).take i) ++ u := by
      conv_lhs => arg 2; rw [hjoined]
      rw [List.append_assoc]
      exact List.take_left' (by simp [offset])
    have hback : text.drop (offset (lexemes text) i + u.length + w.length) =
        t ++ joined ((lexemes text).drop (i + 1)) := by
      conv_lhs => arg 2; rw [hjoined]
      exact List.drop_left' (by simp [offset, Nat.add_assoc])
    rw [hset, Fix.putIn, hstart, hstop, hfront, hback]
    simp only [joined_append, joined_cons, List.append_assoc]
  have hlexed : IsLexed ((lexemes text).set i { l with text := u ++ e.insertion ++ t }) := by
    have hold : IsLexed ((lexemes text).take i ++ l :: (lexemes text).drop (i + 1)) := by
      rw [hsplit]
      exact isLexed_lexemes text
    obtain ⟨b, x, hx, hb⟩ := hold.append_right.exists_of_comment hkind
    have hnot : ∀ s ∈ w, s ≠ .char '/' ∧ s ≠ .char '*' := fun s hs =>
      ⟨Reworded.ne_of_isInert (hinert s hs) (by decide), Reworded.ne_of_isInert (hinert s hs) (by decide)⟩
    obtain ⟨c, w', rfl⟩ := List.exists_cons_of_ne_nil hne
    obtain ⟨hslash, hstar⟩ := hnot c (by simp)
    -- The word does not begin with one of the two symbols that open the comment.
    cases u with
    | nil =>
      rw [htext] at hx
      exact absurd (List.cons.inj hx).1 hslash
    | cons a u =>
      cases u with
      | nil =>
        rw [htext] at hx
        simp only [List.cons_append, List.nil_append, List.cons.injEq] at hx
        rcases hb with rfl | rfl
        · exact absurd hx.2.1 hslash
        · exact absurd hx.2.1 hstar
      | cons b' u =>
        rw [hset]
        exact hold.reword hkind htext (.around hne hnew.1 hinert hnew.2 u t)
  exact
    { old := hl
      new := by rw [hput]; exact hlexed
      comment := hkind
      comment' := hkind
      breaks := by rw [htext, breakCount_word hne hinert, breakCount_word hnew.1 hnew.2] }

/-- Behind the last fix no marker has one. -/
theorem no_fix_behind {i : Nat} (hstart : e.span.start < offset (lexemes text) (i + 1))
    (hlast : ∀ fix, Offered text fix → fix ≠ e → e.span.Follows fix.span) {k : Nat} {m : Lexeme}
    (hk : i < k) (hm : (lexemes text)[k]? = some m) (hkind : m.kind = .comment) :
    ∀ r ∈ Markers.remarksFrom Markers.defaultMarkers (offset (lexemes text) k) 0 none m.text,
      r.fix = none := by
  intro r hr
  by_contra hsome
  obtain ⟨fix, hfix⟩ := Option.ne_none_iff_exists'.mp hsome
  have := Markers.bounds_of_mem Markers.defaultMarkers_areWords hr hfix
  have := offset_le_offset (lexemes text) (show i + 1 ≤ k from hk)
  have := (hlast fix (.inr ⟨k, m, hm, hkind, r, hr, hfix⟩) (by rintro rfl; omega)).1
  omega

/-- The fixes of markers are those that were there before, without the one that was made. -/
theorem misspelt_iff_of_retells {text' : Text} {i : Nat} {l l' : Lexeme} (h : Retells text text' i l l')
    (hinside : offset (lexemes text) i ≤ e.span.start ∧ e.span.start < offset (lexemes text) (i + 1))
    (hlast : ∀ fix, Offered text fix → fix ≠ e → e.span.Follows fix.span)
    (hself : ∀ fix, (∃ r ∈ Markers.remarksFrom Markers.defaultMarkers (offset (lexemes text) i) 0 none
        l'.text, r.fix = some fix) ↔
      (∃ r ∈ Markers.remarksFrom Markers.defaultMarkers (offset (lexemes text) i) 0 none l.text,
        r.fix = some fix) ∧ fix ≠ e) (fix : Fix) :
    Misspelt text' fix ↔ Misspelt text fix ∧ fix ≠ e := by
  have hbase {k : Nat} (hk : k ≤ i) : offset (lexemes text') k = offset (lexemes text) k := by
    refine offset_of_front ?_ hk
    rw [h.new]
    exact List.take_set_of_le (Nat.le_refl i)
  constructor
  · rintro ⟨k, m, hm, hkind, r, hr, hfix⟩
    rcases Nat.lt_trichotomy k i with hlt | rfl | hgt
    · rw [h.lexeme_ne hlt.ne] at hm
      rw [hbase hlt.le] at hr
      refine ⟨⟨k, m, hm, hkind, r, hr, hfix⟩, ?_⟩
      rintro rfl
      have := Markers.bounds_of_mem Markers.defaultMarkers_areWords hr hfix
      have := offset_le_offset (lexemes text) (show k + 1 ≤ i from hlt)
      have := offset_succ hm
      omega
    · rw [h.lexeme_self] at hm
      cases hm
      rw [hbase (Nat.le_refl k)] at hr
      obtain ⟨⟨r, hr, hfix⟩, hne⟩ := (hself fix).mp ⟨r, hr, hfix⟩
      exact ⟨⟨k, l, h.old, h.comment, r, hr, hfix⟩, hne⟩
    · -- Words behind are settled wherever they stand.
      rw [h.lexeme_ne hgt.ne'] at hm
      obtain ⟨x', hx⟩ := Markers.exists_settles Markers.defaultMarkers m.text
      rw [hx.no_fix Markers.defaultMarkers_areWords (fun _ => rfl) (fun _ => rfl)
        (no_fix_behind hinside.2 hlast hgt hm hkind) r hr] at hfix
      cases hfix
  · rintro ⟨⟨k, m, hm, hkind, r, hr, hfix⟩, hne⟩
    rcases Nat.lt_trichotomy k i with hlt | rfl | hgt
    · rw [← h.lexeme_ne hlt.ne] at hm
      rw [← hbase hlt.le] at hr
      exact ⟨k, m, hm, hkind, r, hr, hfix⟩
    · cases h.old.symm.trans hm
      obtain ⟨r, hr, hfix⟩ := (hself fix).mpr ⟨⟨r, hr, hfix⟩, hne⟩
      rw [← hbase (Nat.le_refl k)] at hr
      exact ⟨k, _, h.lexeme_self, h.comment', r, hr, hfix⟩
    · rw [no_fix_behind hinside.2 hlast hgt hm hkind r hr] at hfix
      cases hfix

theorem advances_respell (hpaired : (outlineOf text).AllPaired) (hnone : NoneEnclosed text)
    (he : Misspelt text e) (hlast : ∀ fix, Offered text fix → fix ≠ e → e.span.Follows fix.span) :
    Advances text (e.putIn text) e := by
  have hmisspelt := he
  obtain ⟨i, l, hl, hkind, r, hr, hfix⟩ := he
  obtain ⟨u, w, t, htext, hstart, hstop, hne, hw, hnew, hself⟩ :=
    Markers.exists_settled_word Markers.defaultMarkers_areWords hr hfix
      fun r' hr' fix hfix' => hlast fix (.inr ⟨i, l, hl, hkind, r', hr', hfix'⟩)
  have hretells := retells_of_word hl hkind htext hstart hstop hne hw hnew
  have hcleared := hretells.cleared hpaired
  have hinside : e.span.start < offset (lexemes text) (i + 1) := by
    have := List.length_pos_of_ne_nil hne
    rw [offset_succ hl, hstart, htext]
    simp only [List.length_append]
    omega
  refine ⟨hcleared.paired, hcleared.noneEnclosed hnone, fun fix => ?_, fun fix hfollows hfits => ?_⟩
  · -- What is wanted at segments ends in front of the comment.
    have hleft : ∀ s ∈ (outlineOf text).segments, ∀ w i' j, ¬False → Want.at? text s w = some (i', j) →
        j ≤ i := by
      intro s hs w i' j _ hat
      obtain ⟨hij, hlength, -⟩ := Want.at?_spec hs hat
      obtain ⟨fix, hgives⟩ := w.exists_gives (lexemes text) hij
      have hstop := (hlast fix (.inl ⟨s, hs, w, i', j, hat, hgives⟩) (hmisspelt.ne_of_gives hgives).symm).2
      rw [hgives.stop] at hstop
      by_contra hlt
      have := offset_le_offset (lexemes text) (show i + 1 ≤ j by omega)
      omega
    rw [Offered, hcleared.wanted_iff hleft, Offered, or_and_right,
      misspelt_iff_of_retells hretells ⟨by omega, hinside⟩ hlast hself]
    refine or_congr_left ?_
    simp only [not_false_eq_true, true_and]
    refine ⟨fun hwanted => ⟨hwanted, ?_⟩, And.left⟩
    obtain ⟨s, hs, w, i', j, hat, hgives⟩ := hwanted
    exact (hmisspelt.ne_of_gives hgives).symm
  · have hbehind : e.span.start < offset (lexemes (e.putIn text)) (i + 1) := by
      have := List.length_pos_of_ne_nil hnew.1
      rw [offset_succ hretells.lexeme_self, offset_of_front hcleared.front (Nat.le_refl i), hstart]
      simp only [List.length_append]
      omega
    refine hfits.of_front hcleared.front (fun hgrave l' hl' => ?_) fun text₁ htext₁ k hk hik => ?_
    · rw [hretells.new] at hl'
      rcases List.mem_or_eq_of_mem_set hl' with hl' | rfl
      · exact hgrave l' hl'
      · simp [Lexeme.isGrave, Lexeme.isMark, Lexeme.isPunct, hkind]
    · have := offset_le_offset (lexemes text₁) (show i + 1 ≤ k + 1 by omega)
      have := hfollows.1
      rcases List.mem_pair.mp htext₁ with rfl | rfl <;> omega

end Rule

end HouseStyle
