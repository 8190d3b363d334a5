import HouseStyle.Proofs.Outline.Bared
import HouseStyle.Proofs.Rule.Offered

/-! Each fix, made as the last one of a text, does what was wanted, and nothing else is wanted then that
was not before. -/

namespace HouseStyle

open Outline

namespace Rule

/-! ### Lexemes that move together -/

/-- Lexemes that move by one number stay between the same ones. -/
theorem between_shift {ls ls' : List Lexeme} {f : Nat → Nat} {i j d : Nat} (hij : i ≤ j)
    (hshift : ∀ k, i ≤ k → k ≤ j → f k = k + d)
    (hlexeme : ∀ k, i ≤ k → k < j → ls'[f k]? = ls[k]?) :
    between ls' (f i) (f j) = between ls i j := by
  rw [hshift i (Nat.le_refl i) hij, hshift j hij (Nat.le_refl j)]
  refine List.ext_getElem? fun n => ?_
  rw [between, between, List.getElem?_take, List.getElem?_take, show j + d - (i + d) = j - i by omega]
  split_ifs with hn
  · rw [List.getElem?_drop, List.getElem?_drop, ← hlexeme _ (by omega) (by omega),
      hshift _ (by omega) (by omega)]
    congr 1
    omega
  · rfl

theorem isBelow_of_shift {ls ls' : List Lexeme} {f : Nat → Nat} {i j d : Nat} (hij : i < j)
    (hshift : ∀ k, i ≤ k → k ≤ j → f k = k + d) (hlexeme : ∀ k, ls'[f k]? = ls[k]?) :
    isBelow (between ls' (f i + 1) (f j)) = isBelow (between ls (i + 1) j) := by
  have hnext : f i + 1 = f (i + 1) := by
    rw [hshift i (Nat.le_refl i) hij.le, hshift (i + 1) (by omega) hij]
    omega
  rw [hnext, between_shift hij (fun k hk => hshift k (by omega)) fun k _ _ => hlexeme k]

/-- Code stands in no gap of a block, nor does what comes right behind the code of another segment. -/
theorem gap_spec {text : Text} {s : Segment} {b : Nat} (hs : s ∈ (outlineOf text).segments)
    (hopens : s.opensBlock) (hb : s.boundary = some b) : s.last < b ∧
      ∀ k, Loud (tokenize text).toArray k → k ≤ s.last ∨ b ≤ k := by
  obtain ⟨b', hboundary, hlt, hquiet, -⟩ := boundary_of_opensBlock hs hopens
  obtain rfl := Option.some.inj (hboundary.symm.trans hb)
  refine ⟨hlt, fun k hk => ?_⟩
  by_contra hin
  exact absurd (hquiet.le_of_loud hk (by omega)) (by omega)

theorem loud_of_mem {text : Text} {s : Segment} (hs : s ∈ (outlineOf text).segments) {k : Nat}
    (hk : k ∈ s.indices) : Loud (tokenize text).toArray k :=
  ((ofTokens_sound (tokenize text) ";").segments s hs).inOrder.loud k hk

theorem last_mem {text : Text} {s : Segment} (hs : s ∈ (outlineOf text).segments) :
    s.last ∈ s.indices :=
  ((ofTokens_sound (tokenize text) ";").segments s hs).last_mem

/-! ### Terminators -/

theorem withSemicolon_self {ls : List Lexeme} {i : Nat} (hi : i < ls.length) :
    (withSemicolon ls i)[i + 1]? = some semicolon := by
  have hlength : (ls.take (i + 1)).length = i + 1 := List.length_take_of_le hi
  rw [withSemicolon, List.getElem?_append_right (by omega), hlength, Nat.sub_self]
  rfl

section

variable {text : Text} {seg : Segment} (hpaired : (outlineOf text).AllPaired)
  (hseg : seg ∈ (outlineOf text).segments)
  (hlacks : Termination.lacksTerminator (outlineOf text) seg)
include hpaired hseg hlacks

/-- A semicolon ends its segment. -/
theorem cleared_finish :
    Cleared text (joined (withSemicolon (lexemes text) seg.last)) (seg.last + 1)
      fun s w => s = seg ∧ w = .finish := by
  obtain ⟨-, hcloses⟩ := Termination.inserts_of_lacks hseg hlacks
  have hinserts := tokenize_inserts hcloses
  have hlexemes := lexemes_withSemicolon hcloses
  generalize joined (withSemicolon (lexemes text) seg.last) = text' at hinserts hlexemes ⊢
  obtain ⟨hsegments, hpartners, hclosures⟩ := inserts_lacking hinserts hpaired hseg hlacks
  have hpaired' : (outlineOf text').AllPaired := allPaired_inserts hinserts hpaired hseg hlacks
  have hopens : seg.opensBlock = false := by
    have := (Termination.lacksTerminator_spec hlacks).1
    simpa [not_or] using (not_or.mp (not_or.mp this).2).1
  have hmono := shift_strictMono seg.last
  have hfix : ∀ k < seg.last + 1, shift seg.last k = k := fun k hk => shift_of_le (by omega)
  have hsame (j : Nat) : (lexemes text')[shift seg.last j]? = (lexemes text)[j]? := by
    rw [hlexemes, withSemicolon_getElem? hcloses.lt]
  have hnew : ∀ m q, (outlineOf text').partner? m = some q → ∃ j, shift seg.last j = m := by
    intro m q hq
    refine exists_shift ?_
    rintro rfl
    obtain ⟨t, ht, hmark, -⟩ := hinserts.semicolon
    have hbracket : isBracket t :=
      (tokenIs_of_getElem? (List.getElem?_toArray.trans ht)).symm.trans (isBracket_of_partner hq)
    rw [Parentheses.isBracket_semicolon hmark] at hbracket
    cases hbracket
  have hlevel : ∀ i < (lexemes text).length,
      (outlineOf text').nestingAt (shift seg.last i) = (outlineOf text).nestingAt i := by
    intro i hi
    refine nestingAt_map hmono hpartners hpaired hpaired' (by rwa [tokenize_length]) ?_ hnew
    rw [tokenize_length]
    exact (List.getElem?_eq_some_iff.mp ((hsame i).trans (List.getElem?_eq_getElem hi))).1
  refine ⟨hpaired', ?_, ?_⟩
  · rw [hlexemes, withSemicolon, List.take_left' (List.length_take_of_le hcloses.lt)]
  · rw [show (outlineOf text').segments = _ from hsegments, List.forall₂_map_right_iff]
    refine List.forall₂_same.mpr fun s hs => ?_
    have hmoves : Moves text text' (shift seg.last) (seg.last + 1) s (ended seg s) := by
      refine ⟨hmono, hfix, ?_, ?_, ?_, ?_, fun hopen => ?_, fun b hopen hb => ?_⟩
      · exact alike_of_lexemes hmono (fun i hi => lt_of_mem_indices hs hi) (fun i _ => hsame i)
          (fun i _ => hpartners i) ⟨0, fun i hi => hlevel i (lt_of_mem_indices hs hi)⟩
      · unfold ended
        split_ifs <;> rfl
      · unfold ended
        split_ifs <;> rfl
      · unfold ended
        split_ifs <;> rfl
      · have hne : s ≠ seg := by
          rintro rfl
          simp [hopens] at hopen
        rw [ended, if_neg hne]
        rfl
      · obtain ⟨hlt, hgap⟩ := gap_spec hs hopen hb
        have hne : s.last ≠ seg.last := by
          intro heq
          rw [ofTokens_eq_of_last hs hseg heq, hopens] at hopen
          cases hopen
        rcases hgap seg.last (loud_of_mem hseg (last_mem hseg)) with hle | hle
        · refine ⟨hlt, fun hcut => by omega, isBelow_of_shift (d := 1) hlt (fun k hk _ => ?_) hsame⟩
          exact shift_of_lt (by omega)
        · refine ⟨hlt, fun _ => shift_of_le hle, isBelow_of_shift (d := 0) hlt (fun k _ hk => ?_) hsame⟩
          exact shift_of_le (by omega)
    have hlacks' := lacksTerminator_ended hinserts hpaired hseg hlacks s
    refine ⟨fun w hnot => (hmoves.stays hs w ?_).1, ?_, fun h => hmoves.enclosed ▸ h⟩
    · rintro rfl
      refine hlacks'.trans ?_
      have hne : s ≠ seg := fun heq => hnot ⟨heq, rfl⟩
      simp [hne, outlineOf]
    · rintro w ⟨rfl, rfl⟩
      simp only [ne_eq, not_true_eq_false, decide_false, Bool.and_false] at hlacks'
      rw [Want.at?, outlineOf, hlacks']
      rfl

end

variable {text : Text} {seg : Segment} {i j : Nat} {e : Fix}

theorem advances_finish (hpaired : (outlineOf text).AllPaired) (hnone : NoneEnclosed text)
    (hseg : seg ∈ (outlineOf text).segments) (hat : Want.finish.at? text seg = some (i, j))
    (hgives : Want.finish.Gives (lexemes text) i j e)
    (hlast : ∀ fix, Offered text fix → fix ≠ e → e.span.Follows fix.span) :
    Advances text (e.putIn text) e := by
  have hwants := hat
  simp only [Want.at?] at hwants
  split_ifs at hwants with hlacks
  cases hwants
  obtain ⟨htext, hcloses⟩ := Termination.inserts_of_lacks hseg hlacks
  have hput : e.putIn text = joined (withSemicolon (lexemes text) seg.last) := by
    rw [← htext, Fix.putIn, Fix.insertion_eq hgives.replacement, hgives.start, hgives.stop]
    rfl
  rw [hput]
  refine (cleared_finish hpaired hseg hlacks).advances hseg hat hgives (fun m l hl => ?_) hnone hlast
  rw [lexemes_withSemicolon hcloses] at hl
  by_cases hm : m = seg.last + 1
  · rw [hm, withSemicolon_self hcloses.lt] at hl
    cases hl
    exact .inr ⟨by decide, by decide⟩
  · obtain ⟨k, rfl⟩ := exists_shift hm
    rw [withSemicolon_getElem? hcloses.lt] at hl
    refine .inl ⟨k, fun hk => ?_, hl⟩
    unfold shift at hk
    split_ifs at hk <;> omega

/-! ### Parentheses in an outline -/

section

variable {list list' : List Token} {end_ : Text} {hdr hdr' : Segment} {a z : Nat}
  (hparens : (Outline.ofTokens list end_).Parenthesized (Outline.ofTokens list' end_) hdr hdr' a z)
  (henc : Encloses list list' a z) (hpaired : (Outline.ofTokens list end_).AllPaired)
include hparens henc hpaired

theorem allPaired_encloses : (Outline.ofTokens list' end_).AllPaired := by
  intro i t ht hbracket
  by_cases hi : i = a
  · rw [hi, hparens.parens]
    rfl
  by_cases hi' : i = z + 2
  · rw [hi', partner_symm hparens.parens]
    rfl
  obtain ⟨j, rfl⟩ := exists_spread henc.le hi hi'
  have hj := henc.renames.lexeme j
  rw [show list'.toArray[spread a z j]? = some t from ht] at hj
  obtain ⟨u, hu, hlexeme⟩ := Option.map_eq_some_iff.mp hj.symm
  rw [hparens.partners, Option.isSome_map]
  exact hpaired j u hu (by simpa [isBracket, hlexeme] using hbracket)

/-- What is between the parentheses stands one deeper, and all else as deep as before. -/
theorem nestingAt_encloses {i : Nat} (hi : i < list.length) :
    (Outline.ofTokens list' end_).nestingAt (spread a z i) =
      (Outline.ofTokens list end_).nestingAt i + if a ≤ i ∧ i ≤ z then 1 else 0 := by
  have hle := henc.le
  have hinside : a < spread a z i ∧ spread a z i < z + 2 ↔ a ≤ i ∧ i ≤ z := by
    unfold spread
    split_ifs <;> omega
  have hi' : spread a z i < list'.length := by
    simpa using (henc.renames.lt_size_iff i).mpr (by simpa using hi)
  simp only [← hinside]
  refine nestingAt_map_of_pair (spread_strictMono a z) hparens.partners hpaired
    (allPaired_encloses hparens henc hpaired) hi hi' hparens.parens (by omega)
    (fun j => (spread_ne hle j).1) fun m r _ => ?_
  by_cases hm : m = a
  · exact .inr (.inl hm)
  by_cases hm' : m = z + 2
  · exact .inr (.inr hm')
  · exact .inl (exists_spread hle hm hm')

end

/-! ### Parentheses -/

theorem at?_finish_of_header {s : Segment} (h : s.kind = .controlHeader) :
    Want.finish.at? text s = none := by
  simp only [Want.at?]
  rw [if_neg]
  exact fun hlacks => (Termination.lacksTerminator_spec hlacks).2.1 h

theorem at?_condition_of_wrapped {s : Segment}
    (h : Parentheses.headerTail (outlineOf text) s "if" = [] ∨
      (outlineOf text).isWrapped (Parentheses.headerTail (outlineOf text) s "if")) :
    Want.condition.at? text s = none := by
  rcases h with h | h <;> simp [Want.at?, h, Parentheses.canWrap, Parentheses.ends?]

theorem at?_classic_of_wrapped {s : Segment}
    (h : Parentheses.headerTail (outlineOf text) s "for" = [] ∨
      (outlineOf text).isWrapped (Parentheses.headerTail (outlineOf text) s "for")) :
    Want.classic.at? text s = none := by
  rcases h with h | h
  · simp [Want.at?, h, Parentheses.isClassic, Parentheses.ends?]
  · have : Parentheses.isClassic (outlineOf text) (Parentheses.headerTail (outlineOf text) s "for") =
        false := by
      unfold Parentheses.isClassic
      split
      · rfl
      · simp [h]
    simp [Want.at?, this]

/-- Terminators between its parentheses show that a loop goes over no collection. -/
theorem Parentheses.isEnclosedLoop_of_divides {o : Outline} {run inner : List Nat} {a z x : Nat}
    (hrun : run = a :: inner ++ [z]) (hx : x ∈ inner) (hlevel : o.nestingAt x = o.nestingAt a + 1)
    (hpunct : o.at_ x (·.isPunct ";")) : isEnclosedLoop o run = false := by
  have hends : ends? run = some (a, z) := by
    rw [hrun, ends?, List.getLast?_concat]
    rfl
  have hany : ((run.drop 1).dropLast.filter (o.nestingAt · = o.nestingAt a + 1)).any
      fun i => o.at_ i (·.isPunct ";") := by
    rw [List.any_eq_true]
    exact ⟨x, List.mem_filter.mpr ⟨by simpa [hrun] using hx, by simpa using hlevel⟩, hpunct⟩
  simp only [isEnclosedLoop, hends, hany, Bool.not_true, Bool.and_false]

/-- The want that parentheses around the tail behind a keyword satisfy. -/
inductive Want.WrapsBehind : Want → Text → Prop
  | condition : WrapsBehind .condition "if"
  | classic : WrapsBehind .classic "for"

/-- Another segment stands in the tail of a header as a whole, or not at all. -/
theorem inside_or_outside {hdr s : Segment} {a : Nat} (hhdr : hdr ∈ (outlineOf text).segments)
    (ha : a ∈ hdr.indices) (hs : s ∈ (outlineOf text).segments) (hne : s ≠ hdr) :
    (∀ i ∈ s.indices, a ≤ i ∧ i ≤ hdr.last) ∨ ∀ i ∈ s.indices, i < a ∨ hdr.last < i := by
  have hsound := (ofTokens_sound (tokenize text) ";").segments
  have hbounds : ∀ s ∈ (outlineOf text).segments, ∀ i ∈ s.indices, s.first ≤ i ∧ i ≤ s.last :=
    fun s hs i hi => ⟨(hsound s hs).first_le hi,
      (hsound s hs).inOrder.le_getLast hi (hsound s hs).getLast?_eq⟩
  have hpairwise := fun s hs => (hsound s hs).inOrder.pairwise
  have hdisjoint := ofTokens_disjoint hs hhdr hne
  rcases Nat.lt_trichotomy s.first hdr.first with hlt | heq | hgt
  · right
    intro i hi
    have hbounds' := hbounds hdr hhdr a ha
    rcases ofTokens_apart_or_between hs hhdr hlt with hapart | ⟨c, p, hadj, -, hc, hp⟩
    · have := (hbounds s hs i hi).2
      omega
    · have := le_or_le_of_adjacent (hpairwise s hs) hadj hi
      omega
  · exact absurd (heq ▸ (hsound hdr hhdr).first_mem) (hdisjoint s.first (hsound s hs).first_mem)
  · rcases ofTokens_apart_or_between hhdr hs hgt with hapart | ⟨c, p, hadj, -, hc, hp⟩
    · right
      intro i hi
      have := (hbounds s hs i hi).1
      omega
    · have hp' := (hbounds hdr hhdr p (mem_of_adjacent hadj).2).2
      rcases le_or_le_of_adjacent (hpairwise hdr hhdr) hadj ha with hac | hpa
      · left
        intro i hi
        have := hbounds s hs i hi
        omega
      · right
        intro i hi
        have := (hbounds s hs i hi).2
        omega

section

variable {text' : Text} {want : Want} {keyword : Text} {hdr hdr' : Segment} {a z : Nat}
  (hbehind : want.WrapsBehind keyword) (hhdr : hdr ∈ (outlineOf text).segments)
include hbehind hhdr

/-- What is wanted is a fix that wraps. -/
theorem wraps_of_gives (hat : want.at? text hdr = some (i, j))
    (hgives : want.Gives (lexemes text) i j e) :
    j = hdr.last + 1 ∧
      Parentheses.Wraps (Context.ofTokens (tokenize text)) ";" keyword hdr i hdr.last e := by
  have hreads : (Context.ofTokens (tokenize text)).ReadsWith text ";" :=
    ⟨sourceText_tokenize text, rfl, rfl⟩
  have hwraps (hends : Parentheses.ends? (Parentheses.headerTail (outlineOf text) hdr keyword) =
        some (i, hdr.last)) (hj : j = hdr.last + 1)
      (hputs : ∀ source, want.puts source = .char '(' :: source ++ [.char ')']) :
      ∃ first last, (outlineOf text).token? i = some first ∧
        (outlineOf text).token? hdr.last = some last ∧
        Span.between first.start last.stop = .ok e.span ∧ e.replacement = .text (.char '(' ::
          Parentheses.sourceOf (Context.ofTokens (tokenize text)) first.start last.stop ++
            [.char ')']) := by
    obtain ⟨hle, -, hopens, -⟩ := hreads.opens_header hhdr hends
    obtain ⟨first, hfirst, -⟩ :=
      exists_token_of_lexeme (List.getElem?_eq_getElem hopens.lt)
    obtain ⟨last, hlast, -⟩ := exists_token_of_lexeme
      (List.getElem?_eq_getElem (lt_of_mem_indices hhdr (last_mem hhdr)))
    have hstart := (tokenize_getElem? hfirst).2.1
    have hstop := (tokenize_getElem? hlast).2.2
    have hspan : first.start = e.span.start ∧ last.stop = e.span.stop :=
      ⟨hstart.trans hgives.start.symm, (hstop.trans (hj ▸ rfl)).trans hgives.stop.symm⟩
    refine ⟨first, last, List.getElem?_toArray.trans hfirst, List.getElem?_toArray.trans hlast, ?_, ?_⟩
    · rw [hspan.1, hspan.2, Span.between_eq_ok e.span.start_le_stop]
    · rw [hgives.replacement, hputs, hstart, hstop, hreads.sourceOf_offset (by omega), hj]
  cases hbehind with
  | condition =>
    simp only [Want.at?] at hat
    split_ifs at hat with hwants
    obtain ⟨hends, hle, hj⟩ := tailSpan?_spec hhdr hat
    simp only [Bool.and_eq_true] at hwants
    have hclosed : Termination.hasUnterminated (outlineOf text) i hdr.last = false := by
      have := hwants.2
      simp only [Parentheses.canWrap, hends, Bool.and_eq_true, Bool.not_eq_true'] at this
      exact this.2
    exact ⟨hj, hhdr, hends, hclosed, hwraps hends hj fun _ => rfl, .inl ⟨rfl, hwants.1.1⟩⟩
  | classic =>
    simp only [Want.at?] at hat
    split_ifs at hat with hwants
    obtain ⟨hends, hle, hj⟩ := tailSpan?_spec hhdr hat
    simp only [Parentheses.isClassic, hends, Bool.and_eq_true, Bool.not_eq_true'] at hwants
    obtain ⟨x, hx, hdivides⟩ := List.any_eq_true.mp hwants.2
    obtain ⟨hx, hlevel⟩ := List.mem_filter.mp hx
    exact ⟨hj, hhdr, hends, hwants.1.1, hwraps hends hj fun _ => rfl,
      .inr ⟨rfl, rfl, x, hx, of_decide_eq_true hlevel, hdivides⟩⟩

omit hbehind in
/-- The other segments stand in the new text where the parentheses leave them. -/
theorem moves_of_wraps (hpaired : (outlineOf text).AllPaired)
    (hparens : (outlineOf text).Parenthesized (outlineOf text') hdr hdr' a hdr.last)
    (henc : Encloses (tokenize text) (tokenize text') a hdr.last)
    (hsame : ∀ j, (lexemes text')[spread a hdr.last j]? = (lexemes text)[j]?) (ha : a ∈ hdr.indices)
    (hquiet : ∃ k ∈ hdr.indices, k < a ∧ ∀ m, Loud (tokenize text).toArray m → m ≤ k ∨ a ≤ m)
    {s : Segment}
    (hs : s ∈ (outlineOf text).segments) (hne : s ≠ hdr) :
    Moves text text' (spread a hdr.last) a s (s.rename (spread a hdr.last)) := by
  have hmono := spread_strictMono a hdr.last
  have hlevel : ∀ i ∈ s.indices, (outlineOf text').nestingAt (spread a hdr.last i) =
      (outlineOf text).nestingAt i + if a ≤ i ∧ i ≤ hdr.last then 1 else 0 := fun i hi =>
    nestingAt_encloses hparens henc hpaired (by rw [tokenize_length]; exact lt_of_mem_indices hs hi)
  refine ⟨hmono, fun k hk => spread_of_lt hk, ?_, rfl, rfl, rfl, fun _ => rfl, fun b hopen hb => ?_⟩
  · refine alike_of_lexemes hmono (fun i hi => lt_of_mem_indices hs hi) (fun i _ => hsame i)
      (fun i _ => hparens.partners i) ?_
    rcases inside_or_outside hhdr ha hs hne with hin | hout
    · exact ⟨1, fun i hi => (hlevel i hi).trans (by rw [if_pos (hin i hi)])⟩
    · refine ⟨0, fun i hi => (hlevel i hi).trans ?_⟩
      have := hout i hi
      rw [if_neg (by omega)]
  · obtain ⟨hlt, hgap⟩ := gap_spec hs hopen hb
    have hbefore : a ≤ s.last ∨ b < a := by
      refine (hgap a (loud_of_mem hhdr ha)).imp_right fun hba => hba.lt_of_ne ?_
      -- Else the keyword before the tail would be the last token of this segment too.
      rintro rfl
      obtain ⟨k, hk, hkb, hquiet⟩ := hquiet
      have hk' := hgap k (loud_of_mem hhdr hk)
      have hlast := hquiet s.last (loud_of_mem hs (last_mem hs))
      obtain rfl : k = s.last := by omega
      exact ofTokens_disjoint hs hhdr hne s.last (last_mem hs) hk
    have hbehind := hgap hdr.last (loud_of_mem hhdr (last_mem hhdr))
    have hneq : s.last ≠ hdr.last := fun heq => hne (ofTokens_eq_of_last hs hhdr heq)
    refine ⟨hlt, fun hba => ?_, ?_⟩
    · rw [spread_of_lt (by omega)]
    · rcases hbefore with hal | hba
      · rcases hbehind with hzl | hbz
        · refine isBelow_of_shift (d := 2) hlt (fun k hk _ => ?_) hsame
          exact spread_of_gt (by omega) (by omega)
        · refine isBelow_of_shift (d := 1) hlt (fun k hk hkb => ?_) hsame
          exact spread_of_mem (by omega) (by omega)
      · refine isBelow_of_shift (d := 0) hlt (fun k _ hk => ?_) hsame
        exact spread_of_lt (by omega)

/-- The header itself has nothing to be done any more but for its brace. -/
theorem header_of_wraps (hparens : (outlineOf text).Parenthesized (outlineOf text') hdr hdr' a hdr.last)
    (hsame : ∀ j, (lexemes text')[spread a hdr.last j]? = (lexemes text)[j]?)
    (hopener : (outlineOf text').at_ a (·.isMark '(')) (hhdr' : hdr' ∈ (outlineOf text').segments)
    (hblock : hdr'.opensBlock = hdr.opensBlock)
    (hboundary : hdr.opensBlock → hdr'.boundary = hdr.boundary.map (spread a hdr.last))
    (ha : a ≤ hdr.last)
    (htail : Parentheses.headerTail (outlineOf text') hdr' keyword = a ::
      (Parentheses.headerTail (outlineOf text) hdr keyword).map (spread a hdr.last) ++ [hdr.last + 2])
    (hother : ∀ other ≠ keyword, Parentheses.headerTail (outlineOf text') hdr' other = [])
    (hkind : hdr.kind = .controlHeader)
    (hdivides : keyword = "for" → ∃ x ∈ Parentheses.headerTail (outlineOf text) hdr keyword,
      (a ≤ x ∧ x ≤ hdr.last) ∧ (outlineOf text).nestingAt x = (outlineOf text).nestingAt a ∧
        (outlineOf text').at_ (spread a hdr.last x) (·.isPunct ";")) :
    (∀ w ≠ want, Want.Stays a (w.at? text hdr) (w.at? text' hdr')) ∧ want.at? text' hdr' = none ∧
      Parentheses.isEnclosedLoop (outlineOf text')
        (Parentheses.headerTail (outlineOf text') hdr' "for") = false := by
  have hwrapped : (outlineOf text').isWrapped (Parentheses.headerTail (outlineOf text') hdr' keyword) := by
    rw [htail]
    exact Parentheses.isWrapped_append hopener hparens.parens
  have hlast' : hdr'.last = hdr.last + 2 := by
    refine (@ends_header text' hdr' keyword a _ hhdr' ?_).2.symm
    rw [htail, Parentheses.ends?, List.getLast?_concat]
    rfl
  have hcondition : Want.condition.at? text' hdr' = none := by
    refine at?_condition_of_wrapped ?_
    by_cases hif : "if" = keyword
    · exact .inr (hif ▸ hwrapped)
    · exact .inl (hother _ hif)
  have hclassic : Want.classic.at? text' hdr' = none := by
    refine at?_classic_of_wrapped ?_
    by_cases hfor : "for" = keyword
    · exact .inr (hfor ▸ hwrapped)
    · exact .inl (hother _ hfor)
  refine ⟨fun w hw => ?_, ?_, ?_⟩
  · cases w with
    | finish =>
      rw [at?_finish_of_header hkind, at?_finish_of_header (Parentheses.headerTail_spec htail).1]
      exact .refl a none
    | raise =>
      simp only [Want.at?, hblock, hlast']
      split_ifs with hopens
      · rw [hboundary hopens]
        cases hb : hdr.boundary with
        | none => exact .refl a none
        | some b =>
          have hlt := (gap_spec hhdr hopens hb).1
          have hshift : ∀ k, hdr.last + 1 ≤ k → spread a hdr.last k = k + 2 := fun k hk =>
            spread_of_gt (by omega) (by omega)
          have hgap := between_shift hlt (fun k hk _ => hshift k hk) fun k _ _ => hsame k
          rw [hshift _ (Nat.le_refl _), show hdr.last + 1 + 2 = hdr.last + 2 + 1 by omega] at hgap
          simp only [Option.map_some, Option.bind_some, hgap]
          split_ifs
          · refine ⟨fun _ => rfl, fun i j h hj => ?_⟩
            cases h
            omega
          · exact .refl a none
      · exact .refl a none
    | condition =>
      rw [hcondition]
      exact .none a fun i j hat => by
        have := Want.at?_spec hhdr hat
        omega
    | classic =>
      rw [hclassic]
      exact .none a fun i j hat => by
        have := Want.at?_spec hhdr hat
        omega
  · cases hbehind
    · exact hcondition
    · exact hclassic
  · by_cases hfor : "for" = keyword
    · subst hfor
      obtain ⟨x, hx, ⟨hax, hxz⟩, hlevel, hterminator⟩ := hdivides rfl
      refine Parentheses.isEnclosedLoop_of_divides htail (List.mem_map_of_mem hx) ?_ hterminator
      rw [spread_of_mem hax hxz]
      calc (outlineOf text').nestingAt (x + 1) = (outlineOf text).nestingAt x + 1 :=
            hparens.levels x hax hxz
        _ = (outlineOf text').nestingAt a + 1 := by rw [hlevel, hparens.level]
    · rw [hother _ hfor]
      rfl

/-- Parentheses around the tail of a header are all that was wanted there. -/
theorem cleared_wrap (hpaired : (outlineOf text).AllPaired)
    (hw : Parentheses.Wraps (Context.ofTokens (tokenize text)) ";" keyword hdr a hdr.last e)
    (hline : e.OnLine text) :
    Cleared text (joined (withParens (lexemes text) a hdr.last)) a fun s w => s = hdr ∧ w = want := by
  have hreads : (Context.ofTokens (tokenize text)).ReadsWith text ";" :=
    ⟨sourceText_tokenize text, rfl, rfl⟩
  obtain ⟨hkind, hle, -, us, k, vs, hindices, hkeyword⟩ := hreads.header hhdr hw.ends
  have hinOrder := (hreads.segment_sound hhdr).inOrder
  rw [hindices] at hinOrder
  obtain ⟨hka, hquiet, hopens⟩ := hinOrder.opens_of_keyword hkeyword
  have hcloses := hw.closes hreads
  have hlexemes := lexemes_withParens hopens hcloses hle
  have henc := tokenize_encloses hopens hcloses hle
  generalize joined (withParens (lexemes text) a hdr.last) = text' at hlexemes henc ⊢
  obtain ⟨hdr', hparens, hblock, hboundary, htail, hother⟩ := Parentheses.exists_parenthesized hpaired
    hhdr hw.ends henc (hw.sameLine hreads hline) (hw.sort.imp And.right And.right)
  have hsame (j : Nat) : (lexemes text')[spread a hdr.last j]? = (lexemes text)[j]? := by
    rw [hlexemes, withParens_getElem? hle hcloses.lt]
  have ha : a ∈ hdr.indices := by simp [hindices]
  have hbefore : ∀ m, Loud (tokenize text).toArray m → m ≤ k ∨ a ≤ m := by
    intro m hm
    obtain ⟨l, hl, hcode⟩ := exists_of_loud hm
    by_contra hin
    rw [hquiet m l (by omega) (by omega) hl] at hcode
    cases hcode
  have hheader := header_of_wraps hbehind hhdr hparens hsame ?_ ?_ hblock hboundary hle
    htail hother hkind ?_
  · refine ⟨allPaired_encloses hparens henc hpaired, ?_, ?_⟩
    · rw [hlexemes, withParens, List.take_left' (List.length_take_of_le hopens.lt.le)]
    · rw [show (outlineOf text').segments = _ from hparens.segments, List.forall₂_map_right_iff]
      refine List.forall₂_same.mpr fun s hs => ?_
      by_cases hne : s = hdr
      · subst hne
        rw [reformed, if_pos rfl]
        refine ⟨fun w hnot => hheader.1 w fun heq => hnot ⟨rfl, heq⟩, ?_, fun h => ?_⟩
        · rintro w ⟨-, rfl⟩
          exact hheader.2.1
        · rw [hheader.2.2] at h
          cases h
      · have hmoves := moves_of_wraps hhdr hpaired hparens henc hsame ha
          ⟨k, by simp [hindices], hka, hbefore⟩ hs hne
        rw [reformed, if_neg hne]
        refine ⟨fun w _ => (hmoves.stays hs w ?_).1, fun w hdone => absurd hdone.1 hne,
          fun h => hmoves.enclosed ▸ h⟩
        rintro rfl
        rw [Termination.lacksTerminator_eq, Termination.lacksTerminator_eq,
          Termination.lacksWherever_map hmoves.alike (List.ne_nil_of_mem (last_mem hs)) hmoves.indices
            hmoves.head rfl]
        congr 2
        exact Termination.isInlineClosureBody_rename henc.renames hparens.partners hparens.closures s
  · obtain ⟨t, ht, hmark⟩ := henc.opener
    exact (tokenIs_of_getElem? (List.getElem?_toArray.trans ht)).trans hmark
  · rw [show (outlineOf text').segments = _ from hparens.segments]
    exact List.mem_map.mpr ⟨hdr, hhdr, if_pos rfl⟩
  · rintro rfl
    obtain ⟨-, -, x, hx, hlevel, hdivides⟩ := hw.sort.resolve_left fun h => absurd h.1 (by decide)
    obtain ⟨-, hbounds⟩ :=
      Parentheses.mem_headerTail (hreads.segment_sound hhdr).inOrder hw.ends hx
    exact ⟨x, hx, hbounds, hlevel, (henc.renames.tokenIs_map (·.isPunct ";") x).trans hdivides⟩

theorem advances_wrap (hpaired : (outlineOf text).AllPaired) (hnone : NoneEnclosed text)
    (hat : want.at? text hdr = some (i, j)) (hgives : want.Gives (lexemes text) i j e)
    (hharmless : Harmless text e)
    (hlast : ∀ fix, Offered text fix → fix ≠ e → e.span.Follows fix.span) :
    Advances text (e.putIn text) e := by
  have hreads : (Context.ofTokens (tokenize text)).ReadsWith text ";" :=
    ⟨sourceText_tokenize text, rfl, rfl⟩
  obtain ⟨-, hw⟩ := wraps_of_gives hbehind hhdr hat hgives
  have hline : e.OnLine text := by
    refine hharmless.line ?_
    rw [hgives.description]
    cases hbehind
    · exact .inl rfl
    · exact .inr rfl
  obtain ⟨hle, -, hopens, -⟩ := hreads.opens_header hhdr hw.ends
  have hcloses := hw.closes hreads
  have hput : e.putIn text = joined (withParens (lexemes text) i hdr.last) := (hw.text_eq hreads).2.2
  rw [hput]
  refine (cleared_wrap hbehind hhdr hpaired hw hline).advances hhdr hat hgives (fun m l hl => ?_)
    hnone hlast
  rw [lexemes_withParens hopens hcloses hle] at hl
  by_cases hm : m = i
  · rw [hm, withParens_opener hle hcloses.lt] at hl
    cases hl
    exact .inr ⟨by decide, by decide⟩
  by_cases hm' : m = hdr.last + 2
  · rw [hm', withParens_closer hle hcloses.lt] at hl
    cases hl
    exact .inr ⟨by decide, by decide⟩
  obtain ⟨k, rfl⟩ := exists_spread hle hm hm'
  rw [withParens_getElem? hle hcloses.lt] at hl
  refine .inl ⟨k, fun hk => ?_, hl⟩
  unfold spread at hk
  split_ifs at hk <;> omega

end

end Rule

end HouseStyle
