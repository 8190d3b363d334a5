import Mathlib.Order.WellFounded
import HouseStyle.Proofs.Outline.Counted
import HouseStyle.Proofs.Rule.Wrapping

/-! What the rules want done at a segment: a terminator behind it, its brace moved up, or parentheses
put around its tail or taken away. Whether they want it depends on the tokens of the segment, their
partners and how deep they stand beside each other, so it stays where these do. -/

namespace HouseStyle

open Outline Rule

/-! ### Tokens that stand elsewhere -/

/-- Tokens that read the same in another outline, where they stand at other places: their lexemes and
partners are the same, and all of them stand deeper by one number. -/
structure Outline.Alike (o o' : Outline) (f : Nat → Nat) (run : List Nat) : Prop where
  mono : StrictMono f
  lexeme : ∀ i ∈ run, (o'.token? (f i)).map (·.toLexeme) = (o.token? i).map (·.toLexeme)
  partner : ∀ i ∈ run, o'.partner? (f i) = (o.partner? i).map f
  level : ∃ up, ∀ i ∈ run, o'.nestingAt (f i) = o.nestingAt i + up
  closed : ∀ i ∈ run, ∀ j ∈ run, Termination.hasUnterminated o' (f i) (f j) =
    Termination.hasUnterminated o i j

namespace Outline.Alike

variable {o o' : Outline} {f : Nat → Nat} {run part : List Nat} {i j : Nat}

theorem subset (h : o.Alike o' f run) (hsub : part ⊆ run) : o.Alike o' f part where
  mono := h.mono
  lexeme i hi := h.lexeme i (hsub hi)
  partner i hi := h.partner i (hsub hi)
  level := h.level.imp fun _ hup i hi => hup i (hsub hi)
  closed i hi j hj := h.closed i (hsub hi) j (hsub hj)

variable (h : o.Alike o' f run)
include h

theorem at_map (p : Lexeme → Bool) (hi : i ∈ run) :
    o'.at_ (f i) (fun t => p t.toLexeme) = o.at_ i fun t => p t.toLexeme := by
  have hlexeme := h.lexeme i hi
  simp only [token?] at hlexeme
  simp only [at_, tokenIs]
  cases ht : o.tokens[i]? <;> cases ht' : o'.tokens[f i]? <;> simp_all

theorem any_map (p : Lexeme → Bool) (hsub : part ⊆ run) :
    (part.map f).any (fun i => o'.at_ i fun t => p t.toLexeme) =
      part.any fun i => o.at_ i fun t => p t.toLexeme := by
  rw [List.any_map, Bool.eq_iff_iff, List.any_eq_true, List.any_eq_true]
  refine exists_congr fun i => and_congr_right fun hi => ?_
  rw [Function.comp_apply, h.at_map p (hsub hi)]

/-- Tokens stand on the levels on which they stood, as seen from one of them. -/
theorem filter_level (hsub : part ⊆ run) (hi : i ∈ run) (n : Nat) :
    (part.map f).filter (o'.nestingAt · = o'.nestingAt (f i) + n) =
      (part.filter (o.nestingAt · = o.nestingAt i + n)).map f := by
  obtain ⟨up, hup⟩ := h.level
  rw [List.filter_map]
  congr 1
  refine List.filter_congr fun k hk => ?_
  simp only [Function.comp_apply, hup k (hsub hk), hup i hi, decide_eq_decide]
  omega

theorem isWrapped_map (hsub : part ⊆ run) : o'.isWrapped (part.map f) = o.isWrapped part := by
  unfold isWrapped
  rw [List.head?_map, List.getLast?_map, List.length_map]
  cases hfirst : part.head? with
  | none => rfl
  | some first =>
    cases hlast : part.getLast? with
    | none => rfl
    | some last =>
      have hmem := hsub (List.mem_of_head? hfirst)
      have hclosed : (o'.partner? (f first) = some (f last)) ↔ o.partner? first = some last := by
        rw [h.partner first hmem, Option.map_eq_some_iff]
        simp [h.mono.injective.eq_iff]
      simp only [Option.map_some, h.at_map (·.isMark '(') hmem, hclosed]

end Outline.Alike

namespace Rule.Parentheses

variable {o o' : Outline} {f : Nat → Nat} {run part : List Nat} {s s' : Segment}

theorem ends?_map (f : Nat → Nat) (run : List Nat) :
    ends? (run.map f) = (ends? run).map (Prod.map f f) := by
  unfold ends?
  rw [List.head?_map, List.getLast?_map]
  cases run.head? <;> cases run.getLast? <;> rfl

theorem mem_of_ends? {first last : Nat} (h : ends? run = some (first, last)) :
    first ∈ run ∧ last ∈ run := by
  obtain ⟨rest, hrun, hlast⟩ := ends?_spec h
  exact ⟨by simp [hrun], List.mem_of_getLast? hlast⟩

theorem headerTail_subset (o : Outline) (s : Segment) (keyword : Text) :
    headerTail o s keyword ⊆ s.indices := by
  intro i hi
  obtain ⟨k, tail, hrun⟩ := List.exists_cons_of_ne_nil (List.ne_nil_of_mem hi)
  obtain ⟨-, us, m, -, hindices, -⟩ := headerTail_spec hrun
  rw [hrun] at hi
  rw [hindices]
  simp only [List.mem_append, List.mem_cons] at hi ⊢
  exact .inr (.inr hi)

/-- The tail of a header stands where the header does. -/
theorem headerTail_map (h : o.Alike o' f s.indices) (hindices : s'.indices = s.indices.map f)
    (hhead : s'.toHead = s.toHead) (keyword : Text) :
    headerTail o' s' keyword = (headerTail o s keyword).map f := by
  have hkind : s'.kind = s.kind := congrArg Head.kind hhead
  have hplace : keywordPlace s' = keywordPlace s := by
    rw [keywordPlace, keywordPlace, show s'.keyword = s.keyword from congrArg Head.keyword hhead,
      show s'.lead = s.lead from congrArg Head.lead hhead]
  by_cases hcontrol : s.kind = .controlHeader
  · rw [headerTail_of_drop (hkind.trans hcontrol) rfl, headerTail_of_drop hcontrol rfl, hplace,
      hindices, ← List.map_drop]
    cases hdrop : s.indices.drop (keywordPlace s) with
    | nil => rfl
    | cons k tail =>
      have hk : k ∈ s.indices := List.mem_of_mem_drop (hdrop ▸ List.mem_cons_self)
      rw [List.map_cons, List.head?_cons, List.head?_cons, Option.any_some, Option.any_some,
        h.at_map (·.isKeyword [keyword]) hk, List.tail_cons, List.tail_cons]
      split_ifs <;> rfl
  · rw [headerTail, headerTail, if_neg hcontrol, if_neg (by rwa [hkind]), List.map_nil]

/-- Whether a condition can be wrapped stays. -/
theorem canWrap_map (h : o.Alike o' f run) : canWrap o' (run.map f) = canWrap o run := by
  unfold canWrap
  rw [ends?_map]
  cases hends : ends? run with
  | none => rfl
  | some ends =>
    obtain ⟨first, last⟩ := ends
    obtain ⟨hfirst, hlast⟩ := mem_of_ends? hends
    have hlevel := h.filter_level (List.Subset.refl run) hfirst 0
    simp only [Nat.add_zero] at hlevel
    have hany := @h.any_map _ _ _ _ (run.filter fun k => o.nestingAt k = o.nestingAt first)
      (fun l => l.isMark ',' || l.isKeyword ["let", "var", "case"]) List.filter_sublist.subset
    have hsplit (o : Outline) (i : Nat) : o.at_ i (fun t => t.toLexeme.isMark ',' ||
        t.toLexeme.isKeyword ["let", "var", "case"]) =
          (o.at_ i (·.isMark ',') || o.at_ i (·.isKeyword ["let", "var", "case"])) := by
      simp only [at_, tokenIs]
      cases o.tokens[i]? <;> rfl
    simp only [hsplit] at hany
    simp only [Option.map_some, Prod.map_apply, h.at_map (·.isKeyword ["let", "var", "case"]) hfirst,
      h.at_map (·.isMark '#') hfirst, hlevel, hany, h.closed first hfirst last hlast]

/-! ### Parentheses that are wanted -/

/-- Whether the tail of a loop header is divided by terminators outside all its brackets, and stands
in no parentheses. -/
def isClassic (o : Outline) (run : List Nat) : Bool :=
  match ends? run with
  | none => false
  | some (first, last) =>
    !Termination.hasUnterminated o first last && !o.isWrapped run &&
      (run.filter (o.nestingAt · = o.nestingAt first)).any fun i => o.at_ i (·.isPunct ";")

/-- Whether the tail of a loop header is in parentheses and goes over a collection. -/
def isEnclosedLoop (o : Outline) (run : List Nat) : Bool :=
  match ends? run with
  | none => false
  | some (first, last) =>
    let inner := (run.drop 1).dropLast.filter (o.nestingAt · = o.nestingAt first + 1)
    !Termination.hasUnterminated o first last && o.isWrapped run &&
      (inner.any (fun i => o.at_ i (·.isKeyword ["in"])) && !inner.any fun i => o.at_ i (·.isPunct ";"))

theorem isClassic_map (h : o.Alike o' f run) : isClassic o' (run.map f) = isClassic o run := by
  unfold isClassic
  rw [ends?_map]
  cases hends : ends? run with
  | none => rfl
  | some ends =>
    obtain ⟨first, last⟩ := ends
    obtain ⟨hfirst, hlast⟩ := mem_of_ends? hends
    have hlevel := h.filter_level (List.Subset.refl run) hfirst 0
    simp only [Nat.add_zero] at hlevel
    have hsub : run.filter (fun k => o.nestingAt k = o.nestingAt first) ⊆ run :=
      List.filter_sublist.subset
    simp only [Option.map_some, Prod.map_apply, h.closed first hfirst last hlast,
      h.isWrapped_map (List.Subset.refl run), hlevel, h.any_map (·.isPunct ";") hsub]

theorem isEnclosedLoop_map (h : o.Alike o' f run) :
    isEnclosedLoop o' (run.map f) = isEnclosedLoop o run := by
  unfold isEnclosedLoop
  rw [ends?_map]
  cases hends : ends? run with
  | none => rfl
  | some ends =>
    obtain ⟨first, last⟩ := ends
    obtain ⟨hfirst, hlast⟩ := mem_of_ends? hends
    have hinner : (run.drop 1).dropLast ⊆ run :=
      fun k hk => List.mem_of_mem_drop (List.dropLast_subset _ hk)
    have hlevel := h.filter_level hinner hfirst 1
    have hsub : (run.drop 1).dropLast.filter (fun k => o.nestingAt k = o.nestingAt first + 1) ⊆ run :=
      fun k hk => hinner (List.mem_of_mem_filter hk)
    simp only [Option.map_some, Prod.map_apply, h.closed first hfirst last hlast,
      h.isWrapped_map (List.Subset.refl run), ← List.map_drop, ← List.map_dropLast, hlevel,
      h.any_map (·.isKeyword ["in"]) hsub, h.any_map (·.isPunct ";") hsub]

end Rule.Parentheses

/-! ### Terminators -/

namespace Rule.Termination

variable {o o' : Outline} {f : Nat → Nat} {s s' : Segment}

/-- Whether a segment lacks a terminator, wherever it ends. -/
def lacksWherever (o : Outline) (s : Segment) : Bool :=
  !(s.terminated || s.opensBlock || s.label) &&
  s.kind != .controlHeader &&
  (s.kind != .declaration || terminatedDeclarations.contains s.keyword) &&
  !(o.at_ s.first (·.isMark '@') && s.keyword.isEmpty) &&
  !o.at_ s.first (fun t => t.text.head? = some (.char '#') || Outline.accessors.contains t.text ||
    t.isKeyword ["case", "default"]) &&
  !o.at_ s.last (·.isKeyword ["in"]) &&
  s.indices.any (fun i => o.at_ i (·.kind.isWord)) &&
  !hasUnterminated o s.first s.last

theorem lacksTerminator_eq (o : Outline) (s : Segment) :
    lacksTerminator o s = (lacksWherever o s && !isInlineClosureBody o s) := rfl

/-- The body of a closure on one line ends before its closing brace, which stands on the line of the
opening one. -/
theorem isInlineClosureBody_iff : isInlineClosureBody o s ↔ ∃ b p t u, s.boundary = some b ∧
    o.token? b = some t ∧ t.isMark '}' ∧ o.partner? b = some p ∧ p ∈ o.closures ∧
      o.token? p = some u ∧ u.line = t.line := by
  unfold isInlineClosureBody
  cases hb : s.boundary with
  | none => simp
  | some b =>
    cases ht : o.token? b with
    | none => simp [ht]
    | some t =>
      cases hp : o.partner? b with
      | none => simp [ht, hp]
      | some p =>
        have hat : o.at_ p (·.line = t.line) ↔ ∃ u, o.token? p = some u ∧ u.line = t.line := by
          simp [at_, token?, tokenIs_iff]
        simp [ht, hp, hat]

theorem lacksWherever_map (h : o.Alike o' f s.indices) (hne : s.indices ≠ [])
    (hindices : s'.indices = s.indices.map f) (hhead : s'.toHead = s.toHead)
    (hends : (s'.terminated || s'.opensBlock || s'.label) = (s.terminated || s.opensBlock || s.label)) :
    lacksWherever o' s' = lacksWherever o s := by
  have hfirst : s.first ∈ s.indices ∧ s'.first = f s.first := by
    obtain ⟨i, rest, hrun⟩ := List.exists_cons_of_ne_nil hne
    simp [Segment.first, hindices, hrun]
  have hlast : s.last ∈ s.indices ∧ s'.last = f s.last := by
    have := List.getLast?_eq_some_getLast hne
    simp [Segment.last, hindices, List.getLastD_eq_getLast?, this]
  have hkind : s'.kind = s.kind := congrArg Head.kind hhead
  have hkeyword : s'.keyword = s.keyword := congrArg Head.keyword hhead
  simp only [lacksWherever, hends, hkind, hkeyword, hfirst.2, hlast.2, hindices,
    h.any_map (·.kind.isWord) (List.Subset.refl s.indices), h.closed _ hfirst.1 _ hlast.1,
    h.at_map (·.isMark '@') hfirst.1, h.at_map (·.isKeyword ["in"]) hlast.1,
    h.at_map (fun t => t.text.head? = some (.char '#') || Outline.accessors.contains t.text ||
      t.isKeyword ["case", "default"]) hfirst.1]

end Rule.Termination

/-! ### Wants -/

namespace Rule

/-- What a rule may want done at a segment. -/
inductive Want where
  | finish | raise | condition | classic
  deriving DecidableEq

/-- Whether a brace stands below what is before it, with no comment in between. -/
def isBelow (gap : List Lexeme) : Bool :=
  (joined gap).breakCount ≠ 0 && !gap.any (·.kind = .comment)

/-- The lexemes of the tail of a header: the first one, and the one behind the last. -/
def tailSpan? (run : List Nat) : Option (Nat × Nat) :=
  (Parentheses.ends? run).map fun ends => (ends.1, ends.2 + 1)

namespace Want

/-- The lexemes that are to be replaced at a segment: the first one and the one behind the last, or
`none` where nothing is wanted. -/
def at? (text : Text) (s : Segment) : Want → Option (Nat × Nat)
  | finish =>
    if Termination.lacksTerminator (outlineOf text) s then some (s.last + 1, s.last + 1) else none
  | raise =>
    (if s.opensBlock then s.boundary else none).bind fun b =>
      if isBelow (between (lexemes text) (s.last + 1) b) then some (s.last + 1, b) else none
  | condition =>
    let run := Parentheses.headerTail (outlineOf text) s "if"
    if s.opensBlock && !(outlineOf text).isWrapped run && Parentheses.canWrap (outlineOf text) run then
      tailSpan? run
    else none
  | classic =>
    let run := Parentheses.headerTail (outlineOf text) s "for"
    if Parentheses.isClassic (outlineOf text) run then tailSpan? run else none

/-- What is wanted is nothing new, and the same as before left of a lexeme. -/
structure Stays (cut : Nat) (before after : Option (Nat × Nat)) : Prop where
  old : after.isSome → before.isSome
  same : ∀ i j, before = some (i, j) → j ≤ cut → after = some (i, j)

theorem Stays.refl (cut : Nat) (want : Option (Nat × Nat)) : Stays cut want want :=
  ⟨fun h => h, fun _ _ h _ => h⟩

theorem Stays.none (cut : Nat) {before : Option (Nat × Nat)} (h : ∀ i j, before = some (i, j) → cut < j) :
    Stays cut before none :=
  ⟨by simp, fun i j hbefore hj => absurd (h i j hbefore) (by omega)⟩

end Want

variable {text text' : Text} {f : Nat → Nat} {s s' : Segment} {keyword : Text} {cut a z : Nat}

/-- The tail of a header goes to the end of its segment. -/
theorem ends_header (hs : s ∈ (outlineOf text).segments)
    (hends : Parentheses.ends? (Parentheses.headerTail (outlineOf text) s keyword) = some (a, z)) :
    a ≤ z ∧ z = s.last := by
  have hreads : (Context.ofTokens (tokenize text)).ReadsWith text ";" :=
    ⟨sourceText_tokenize text, rfl, rfl⟩
  obtain ⟨hle, hlast, -⟩ := hreads.opens_header hs hends
  exact ⟨hle, hlast⟩

theorem tailSpan?_spec {i j : Nat} (hs : s ∈ (outlineOf text).segments)
    (h : tailSpan? (Parentheses.headerTail (outlineOf text) s keyword) = some (i, j)) :
    Parentheses.ends? (Parentheses.headerTail (outlineOf text) s keyword) = some (i, s.last) ∧
      i ≤ s.last ∧ j = s.last + 1 := by
  obtain ⟨⟨a, z⟩, hends, hij⟩ := Option.map_eq_some_iff.mp h
  cases hij
  obtain ⟨hle, rfl⟩ := ends_header hs hends
  exact ⟨hends, hle, rfl⟩

/-! ### What stays wanted -/

/-- Only the last lexeme of a text may lack its end. -/
theorem hasUnterminated_eq {i j : Nat} (hij : i ≤ j) (hj : j < (lexemes text).length) :
    Termination.hasUnterminated (outlineOf text) i j = (outlineOf text).at_ j (·.unterminated) := by
  rw [Bool.eq_iff_iff, Termination.hasUnterminated_iff]
  constructor
  · rintro ⟨k, -, hkj, hopen⟩
    rcases hkj.lt_or_eq with hlt | rfl
    · obtain ⟨l, hl, hopen⟩ := exists_of_tokenIs hopen
      rw [(isLexed_lexemes text).closed_of_lt hl hlt hj] at hopen
      cases hopen
    · exact hopen
  · exact fun hopen => ⟨j, hij, Nat.le_refl j, hopen⟩

/-- Lexemes that stand elsewhere in another text. -/
theorem alike_of_lexemes {run : List Nat} (hmono : StrictMono f)
    (hinside : ∀ i ∈ run, i < (lexemes text).length)
    (hlexeme : ∀ i ∈ run, (lexemes text')[f i]? = (lexemes text)[i]?)
    (hpartner : ∀ i ∈ run, (outlineOf text').partner? (f i) = ((outlineOf text).partner? i).map f)
    (hlevel : ∃ up, ∀ i ∈ run, (outlineOf text').nestingAt (f i) = (outlineOf text).nestingAt i + up) :
    (outlineOf text).Alike (outlineOf text') f run := by
  have htoken (i : Nat) (hi : i ∈ run) : ((outlineOf text').token? (f i)).map (·.toLexeme) =
      ((outlineOf text).token? i).map (·.toLexeme) := by
    change ((tokenize text').toArray[f i]?).map _ = ((tokenize text).toArray[i]?).map _
    rw [List.getElem?_toArray, List.getElem?_toArray, tokenize_lexeme, tokenize_lexeme, hlexeme i hi]
  refine ⟨hmono, htoken, hpartner, hlevel, fun i hi j hj => ?_⟩
  rcases Nat.lt_or_ge j i with hlt | hle
  · have hempty {o : Outline} {i j : Nat} (h : j < i) : Termination.hasUnterminated o i j = false := by
      simp [Termination.hasUnterminated, Termination.extent, show j + 1 - i = 0 by omega]
    rw [hempty hlt, hempty (hmono hlt)]
  · have hj' : f j < (lexemes text').length := by
      have := hlexeme j hj
      rw [List.getElem?_eq_getElem (hinside j hj)] at this
      exact (List.getElem?_eq_some_iff.mp this).1
    rw [hasUnterminated_eq hle (hinside j hj), hasUnterminated_eq (hmono.monotone hle) hj']
    have := htoken j hj
    simp only [token?] at this
    simp only [at_, tokenIs]
    cases ht : (outlineOf text).tokens[j]? <;> cases ht' : (outlineOf text').tokens[f j]? <;> simp_all

section

variable (hmono : StrictMono f) (hfix : ∀ k < cut, f k = k)
include hmono hfix

/-- Where tokens left of a lexeme stay, so do the ends of a run there. -/
theorem tailSpan?_stays {run : List Nat}
    (hle : ∀ a z, Parentheses.ends? run = some (a, z) → a ≤ z) :
    Want.Stays cut (tailSpan? run) (tailSpan? (run.map f)) ∧
      Want.Stays cut (tailSpan? (run.map f)) (tailSpan? run) := by
  unfold tailSpan?
  rw [Parentheses.ends?_map]
  cases hends : Parentheses.ends? run with
  | none => exact ⟨.refl _ _, .refl _ _⟩
  | some ends =>
    obtain ⟨a, z⟩ := ends
    have haz := hle a z hends
    simp only [Option.map_some, Prod.map_apply]
    refine ⟨⟨fun _ => rfl, fun i j h hj => ?_⟩, ⟨fun _ => rfl, fun i j h hj => ?_⟩⟩
    · cases h
      rw [hfix z (by omega), hfix a (by omega)]
    · have hz := hmono.le_apply (x := z)
      cases h
      rw [hfix z (by omega), hfix a (by omega)]

/-- Where a block stays in front of the same gap, so does its brace. -/
theorem raise_stays (hopens : s'.opensBlock = s.opensBlock) (hlast : s'.last = f s.last)
    (hboundary : s.opensBlock → s'.boundary = s.boundary.map f)
    (hgap : ∀ b, s.opensBlock → s.boundary = some b → s.last < b ∧ (b ≤ cut → f b = b) ∧
      isBelow (between (lexemes text') (f s.last + 1) (f b)) =
        isBelow (between (lexemes text) (s.last + 1) b)) :
    Want.Stays cut (Want.raise.at? text s) (Want.raise.at? text' s') ∧
      Want.Stays cut (Want.raise.at? text' s') (Want.raise.at? text s) := by
  simp only [Want.at?, hopens, hlast]
  split_ifs with hopen
  · rw [hboundary hopen]
    cases hb : s.boundary with
    | none => exact ⟨.refl _ _, .refl _ _⟩
    | some b =>
      obtain ⟨hlt, hstay, heq⟩ := hgap b hopen hb
      simp only [Option.map_some, Option.bind_some, heq]
      split_ifs
      · refine ⟨⟨fun _ => rfl, fun i j h hj => ?_⟩, ⟨fun _ => rfl, fun i j h hj => ?_⟩⟩
        · cases h
          rw [hstay hj, hfix s.last (by omega)]
        · have hb := hmono.le_apply (x := b)
          have hlast := hmono.le_apply (x := s.last)
          have := hmono hlt
          cases h
          rw [hstay (by omega), hfix s.last (by omega)]
      · exact ⟨.refl _ _, .refl _ _⟩
  · exact ⟨.refl _ _, .refl _ _⟩

theorem finish_stays (hlast : s'.last = f s.last)
    (hlacks : Termination.lacksTerminator (outlineOf text') s' =
      Termination.lacksTerminator (outlineOf text) s) :
    Want.Stays cut (Want.finish.at? text s) (Want.finish.at? text' s') ∧
      Want.Stays cut (Want.finish.at? text' s') (Want.finish.at? text s) := by
  simp only [Want.at?, hlacks, hlast]
  split_ifs
  · refine ⟨⟨fun _ => rfl, fun i j h hj => ?_⟩, ⟨fun _ => rfl, fun i j h hj => ?_⟩⟩
    · cases h
      rw [hfix s.last (by omega)]
    · have := hmono.le_apply (x := s.last)
      cases h
      rw [hfix s.last (by omega)]
  · exact ⟨.refl _ _, .refl _ _⟩

variable (hs : s ∈ (outlineOf text).segments) (h : (outlineOf text).Alike (outlineOf text') f s.indices)
  (hindices : s'.indices = s.indices.map f) (hhead : s'.toHead = s.toHead)
  (hopens : s'.opensBlock = s.opensBlock)
include hs h hindices hhead hopens

theorem condition_stays :
    Want.Stays cut (Want.condition.at? text s) (Want.condition.at? text' s') ∧
      Want.Stays cut (Want.condition.at? text' s') (Want.condition.at? text s) := by
  have hsub := Parentheses.headerTail_subset (outlineOf text) s "if"
  simp only [Want.at?, hopens, Parentheses.headerTail_map h hindices hhead, h.isWrapped_map hsub,
    Parentheses.canWrap_map (h.subset hsub)]
  split_ifs
  · exact tailSpan?_stays hmono hfix fun a z hends => (ends_header hs hends).1
  · exact ⟨.refl _ _, .refl _ _⟩

omit hopens in
theorem classic_stays :
    Want.Stays cut (Want.classic.at? text s) (Want.classic.at? text' s') ∧
      Want.Stays cut (Want.classic.at? text' s') (Want.classic.at? text s) := by
  have hsub := Parentheses.headerTail_subset (outlineOf text) s "for"
  simp only [Want.at?, Parentheses.headerTail_map h hindices hhead,
    Parentheses.isClassic_map (h.subset hsub)]
  split_ifs
  · exact tailSpan?_stays hmono hfix fun a z hends => (ends_header hs hends).1
  · exact ⟨.refl _ _, .refl _ _⟩

end

/-- A segment of one text that stands in another one at other places, its block below it or not as
before. -/
structure Moves (text text' : Text) (f : Nat → Nat) (cut : Nat) (s s' : Segment) : Prop where
  mono : StrictMono f
  fixed : ∀ k < cut, f k = k
  alike : (outlineOf text).Alike (outlineOf text') f s.indices
  indices : s'.indices = s.indices.map f
  head : s'.toHead = s.toHead
  opens : s'.opensBlock = s.opensBlock
  boundary : s.opensBlock → s'.boundary = s.boundary.map f
  gap : ∀ b, s.opensBlock → s.boundary = some b → s.last < b ∧ (b ≤ cut → f b = b) ∧
    isBelow (between (lexemes text') (f s.last + 1) (f b)) =
      isBelow (between (lexemes text) (s.last + 1) b)

namespace Moves

variable (h : Moves text text' f cut s s') (hs : s ∈ (outlineOf text).segments)
include h hs

/-- What is wanted at such a segment is wanted in both texts. -/
theorem stays (w : Want) (hlacks : w = .finish → Termination.lacksTerminator (outlineOf text') s' =
      Termination.lacksTerminator (outlineOf text) s) :
    Want.Stays cut (w.at? text s) (w.at? text' s') ∧
      Want.Stays cut (w.at? text' s') (w.at? text s) := by
  have hlast : s'.last = f s.last := by
    have hne := ((ofTokens_sound (tokenize text) ";").segments s hs).ne_nil
    simp [Segment.last, h.indices, List.getLastD_eq_getLast?, List.getLast?_eq_some_getLast hne]
  cases w with
  | finish => exact finish_stays h.mono h.fixed hlast (hlacks rfl)
  | raise => exact raise_stays h.mono h.fixed h.opens hlast h.boundary h.gap
  | condition => exact condition_stays h.mono h.fixed hs h.alike h.indices h.head h.opens
  | classic => exact classic_stays h.mono h.fixed hs h.alike h.indices h.head

omit hs in
theorem enclosed :
    Parentheses.isEnclosedLoop (outlineOf text') (Parentheses.headerTail (outlineOf text') s' "for") =
      Parentheses.isEnclosedLoop (outlineOf text) (Parentheses.headerTail (outlineOf text) s "for") := by
  have hsub := Parentheses.headerTail_subset (outlineOf text) s "for"
  rw [Parentheses.headerTail_map h.alike h.indices h.head,
    Parentheses.isEnclosedLoop_map (h.alike.subset hsub)]

end Moves

end Rule

end HouseStyle
