import HouseStyle.Proofs.Outline.Forest
import HouseStyle.Proofs.Outline.Levels
import HouseStyle.Proofs.Outline.Ended

/-! Tokens that the scan passes over. White space, comments, and line breaks inside groups lead from a
state to the same state, so a list and the list without some of them have the same outline, but for
where the tokens stand. -/

namespace HouseStyle

open Outline

namespace Outline

/-! ### Outlines of tokens that stand elsewhere -/

/-- Two outlines agree on tokens that stand elsewhere in the second one. -/
structure Agrees (o o' : Outline) (f : Nat → Nat) (places : List Nat) : Prop where
  partner : ∀ i ∈ places, o'.partner? (f i) = (o.partner? i).map f
  nesting : ∀ i ∈ places, o'.nestingAt (f i) = o.nestingAt i
  segments : o'.segments = o.segments.map (Segment.rename f)
  headers : o'.headers = o.headers.map fun (b, s) => (f b, s.rename f)
  closures : o'.closures = o.closures.map f
  names : ∀ s ∈ o.segments, o'.bindingNames (s.rename f) = (o.bindingNames s).map f

/-- What agrees with one outline at other places agrees with each other. -/
theorem Agrees.of_common {o o₁ o₂ : Outline} {f₁ f₂ f : Nat → Nat} {places : List Nat}
    (h₁ : o.Agrees o₁ f₁ places) (h₂ : o.Agrees o₂ f₂ places) (hf : ∀ i, f (f₁ i) = f₂ i) :
    o₁.Agrees o₂ f (places.map f₁) := by
  have hoption (found : Option Nat) : (found.map f₁).map f = found.map f₂ := by
    simp [Option.map_map, Function.comp_def, hf]
  have hlist (indices : List Nat) : (indices.map f₁).map f = indices.map f₂ := by
    simp [Function.comp_def, hf]
  have hsegment (s : Segment) : (s.rename f₁).rename f = s.rename f₂ := by
    simp only [Segment.rename, hoption, hlist]
  constructor
  · intro i hi
    obtain ⟨k, hk, rfl⟩ := List.mem_map.mp hi
    rw [hf, h₁.partner k hk, h₂.partner k hk, hoption]
  · intro i hi
    obtain ⟨k, hk, rfl⟩ := List.mem_map.mp hi
    rw [hf, h₁.nesting k hk, h₂.nesting k hk]
  · rw [h₁.segments, h₂.segments, List.map_map]
    exact List.map_congr_left fun s _ => (hsegment s).symm
  · rw [h₁.headers, h₂.headers, List.map_map]
    refine List.map_congr_left fun header _ => ?_
    simp only [Function.comp_apply, hf, hsegment]
  · rw [h₁.closures, h₂.closures, hlist]
  · intro s hs
    rw [h₁.segments] at hs
    obtain ⟨seg, hseg, rfl⟩ := List.mem_map.mp hs
    rw [hsegment, h₁.names seg hseg, h₂.names seg hseg, hlist]

/-- The header of a block knows the brace that it opens. -/
theorem ofTokens_headers_eq (list : List Token) (end_ : Text) :
    (Outline.ofTokens list end_).headers =
      (((Scan.scanned list end_).close list.toArray { boundary := none }).segments.reverse.filter
        (·.opensBlock)).map fun s => (s.boundary.getD 0, s) := by
  have hheaded := @Scan.Headed.close list.toArray _ { boundary := none }
    (Scan.scanned_headed list end_) rfl
  have hbraces := (ofTokens_sound list end_).headers
  rw [List.filter_reverse, ← hheaded, ← List.map_reverse, List.map_map]
  change ((Scan.scanned list end_).close list.toArray { boundary := none }).headers.reverse = _
  refine (List.map_congr_left (f := id) fun header hheader => ?_).symm.trans (List.map_id _) |>.symm
  obtain ⟨b, s⟩ := header
  have := (hbraces b s hheader).2.1
  simp [this]

section

variable {list list' : List Token} {f : Nat → Nat} {end_ : Text}

/-- The scan for names looks at kinds and texts. -/
theorem namesFrom_map {word word' : List (Nat × Token)}
    (h : List.Forall₂ (fun x x' => x'.1 = f x.1 ∧ x'.2.kind = x.2.kind ∧ x'.2.text = x.2.text)
      word word')
    (b : Binding) : namesFrom b word' = (namesFrom b word).map f := by
  induction h generalizing b with
  | nil => rfl
  | @cons x x' word word' hx hword ih =>
    have hmark (c : Char) : x'.2.isMark c = x.2.isMark c := by
      simp only [Lexeme.isMark, Lexeme.isPunct, hx]
    simp only [namesFrom, hmark, hx, ih]
    split_ifs <;> simp

/-- Rows with the same kinds and texts give such words. -/
theorem forall₂_words {o o' : Outline} {row : List Nat}
    (hrow : ∀ i ∈ row, (o'.token? (f i)).map (fun t => (t.kind, t.text)) =
      (o.token? i).map fun t => (t.kind, t.text)) :
    List.Forall₂ (fun x x' => x'.1 = f x.1 ∧ x'.2.kind = x.2.kind ∧ x'.2.text = x.2.text)
      (row.filterMap fun i => (o.token? i).map (i, ·))
      ((row.map f).filterMap fun i => (o'.token? i).map (i, ·)) := by
  induction row with
  | nil => exact .nil
  | cons i row ih =>
    obtain ⟨hi, hrow⟩ := List.forall_mem_cons.mp hrow
    rw [List.map_cons, List.filterMap_cons, List.filterMap_cons]
    cases ht : o.token? i <;> cases ht' : o'.token? (f i) <;> rw [ht, ht'] at hi
    case none.none => exact ih hrow
    case some.some t t' =>
      obtain ⟨hkind, htext⟩ := Prod.mk.inj (Option.some.inj hi)
      exact .cons ⟨rfl, hkind, htext⟩ (ih hrow)
    all_goals cases hi

/-- The names bound are the same tokens, if every token stands as deep as before. -/
theorem bindingNames_rename (h : Renaming list.toArray list'.toArray f)
    (hnesting : ∀ i < list.length,
      (Outline.ofTokens list' end_).nestingAt (f i) = (Outline.ofTokens list end_).nestingAt i)
    {s : Segment} (hs : ∀ i ∈ s.indices, i < list.length) :
    (Outline.ofTokens list' end_).bindingNames (s.rename f) =
      ((Outline.ofTokens list end_).bindingNames s).map f := by
  unfold bindingNames
  change (if (["var", "let"] : List Text).contains s.keyword then _ else _) = _
  split
  case isFalse => rfl
  cases htail : s.indices.drop (s.lead + 1) with
  | nil =>
    have htail' : (s.indices.map f).drop (s.lead + 1) = [] := by rw [← List.map_drop, htail, List.map_nil]
    simp [Segment.rename, htail', namesFrom]
  | cons a tail =>
  have hlead : s.lead < s.indices.length := by
    by_contra hge
    rw [List.drop_eq_nil_of_le (by omega)] at htail
    cases htail
  have hself : (s.rename f).leadIndex = f s.leadIndex ∧ s.leadIndex ∈ s.indices := by
    simp [Segment.leadIndex, Segment.rename, hlead]
  have hin : ∀ i ∈ a :: tail, i < list.length := by
    rw [← htail]
    exact fun i hi => hs i (List.mem_of_mem_drop hi)
  have hlevel : ((s.rename f).indices.drop (s.lead + 1)).filter
      (fun i => (Outline.ofTokens list' end_).nestingAt i =
        (Outline.ofTokens list' end_).nestingAt (s.rename f).leadIndex) =
      ((a :: tail).filter fun i => (Outline.ofTokens list end_).nestingAt i =
        (Outline.ofTokens list end_).nestingAt s.leadIndex).map f := by
    change ((s.indices.map f).drop (s.lead + 1)).filter _ = _
    rw [← List.map_drop, htail, List.filter_map, hself.1, hnesting _ (hs _ hself.2)]
    congr 1
    refine List.filter_congr fun i hi => ?_
    simp only [Function.comp_apply, hnesting i (hin i hi)]
  refine namesFrom_map ?_ {}
  rw [show (s.rename f).lead = s.lead from rfl, hlevel]
  refine forall₂_words fun i _ => ?_
  have hlexeme := congrArg (Option.map fun t : Lexeme => (t.kind, t.text)) (h.lexeme i)
  rw [Option.map_map, Option.map_map] at hlexeme
  exact hlexeme

/-- Where the scan of one list mirrors that of the other one, the outlines agree. -/
theorem agrees_of_mirrors (h : Renaming list.toArray list'.toArray f)
    (hs : ((Scan.scanned list end_).close list.toArray { boundary := none }).Mirrors list.toArray
      list'.toArray f [] [] ((Scan.scanned list' end_).close list'.toArray { boundary := none }))
    (hnesting : ∀ i < list.length,
      (Outline.ofTokens list' end_).nestingAt (f i) = (Outline.ofTokens list end_).nestingAt i) :
    (Outline.ofTokens list end_).Agrees (Outline.ofTokens list' end_) f
      (List.range list.length) := by
  obtain ⟨later, hlater, hlater'⟩ := hs.segments
  rw [List.append_nil] at hlater hlater'
  rw [← hlater] at hlater'
  have hsound := (ofTokens_sound list end_).segments
  constructor
  · exact fun i _ => hs.partners i
  · exact fun i hi => hnesting i (List.mem_range.mp hi)
  · rw [ofTokens_segments, ofTokens_segments, hlater', ← List.map_reverse]
    have hfirst {s : Segment}
        (hmem : s ∈ ((Scan.scanned list end_).close list.toArray { boundary := none }).segments.reverse) :
        (s.rename f).first = f s.first := by
      have hne := (hsound s ((ofTokens_segments_perm list end_).mem_iff.mpr
        (List.mem_reverse.mp hmem))).ne_nil
      obtain ⟨i, rest, hindices⟩ := List.exists_cons_of_ne_nil hne
      simp [Segment.first, Segment.rename, hindices]
    refine (List.map_mergeSort fun a ha b hb => ?_).symm
    simp only [hfirst ha, hfirst hb, h.mono.le_iff_le]
  · have hfilter (segments : List Segment) :
        (segments.map (Segment.rename f)).filter (·.opensBlock) =
          (segments.filter (·.opensBlock)).map (Segment.rename f) := by
      rw [List.filter_map]
      rfl
    rw [ofTokens_headers_eq, ofTokens_headers_eq, hlater', ← List.map_reverse, hfilter, List.map_map,
      List.map_map]
    refine List.map_congr_left fun s hmem => ?_
    have hheader : (s.boundary.getD 0, s) ∈ (Outline.ofTokens list end_).headers := by
      rw [ofTokens_headers_eq]
      exact List.mem_map_of_mem hmem
    have hboundary := ((ofTokens_sound list end_).headers _ _ hheader).2.1
    simp only [Function.comp_apply, Segment.rename]
    rw [hboundary]
    rfl
  · rw [ofTokens_closures, ofTokens_closures, hs.closures, List.map_reverse]
  · intro s hmem
    refine bindingNames_rename h hnesting fun i hi => ?_
    obtain ⟨t, ht, -⟩ := (hsound s hmem).inOrder.loud i hi
    exact (List.getElem?_eq_some_iff.mp (List.getElem?_toArray.symm.trans ht)).1

end

/-! ### Tokens that are passed over -/

/-- A list with tokens put in that the scan passes over: white space and comments anywhere, and line
breaks where a group is open. -/
structure Thins (list list' : List Token) (end_ : Text) (f : Nat → Nat) : Prop where
  renames : Renaming list.toArray list'.toArray f
  passes : ∀ m t, list'[m]? = some t → (∀ j, f j ≠ m) →
    t.isTrivia ∧ (t.kind = .newline → (Scan.before list' end_ m).groupDepth ≠ 0)

namespace Thins

variable {list list' : List Token} {end_ : Text} {f : Nat → Nat} (h : Thins list list' end_ f)
include h

/-- Code of the longer list stands in the shorter one. -/
theorem exists_of_loud {m : Nat} (hm : Loud list'.toArray m) : ∃ j, f j = m := by
  by_contra hnot
  obtain ⟨t, ht, hcode⟩ := hm
  rw [(h.passes m t (List.getElem?_toArray.symm.trans ht) (by simpa using hnot)).1] at hcode
  cases hcode

/-- The same code follows a token. -/
theorem nextAfter_map (i : Nat) : nextAfter list' (f i) = (nextAfter list i).map f :=
  h.renames.nextAfter_map fun m _ hm hnot => by
    obtain ⟨k, hk⟩ := h.exists_of_loud hm
    exact absurd hk (hnot k)

/-- Both scans stand in front of the same token. -/
theorem mirrors_before {m j : Nat} (hm : m ≤ list'.length) (hj : ∀ k, f k < m ↔ k < j) :
    (Scan.before list end_ j).Mirrors list.toArray list'.toArray f [] []
      (Scan.before list' end_ m) := by
  have hmono := h.renames.mono
  induction m generalizing j with
  | zero =>
    obtain rfl : j = 0 := by
      by_contra hne
      exact absurd ((hj 0).mpr (by omega)) (Nat.not_lt_zero _)
    refine ⟨rfl, rfl, by simp [Scan.before_zero, Run.rename], by simp [Scan.before_zero],
      by simp [Scan.before_zero], fun j => ?_, rfl, [], rfl, rfl⟩
    rw [Scan.before_zero, Scan.before_zero, Scan.partnerIn_replicate, Scan.partnerIn_replicate]
    rfl
  | succ m ih =>
    have ht' := List.getElem?_eq_getElem (show m < list'.length by omega)
    by_cases hplace : ∃ i, f i = m
    · -- The token stands in both lists.
      obtain ⟨i, rfl⟩ := hplace
      obtain rfl : j = i + 1 := by
        have := (hj i).mp (Nat.lt_succ_self _)
        have := (hj (j - 1)).mpr (by omega)
        have := hmono.le_iff_le.mp (Nat.lt_succ_iff.mp this)
        omega
      have hs := ih (by omega) (fun k => hmono.lt_iff_lt)
      have hi : i < list.length := by
        have hlt : f i < list'.toArray.size := by
          rw [List.size_toArray]
          omega
        simpa using (h.renames.lt_size_iff i).mp hlt
      have ht := List.getElem?_eq_getElem hi
      obtain ⟨t', ht'', hlexeme⟩ := h.renames.exists_token ht
      have hnested := (@Scan.before_invariant list end_ i hi.le).nested
      rw [Scan.before_succ ht, Scan.before_succ ht'']
      refine hs.step h.renames (List.getElem?_toArray.trans ht) hlexeme (fun frame hframe => ?_)
        fun _ => h.nextAfter_map i
      have := hnested.index_lt frame hframe
      simp only [List.size_toArray]
      omega
    · -- It is passed over.
      have hs := ih (j := j) (by omega) fun k => by
        rw [← hj k]
        have : f k ≠ m := fun heq => hplace ⟨k, heq⟩
        omega
      obtain ⟨htrivia, hgroup⟩ := h.passes m _ ht' (by simpa using hplace)
      refine hs.congr rfl ?_
      rw [Scan.before_succ ht']
      by_cases hnewline : list'[m].kind = .newline
      · rw [Scan.step_newline hnewline, Scan.newline, if_neg fun hwaits => hgroup hnewline hwaits.1]
        rfl
      · rw [Scan.step_trivia htrivia hnewline]
        rfl

theorem nestingAt_eq {i : Nat} (hi : i < list.length) :
    (Outline.ofTokens list' end_).nestingAt (f i) = (Outline.ofTokens list end_).nestingAt i := by
  have hmono := h.renames.mono
  have hi' : f i < list'.length := by
    simpa using (h.renames.lt_size_iff i).mpr (by simpa using hi)
  have hbefore := h.mirrors_before hi'.le fun k => hmono.lt_iff_lt
  have hbehind := h.mirrors_before (m := f i + 1) (j := i + 1) hi' fun k => by
    rw [Nat.lt_succ_iff, Nat.lt_succ_iff, hmono.le_iff_le]
  rw [Scan.ofTokens_nestingAt_eq_min hi', Scan.ofTokens_nestingAt_eq_min hi, hbefore.stack,
    hbehind.stack, List.length_map, List.length_map]

/-- The outlines agree on the tokens of both lists. -/
theorem agrees : (Outline.ofTokens list end_).Agrees (Outline.ofTokens list' end_) f
    (List.range list.length) := by
  refine agrees_of_mirrors h.renames ?_ fun i hi => h.nestingAt_eq hi
  have hs := h.mirrors_before (Nat.le_refl list'.length) (j := list.length) fun k => by
    simpa using h.renames.lt_size_iff k
  rw [Scan.before_length, Scan.before_length] at hs
  exact hs.close h.renames { boundary := none }

/-- No token that is passed over has a partner. -/
theorem exists_of_partner {m n : Nat} (hm : (Outline.ofTokens list' end_).partner? m = some n) :
    ∃ j, f j = m := by
  refine h.exists_of_loud ?_
  rcases (ofTokens_sound list' end_).partners m n hm with ⟨-, pair, -, hmark, -⟩ |
    ⟨-, pair, -, -, hmark⟩
  all_goals
    obtain ⟨t, ht, hmark⟩ := tokenIs_iff.mp hmark
    exact ⟨t, ht, Scan.not_isTrivia hmark⟩

end Thins

end Outline
end HouseStyle
