import HouseStyle.Proofs.Outline.Born

/-! How deep tokens stand. The depth that an outline notes for a token is the smaller of the numbers
of brackets open before and behind it, so it stays the same from one token to the next as long as
the first opens nothing and the second closes nothing. In a row of neighbours with their brackets
paired among them, the tokens on the level of the row are those outside the pairs. -/

namespace HouseStyle.Outline

namespace Scan

variable {list : List Token} {end_ : Text} {i j k : Nat} {t : Token}

/-! ### One token -/

section

variable {tokens : Array Token} {s : Scan}

/-- A step notes the depth of its token and leaves those before it. -/
theorem Nested.level_step (h : s.Nested tokens i) (following : Nat → Option Nat) :
    level (s.step tokens end_ following i t).nesting i =
        min s.stack.length (s.step tokens end_ following i t).stack.length ∧
      ∀ k < i, level (s.step tokens end_ following i t).nesting k = level s.nesting k := by
  cases @step_turn tokens end_ i t s following with
  | keep hopen hclose hstack hpartners hnesting =>
    rw [hnesting, hstack]
    exact ⟨by rw [h.level_push_self, Nat.min_self], fun k => h.level_push _⟩
  | opened frame hindex hmark hcloser hstack hpartners hnesting =>
    replace hstack : (s.step tokens end_ following i t).stack = frame :: s.stack := hstack
    rw [hnesting, hstack]
    exact ⟨by rw [h.level_push_self, List.length_cons]; omega, fun k => h.level_push _⟩
  | closed above frame below hold habove hclosed hstack hpartners hnesting =>
    obtain ⟨hbefore, hself⟩ := h.level_closed s.stack.length below.length
    replace hold : s.stack = above ++ frame :: below := hold
    rw [hnesting, hstack]
    refine ⟨?_, hbefore⟩
    rw [hself, hold, List.length_append, List.length_cons]
    omega

/-- A token that opens nothing leaves no more brackets open. -/
theorem stack_length_le (hopen : ∀ pair ∈ brackets, t.isMark pair.1 = false) (s : Scan)
    (following : Nat → Option Nat) (i : Nat) :
    (s.step tokens end_ following i t).stack.length ≤ s.stack.length := by
  cases @step_turn tokens end_ i t s following with
  | keep _ _ hstack => exact (congrArg List.length hstack).le
  | opened frame hindex hmark hcloser =>
    obtain ⟨c, hc⟩ := hcloser
    rw [hopen _ (closer?_eq_some hc).1] at hmark
    cases hmark
  | closed above frame below hold habove hclosed hstack =>
    replace hold : s.stack = above ++ frame :: below := hold
    rw [hstack, hold, List.length_append, List.length_cons]
    omega

/-- A token that closes nothing leaves no fewer. -/
theorem le_stack_length (hclose : ∀ pair ∈ brackets, t.isMark pair.2 = false) (s : Scan)
    (following : Nat → Option Nat) (i : Nat) :
    s.stack.length ≤ (s.step tokens end_ following i t).stack.length := by
  cases @step_turn tokens end_ i t s following with
  | keep _ _ hstack => exact (congrArg List.length hstack).ge
  | opened frame hindex hmark hcloser hstack =>
    rw [hstack, List.length_cons]
    exact Nat.le_succ _
  | closed above frame below hold habove hclosed =>
    obtain ⟨c, hc, hmark⟩ := hclosed
    rw [hclose _ (closer?_eq_some hc).1] at hmark
    cases hmark

end

/-! ### The levels of an outline -/

theorem level_before (hij : i < j) (hj : j ≤ list.length) :
    level (before list end_ j).nesting i =
      min (before list end_ i).stack.length (before list end_ (i + 1)).stack.length := by
  induction j, hij using Nat.le_induction with
  | base =>
    rw [before_succ (List.getElem?_eq_getElem hj)]
    exact ((before_invariant (by omega)).nested.level_step _).1
  | succ j hij ih =>
    rw [before_succ (List.getElem?_eq_getElem hj),
      ((before_invariant (by omega)).nested.level_step _).2 i hij]
    exact ih (by omega)

/-- A token stands as deep as there are brackets open before it and behind it. -/
theorem ofTokens_nestingAt_eq_min (hi : i < list.length) :
    (Outline.ofTokens list end_).nestingAt i =
      min (before list end_ i).stack.length (before list end_ (i + 1)).stack.length := by
  rw [ofTokens_nestingAt, ← before_length]
  exact level_before hi (Nat.le_refl _)

/-- Between neighbours no bracket opens or closes. -/
theorem stack_before_of_quiet (hquiet : Quiet list.toArray i j) (hij : i < j)
    (hj : j ≤ list.length) : (before list end_ j).stack = (before list end_ (i + 1)).stack := by
  induction j, hij using Nat.le_induction with
  | base => rfl
  | succ j hij ih =>
    rw [← ih (fun k h₁ h₂ => hquiet k h₁ (by omega)) (by omega)]
    obtain ⟨t, ht, htrivia⟩ := tokenIs_iff.mp (hquiet j hij (Nat.lt_succ_self j))
    rw [before_succ (List.getElem?_toArray.symm.trans ht)]
    cases @step_turn list.toArray end_ j t (before list end_ j) (nextAfter list) with
    | keep _ _ hstack => exact hstack
    | opened frame hindex hmark hcloser =>
      rw [not_isTrivia hmark] at htrivia
      cases htrivia
    | closed above frame below hold habove hclosed =>
      exact absurd hclosed (not_closedBy_of_trivia htrivia frame)

/-- Neighbours stand equally deep unless the first opens a bracket or the second closes one. -/
theorem ofTokens_nestingAt_eq {t u : Token} (hquiet : Quiet list.toArray i j) (hij : i < j)
    (hi : list[i]? = some t) (hj : list[j]? = some u)
    (hopen : ∀ pair ∈ brackets, t.isMark pair.1 = false)
    (hclose : ∀ pair ∈ brackets, u.isMark pair.2 = false) :
    (Outline.ofTokens list end_).nestingAt j = (Outline.ofTokens list end_).nestingAt i := by
  have hlt := (List.getElem?_eq_some_iff.mp hj).1
  rw [ofTokens_nestingAt_eq_min hlt, ofTokens_nestingAt_eq_min (hij.trans hlt),
    stack_before_of_quiet hquiet hij hlt.le]
  have hbehind := @le_stack_length end_ u list.toArray hclose (before list end_ j) (nextAfter list) j
  have hbefore := @stack_length_le end_ t list.toArray hopen (before list end_ i) (nextAfter list) i
  rw [← before_succ hj, stack_before_of_quiet hquiet hij hlt.le] at hbehind
  rw [← before_succ hi] at hbefore
  omega

end Scan

/-! ### Rows -/

/-- Whether an index stands between a bracket of a row and its partner. -/
def Enclosed (o : Outline) (row : List Nat) (m : Nat) : Prop :=
  ∃ g ∈ row, ∃ h ∈ o.partner? g, g < m ∧ m < h

instance (o : Outline) (row : List Nat) (m : Nat) : Decidable (Enclosed o row m) :=
  inferInstanceAs (Decidable (∃ g ∈ row, ∃ h ∈ o.partner? g, g < m ∧ m < h))

/-- Each member of a list but the first has a neighbour before it. -/
theorem exists_adjacent {a m : Nat} {row : List Nat} (hm : m ∈ row) : ∃ p, [p, m] <:+: a :: row := by
  obtain ⟨us, vs, rfl⟩ := List.append_of_mem hm
  rcases List.eq_nil_or_concat (a :: us) with hnil | ⟨us', p, heq⟩
  · cases hnil
  · refine ⟨p, us', vs, ?_⟩
    rw [← List.cons_append, heq]
    simp

section

variable {list : List Token} {end_ : Text} {i j : Nat}

/-- An opening bracket has its partner behind it. -/
theorem lt_partner_of_opening (hij : (Outline.ofTokens list end_).partner? i = some j)
    {pair : Char × Char} (hpair : pair ∈ brackets)
    (hmark : tokenIs list.toArray (·.isMark pair.1) i) : i < j := by
  rcases (ofTokens_sound list end_).partners i j hij with hmatch | ⟨-, pair', hpair', -, hcloser⟩
  · exact hmatch.1
  · obtain ⟨t, ht, hmark⟩ := tokenIs_iff.mp hmark
    obtain ⟨u, hu, hcloser⟩ := tokenIs_iff.mp hcloser
    obtain rfl := Option.some.inj (ht.symm.trans hu)
    rw [Scan.not_opening hpair' hcloser pair hpair] at hmark
    cases hmark

/-- A closing bracket has its partner before it. -/
theorem partner_lt_of_closing (hij : (Outline.ofTokens list end_).partner? i = some j)
    {pair : Char × Char} (hpair : pair ∈ brackets)
    (hmark : tokenIs list.toArray (·.isMark pair.2) i) : j < i := by
  rcases (ofTokens_sound list end_).partners i j hij with ⟨hlt, pair', hpair', hopener, -⟩ | hmatch
  · obtain ⟨t, ht, hmark⟩ := tokenIs_iff.mp hmark
    obtain ⟨u, hu, hopener⟩ := tokenIs_iff.mp hopener
    obtain rfl := Option.some.inj (ht.symm.trans hu)
    rw [Scan.not_opening hpair hmark pair' hpair'] at hopener
    cases hopener
  · exact hmatch.1

end

section

variable {list : List Token} {end_ : Text} {a : Nat} {row : List Nat}
  (hchain : (a :: row).IsChain (Linked (Outline.ofTokens list end_).tokens
    (Outline.ofTokens list end_).partners (Outline.ofTokens list end_).closures))
  (hloud : ∀ m ∈ a :: row, Loud (Outline.ofTokens list end_).tokens m)
  (hplain : (Outline.ofTokens list end_).at_ a isBracket = false)
  (hpaired : ∀ m ∈ row, (Outline.ofTokens list end_).at_ m isBracket →
    ∃ h ∈ row, (Outline.ofTokens list end_).partner? m = some h)
include hchain hloud hplain hpaired

/-- Behind a token that is no bracket, in a row with its brackets paired, nothing stands less deep than
the token, and what is outside the pairs stands as deep. -/
theorem nestingAt_row {m : Nat} (hm : m ∈ row) :
    (Outline.ofTokens list end_).nestingAt a ≤ (Outline.ofTokens list end_).nestingAt m ∧
      (¬(Outline.ofTokens list end_).Enclosed row m →
        (Outline.ofTokens list end_).nestingAt m = (Outline.ofTokens list end_).nestingAt a) := by
  have hsorted : (a :: row).Pairwise (· < ·) :=
    List.isChain_iff_pairwise.mp (hchain.imp fun _ _ h => h.1)
  have hbracket {k : Nat} {t : Token} (ht : list[k]? = some t) :
      (Outline.ofTokens list end_).at_ k isBracket = isBracket t :=
    tokenIs_of_getElem? (List.getElem?_toArray.trans ht)
  have hat {k : Nat} {t : Token} {c : Char} (ht : list[k]? = some t) :
      tokenIs list.toArray (·.isMark c) k = t.isMark c :=
    tokenIs_of_getElem? (List.getElem?_toArray.trans ht)
  induction m using Nat.strong_induction_on with
  | _ m ih =>
  obtain ⟨p, hadj⟩ := exists_adjacent (a := a) hm
  have hlinked : Linked _ _ _ p m := rel_of_adjacent hchain hadj
  have hp := (mem_of_adjacent hadj).1
  obtain ⟨t, ht, -⟩ := hloud p hp
  obtain ⟨u, hu, -⟩ := hloud m (List.mem_cons_of_mem a hm)
  replace ht : list[p]? = some t := List.getElem?_toArray.symm.trans ht
  replace hu : list[m]? = some u := List.getElem?_toArray.symm.trans hu
  by_cases hcloses : ∃ pair ∈ brackets, u.isMark pair.2
  · -- A closing bracket stands as deep as its partner, and inside the same pairs.
    obtain ⟨pair, hpair, hmark⟩ := hcloses
    have hisBracket : isBracket u := List.any_eq_true.mpr ⟨pair, hpair, by simp [hmark]⟩
    obtain ⟨g, hg, hgm⟩ := hpaired m hm ((hbracket hu).trans hisBracket)
    have hlt := partner_lt_of_closing hgm hpair ((hat hu).trans hmark)
    obtain ⟨hle, hlevel⟩ := ih g hlt hg
    rw [nestingAt_partner hgm]
    refine ⟨hle, fun houtside => hlevel ?_⟩
    rintro ⟨b, hb, c, hbc, hbg, hgc⟩
    have := partner_between hbc (partner_symm hgm) hbg hgc
    exact houtside ⟨b, hb, c, hbc, this⟩
  have hclose : ∀ pair ∈ brackets, u.isMark pair.2 = false := by simpa using hcloses
  -- So the partner of no bracket of the row is the token at hand.
  have hne {b c : Nat} (hbc : (Outline.ofTokens list end_).partner? b = some c) (hlt : b < c) :
      c ≠ m := by
    rintro rfl
    obtain ⟨-, pair, hpair, -, hcloser⟩ := match_of_partner_of_lt hbc hlt
    have hmark := (hat hu).symm.trans hcloser
    rw [hclose pair hpair] at hmark
    cases hmark
  by_cases hopens : ∃ pair ∈ brackets, t.isMark pair.1
  · -- Behind an opening bracket the row is inside its pair.
    obtain ⟨pair, hpair, hmark⟩ := hopens
    have hisBracket : isBracket t := List.any_eq_true.mpr ⟨pair, hpair, by simp [hmark]⟩
    have hprow : p ∈ row := by
      refine (List.mem_cons.mp hp).resolve_left ?_
      rintro rfl
      rw [hbracket ht, hisBracket] at hplain
      cases hplain
    obtain ⟨q, hq, hpq⟩ := hpaired p hprow ((hbracket ht).trans hisBracket)
    have hlt := lt_partner_of_opening hpq hpair ((hat ht).trans hmark)
    have hmq : m < q := by
      have := le_or_le_of_adjacent hsorted hadj (List.mem_cons_of_mem a hq)
      have := hne hpq hlt
      omega
    have hdeeper := nestingAt_lt_of_between hpq hlinked.1 hmq
    exact ⟨(ih p hlinked.1 hprow).1.trans hdeeper.le,
      fun houtside => absurd ⟨p, hprow, q, hpq, hlinked.1, hmq⟩ houtside⟩
  have hopen : ∀ pair ∈ brackets, t.isMark pair.1 = false := by simpa using hopens
  -- Else it stands as deep as its neighbour, and inside the same pairs.
  have hsame : (Outline.ofTokens list end_).nestingAt m = (Outline.ofTokens list end_).nestingAt p := by
    obtain ⟨hlt, hquiet | ⟨-, hclosure⟩⟩ := hlinked
    · exact Scan.ofTokens_nestingAt_eq hquiet hlt ht hu hopen hclose
    · exact absurd rfl (hne hclosure hlt)
  rw [hsame]
  rcases List.mem_cons.mp hp with rfl | hprow
  · exact ⟨Nat.le_refl _, fun _ => rfl⟩
  obtain ⟨hle, hlevel⟩ := ih p hlinked.1 hprow
  refine ⟨hle, fun houtside => hlevel ?_⟩
  rintro ⟨b, hb, c, hbc, hbp, hpc⟩
  have hc : c ∈ row := by
    have hisBracket : (Outline.ofTokens list end_).at_ b isBracket := by
      obtain ⟨-, pair, hpair, hopener, -⟩ := match_of_partner_of_lt hbc (hbp.trans hpc)
      obtain ⟨v, hv, hmark⟩ := tokenIs_iff.mp hopener
      exact tokenIs_iff.mpr ⟨v, hv, List.any_eq_true.mpr ⟨pair, hpair, by simp [hmark]⟩⟩
    obtain ⟨c', hc', hbc'⟩ := hpaired b hb hisBracket
    rwa [Option.some.inj (hbc.symm.trans hbc')]
  have := le_or_le_of_adjacent hsorted hadj (List.mem_cons_of_mem a hc)
  have := hne hbc (hbp.trans hpc)
  exact houtside ⟨b, hb, c, hbc, hbp.trans hlinked.1, by omega⟩

/-- What is outside the pairs of a row is what stands on its level. -/
theorem nestingAt_row_eq_iff {m : Nat} (hm : m ∈ row) :
    (Outline.ofTokens list end_).nestingAt m = (Outline.ofTokens list end_).nestingAt a ↔
      ¬(Outline.ofTokens list end_).Enclosed row m := by
  refine ⟨?_, (nestingAt_row hchain hloud hplain hpaired hm).2⟩
  rintro hlevel ⟨g, hg, h, hgh, hgm, hmh⟩
  have hle := (nestingAt_row hchain hloud hplain hpaired hg).1
  have := nestingAt_lt_of_between hgh hgm hmh
  omega

end

/-! ### Dyck words -/

section

open Scan

variable {list list' : List Token} {end_ : Text}

/-- The tokens of a Dyck word stand above each other as they do wherever else the word stands. -/
theorem Dyck.nestingAt_shift {i i' : Nat} {word word' : List Token} {pairs : List (Nat × Nat)}
    (h : Dyck i word pairs) (hword : Stands list.toArray i word) (hword' : Stands list'.toArray i' word')
    (hsame : word'.map (·.toLexeme) = word.map (·.toLexeme)) :
    ((before list end_ (i + word.length)).stack = (before list end_ i).stack ∧
      (before list' end_ (i' + word.length)).stack = (before list' end_ i').stack) ∧
    ∀ k < word.length, (Outline.ofTokens list' end_).nestingAt (i' + k) +
        (before list end_ i).stack.length =
      (Outline.ofTokens list end_).nestingAt (i + k) + (before list' end_ i').stack.length := by
  induction h generalizing i' word' with
  | nil => exact ⟨⟨rfl, rfl⟩, by simp⟩
  | @other i t rest pairs ht hrest ih =>
    obtain ⟨t', rest', rfl, hlexeme, hrest'⟩ := List.map_eq_cons_iff.mp hsame
    have htoken := List.getElem?_toArray.symm.trans hword.head
    have htoken' := List.getElem?_toArray.symm.trans hword'.head
    have hother' : isBracket t' = false := by
      rw [← ht, isBracket, isBracket, hlexeme]
    have hkept := @Dyck.step_other list.toArray end_ (nextAfter list) (before list end_ i) t ht i
    have hkept' := @Dyck.step_other list'.toArray end_ (nextAfter list') (before list' end_ i') t'
      hother' i'
    rw [← before_succ htoken] at hkept
    rw [← before_succ htoken'] at hkept'
    obtain ⟨⟨hstack, hstack'⟩, hlevels⟩ := ih hword.tail hword'.tail hrest'
    rw [hkept] at hstack hlevels
    rw [hkept'] at hstack' hlevels
    rw [List.length_cons, Nat.add_comm rest.length 1, ← Nat.add_assoc, ← Nat.add_assoc]
    refine ⟨⟨hstack, hstack'⟩, fun k hk => ?_⟩
    cases k with
    | zero =>
      rw [Nat.add_zero, Nat.add_zero, ofTokens_nestingAt_eq_min (List.getElem?_eq_some_iff.mp htoken).1,
        ofTokens_nestingAt_eq_min (List.getElem?_eq_some_iff.mp htoken').1, hkept, hkept']
      omega
    | succ k =>
      rw [Nat.add_comm k 1, ← Nat.add_assoc, ← Nat.add_assoc]
      exact hlevels k (by omega)
  | @group i opener closer inner rest inside behind pair hpair hopener hinner hcloser hrest ihin
      ihrest =>
    obtain ⟨opener', behind', rfl, hopen, hbehind⟩ := List.map_eq_cons_iff.mp hsame
    obtain ⟨inner', closed', rfl, hinner', hclosed⟩ :=
      List.map_eq_append_iff.mp (hbehind.trans (List.map_append ..))
    obtain ⟨closer', rest', rfl, hclose, hrest'⟩ := List.map_eq_cons_iff.mp hclosed
    have hlength : inner'.length = inner.length := by
      rw [← List.length_map (·.toLexeme), hinner', List.length_map]
    have htoken := List.getElem?_toArray.symm.trans hword.head
    have htoken' := List.getElem?_toArray.symm.trans hword'.head
    have hclosing := List.getElem?_toArray.symm.trans hword.tail.append_right.head
    have hclosing' := List.getElem?_toArray.symm.trans hword'.tail.append_right.head
    obtain ⟨frame, hframe, -, hmark⟩ := @step_opener list.toArray end_ (nextAfter list)
      (before list end_ i) opener pair hpair hopener i
    obtain ⟨frame', hframe', -, hmark'⟩ := @step_opener list'.toArray end_ (nextAfter list')
      (before list' end_ i') opener' pair hpair (by rwa [hopen]) i'
    rw [← before_succ htoken] at hframe
    rw [← before_succ htoken'] at hframe'
    obtain ⟨⟨hkept, hkept'⟩, hinside⟩ := ihin hword.tail.append_left hword'.tail.append_left hinner'
    have hbelow := (@step_closer list.toArray end_ (nextAfter list) _ closer frame _ _
      (hkept.trans hframe) hmark hcloser (i + 1 + inner.length)).1
    rw [hlength] at hclosing'
    have hbelow' := (@step_closer list'.toArray end_ (nextAfter list') _ closer' frame' _ _
      (hkept'.trans hframe') hmark' (by rwa [hclose]) (i' + 1 + inner.length)).1
    rw [← before_succ hclosing] at hbelow
    rw [← before_succ hclosing'] at hbelow'
    obtain ⟨⟨hstack, hstack'⟩, hlevels⟩ := ihrest hword.tail.append_right.tail
      (hlength ▸ hword'.tail.append_right.tail) hrest'
    rw [hbelow] at hstack hlevels
    rw [hbelow'] at hstack' hlevels
    have hend {i : Nat} : i + (opener :: (inner ++ closer :: rest)).length =
        i + 1 + inner.length + 1 + rest.length := by
      simp only [List.length_cons, List.length_append]
      omega
    rw [hend, hend]
    refine ⟨⟨hstack, hstack'⟩, fun k hk => ?_⟩
    have hmin := fun k => @ofTokens_nestingAt_eq_min list end_ k
    have hmin' := fun k => @ofTokens_nestingAt_eq_min list' end_ k
    rcases Nat.lt_trichotomy k (inner.length + 1) with hlt | rfl | hgt
    · cases k with
      | zero =>
        rw [Nat.add_zero, Nat.add_zero, hmin _ (List.getElem?_eq_some_iff.mp htoken).1,
          hmin' _ (List.getElem?_eq_some_iff.mp htoken').1, hframe, hframe', List.length_cons,
          List.length_cons]
        omega
      | succ k =>
        have := hinside k (by omega)
        rw [hframe, hframe', List.length_cons, List.length_cons] at this
        rw [Nat.add_comm k 1, ← Nat.add_assoc, ← Nat.add_assoc]
        omega
    · rw [Nat.add_comm inner.length 1, ← Nat.add_assoc, ← Nat.add_assoc,
        hmin _ (List.getElem?_eq_some_iff.mp hclosing).1,
        hmin' _ (List.getElem?_eq_some_iff.mp hclosing').1, hbelow, hbelow', hkept, hkept', hframe,
        hframe', List.length_cons, List.length_cons]
      omega
    · obtain ⟨m, rfl⟩ : ∃ m, k = 1 + inner.length + 1 + m := ⟨k - (1 + inner.length + 1), by omega⟩
      simp only [List.length_cons, List.length_append] at hk
      simpa only [Nat.add_assoc] using hlevels m (by omega)

/-- In a Dyck word all that was open before stays open. -/
theorem Dyck.exists_top {i : Nat} {word : List Token} {pairs : List (Nat × Nat)}
    (h : Dyck i word pairs) (hword : Stands list.toArray i word) {m : Nat} (hm : m ≤ word.length) :
    ∃ top, (before list end_ (i + m)).stack = top ++ (before list end_ i).stack := by
  induction h generalizing m with
  | nil i =>
    obtain rfl : m = 0 := by simpa using hm
    exact ⟨[], rfl⟩
  | @other i t rest pairs ht hrest ih =>
    cases m with
    | zero => exact ⟨[], rfl⟩
    | succ m =>
      have htoken := List.getElem?_toArray.symm.trans hword.head
      have hkept := @Dyck.step_other list.toArray end_ (nextAfter list) (before list end_ i) t ht i
      rw [← before_succ htoken] at hkept
      obtain ⟨top, htop⟩ := ih hword.tail (show m ≤ rest.length by simpa using hm)
      rw [hkept] at htop
      exact ⟨top, by rwa [Nat.add_comm m 1, ← Nat.add_assoc]⟩
  | @group i opener closer inner rest inside behind pair hpair hopener hinner hcloser hrest ihin
      ihrest =>
    have htoken := List.getElem?_toArray.symm.trans hword.head
    have hclosing := List.getElem?_toArray.symm.trans hword.tail.append_right.head
    obtain ⟨frame, hframe, -, hmark⟩ := @step_opener list.toArray end_ (nextAfter list)
      (before list end_ i) opener pair hpair hopener i
    rw [← before_succ htoken] at hframe
    have hkept := (@nestingAt_shift list list end_ _ _ _ _ _ hinner hword.tail.append_left
      hword.tail.append_left rfl).1.1
    have hbelow := (@step_closer list.toArray end_ (nextAfter list) _ closer frame _ _
      (hkept.trans hframe) hmark hcloser (i + 1 + inner.length)).1
    rw [← before_succ hclosing] at hbelow
    simp only [List.length_cons, List.length_append] at hm
    rcases Nat.lt_or_ge (inner.length + 1) m with hlt | hge
    · obtain ⟨d, rfl⟩ : ∃ d, m = 1 + inner.length + 1 + d := ⟨m - (1 + inner.length + 1), by omega⟩
      obtain ⟨top, htop⟩ := ihrest hword.tail.append_right.tail (show d ≤ rest.length by omega)
      rw [hbelow] at htop
      exact ⟨top, by simpa only [Nat.add_assoc] using htop⟩
    · cases m with
      | zero => exact ⟨[], rfl⟩
      | succ m =>
        obtain ⟨top, htop⟩ := ihin hword.tail.append_left (show m ≤ inner.length by omega)
        rw [hframe] at htop
        refine ⟨top ++ [frame], ?_⟩
        rw [Nat.add_comm m 1, ← Nat.add_assoc, htop]
        simp

end

end HouseStyle.Outline
