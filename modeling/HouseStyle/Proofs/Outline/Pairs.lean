import HouseStyle.Proofs.Outline.Nested

/-! Bracket pairs of an outline. They nest, and in a Dyck word, where every closing mark meets the
innermost open bracket, no bracket is dropped. -/

namespace HouseStyle.Outline

/-! ### Dyck words -/

def isBracket (t : Token) : Bool := brackets.any fun pair => t.isMark pair.1 || t.isMark pair.2

/-- Tokens from an index on whose brackets form a Dyck word, and the pairs of the word. -/
inductive Dyck : Nat → List Token → List (Nat × Nat) → Prop
  | nil (i : Nat) : Dyck i [] []
  | other {i : Nat} {t : Token} {rest : List Token} {pairs : List (Nat × Nat)}
    (ht : isBracket t = false) (hrest : Dyck (i + 1) rest pairs) : Dyck i (t :: rest) pairs
  | group {i : Nat} {opener closer : Token} {inner rest : List Token}
    {inside behind : List (Nat × Nat)} {pair : Char × Char} (hpair : pair ∈ brackets)
    (hopener : opener.isMark pair.1) (hinner : Dyck (i + 1) inner inside)
    (hcloser : closer.isMark pair.2) (hrest : Dyck (i + 1 + inner.length + 1) rest behind) :
    Dyck i (opener :: (inner ++ closer :: rest)) ((i, i + 1 + inner.length) :: (inside ++ behind))

namespace Dyck

variable {i : Nat} {word : List Token} {pairs : List (Nat × Nat)}

/-- Every bracket of a Dyck word is in one of its pairs. -/
theorem exists_pair (h : Dyck i word pairs) {k : Nat} {t : Token} (ht : word[k]? = some t)
    (hbracket : isBracket t) : ∃ pair ∈ pairs, pair.1 = i + k ∨ pair.2 = i + k := by
  induction h generalizing k with
  | nil => simp at ht
  | @other i t' rest pairs ht' hrest ih =>
    cases k with
    | zero =>
      obtain rfl : t' = t := Option.some.inj ht
      rw [ht'] at hbracket
      cases hbracket
    | succ k =>
      rw [Nat.add_comm k 1, ← Nat.add_assoc]
      exact ih ht
  | @group i opener closer inner rest inside behind pair hpair hopener hinner hcloser hrest ihin
      ihrest =>
    cases k with
    | zero => exact ⟨_, List.mem_cons_self, .inl rfl⟩
    | succ k =>
      rw [List.getElem?_cons_succ] at ht
      rcases Nat.lt_trichotomy k inner.length with hk | rfl | hk
      · rw [List.getElem?_append_left hk] at ht
        obtain ⟨pair, hpair, hindex⟩ := ihin ht
        exact ⟨pair, by simp [hpair], by omega⟩
      · exact ⟨_, List.mem_cons_self, .inr (by simp only; omega)⟩
      · obtain ⟨m, rfl⟩ : ∃ m, k = inner.length + 1 + m := ⟨k - (inner.length + 1), by omega⟩
        rw [List.getElem?_append_right (by omega),
          show inner.length + 1 + m - inner.length = m + 1 by omega,
          List.getElem?_cons_succ] at ht
        obtain ⟨pair, hpair, hindex⟩ := ihrest ht
        exact ⟨pair, by simp [hpair], by omega⟩

open Scan

variable {tokens : Array Token} {end_ : Text} {following : Nat → Option Nat} {s : Scan}

/-- The opening mark of a group becomes the innermost open bracket. -/
theorem step_opener {t : Token} {pair : Char × Char} (hpair : pair ∈ brackets)
    (ht : t.isMark pair.1) (i : Nat) :
    ∃ frame, (s.step tokens end_ following i t).stack = frame :: s.stack ∧ frame.index = i ∧
      frame.closer? = some pair.2 := by
  cases @step_turn tokens end_ i t s following with
  | keep hopen =>
    rw [hopen pair hpair] at ht
    cases ht
  | opened frame hindex hmark hcloser hstack =>
    obtain ⟨c, hc⟩ := hcloser
    have hmem := (closer?_eq_some hc).1
    rw [isMark_unique hmark ht] at hmem
    have hfun : ∀ p ∈ brackets, ∀ q ∈ brackets, p.1 = q.1 → p.2 = q.2 := by decide
    obtain rfl : c = pair.2 := hfun _ hmem pair hpair rfl
    exact ⟨frame, hstack, hindex, hc⟩
  | closed above frame below hold habove hclosed =>
    obtain ⟨c, hc, hmark⟩ := hclosed
    rw [not_opening (closer?_eq_some hc).1 hmark pair hpair] at ht
    cases ht

/-- Its closing mark closes it again. -/
theorem step_closer {t : Token} {frame : Frame} {below : List Frame} {c : Char}
    (hstack : s.stack = frame :: below) (hframe : frame.closer? = some c) (ht : t.isMark c) (i : Nat) :
    (s.step tokens end_ following i t).stack = below ∧
      (s.step tokens end_ following i t).partners = (s.pair frame.index i).partners := by
  have hclosed : frame.ClosedBy t := ⟨c, hframe, ht⟩
  cases @step_turn tokens end_ i t s following with
  | keep hopen hclose => exact absurd hclosed (hclose frame (by simp [hstack]))
  | opened f hindex hmark hcloser =>
    obtain ⟨d, hd⟩ := hcloser
    rw [not_opening (closer?_eq_some hframe).1 ht _ (closer?_eq_some hd).1] at hmark
    cases hmark
  | closed above f below' hold habove hclosed' hstack' hpartners =>
    change s.stack = above ++ f :: below' at hold
    rw [hstack] at hold
    cases above with
    | nil =>
      obtain ⟨rfl, rfl⟩ := List.cons.inj hold
      exact ⟨hstack', hpartners⟩
    | cons top above =>
      obtain ⟨rfl, -⟩ := List.cons.inj hold
      exact absurd hclosed (habove frame (by simp)).2

theorem step_other {t : Token} (ht : isBracket t = false) (i : Nat) :
    (s.step tokens end_ following i t).stack = s.stack := by
  have hnot : ∀ pair ∈ brackets, t.isMark pair.1 = false ∧ t.isMark pair.2 = false := by
    simpa [isBracket] using ht
  cases @step_turn tokens end_ i t s following with
  | keep hopen hclose hstack => exact hstack
  | opened frame hindex hmark hcloser =>
    obtain ⟨c, hc⟩ := hcloser
    rw [(hnot _ (closer?_eq_some hc).1).1] at hmark
    cases hmark
  | closed above frame below hold habove hclosed =>
    obtain ⟨c, hc, hmark⟩ := hclosed
    rw [(hnot _ (closer?_eq_some hc).1).2] at hmark
    cases hmark

/-- A Dyck word leaves the stack as it was, with all its pairs made. -/
theorem run (h : Dyck i word pairs) (hs : s.Nested tokens i) (hword : Stands tokens i word) :
    (run_ tokens end_ following s i word).stack = s.stack ∧
      ∀ pair ∈ pairs,
        partnerIn (run_ tokens end_ following s i word).partners pair.1 = some pair.2 := by
  induction h generalizing s with
  | nil => exact ⟨rfl, by simp⟩
  | @other i t rest pairs ht hrest ih =>
    obtain ⟨hstack, hpairs⟩ := ih (hs.step hword.head following) hword.tail
    exact ⟨hstack.trans (step_other ht i), hpairs⟩
  | @group i opener closer inner rest inside behind pair hpair hopener hinner hcloser hrest ihin
      ihrest =>
    have hinner := hword.tail.append_left
    have hclosing := hword.tail.append_right.head
    have hrest' := hword.tail.append_right.tail
    rw [run_, run_append, run_]
    obtain ⟨frame, hframe, hindex, hmark⟩ :=
      @step_opener tokens end_ following s opener pair hpair hopener i
    have hs₁ : (s.step tokens end_ following i opener).Nested tokens (i + 1) :=
      hs.step hword.head following
    generalize s.step tokens end_ following i opener = s₁ at hframe hs₁
    obtain ⟨hstack₂, hinside⟩ := ihin hs₁ hinner
    have hs₂ : (run_ tokens end_ following s₁ (i + 1) inner).Nested tokens (i + 1 + inner.length) :=
      run_induction (fun s i t h ht => h.step ht following) hs₁ hinner
    generalize run_ tokens end_ following s₁ (i + 1) inner = s₂ at hstack₂ hinside hs₂
    obtain ⟨hstack₃, hpartners₃⟩ :=
      @step_closer tokens end_ following s₂ closer frame s.stack pair.2 (hstack₂.trans hframe) hmark
        hcloser (i + 1 + inner.length)
    have hs₃ : (s₂.step tokens end_ following (i + 1 + inner.length) closer).Nested tokens
        (i + 1 + inner.length + 1) := hs₂.step hclosing following
    have hinside₃ : ∀ pair ∈ inside,
        partnerIn (s₂.step tokens end_ following (i + 1 + inner.length) closer).partners pair.1 =
          some pair.2 :=
      fun pair hpair => (hs₂.grows hclosing (step_spec s₂ following)).kept _ _ (hinside pair hpair)
    have hgroup : partnerIn (s₂.step tokens end_ following (i + 1 + inner.length) closer).partners i =
        some (i + 1 + inner.length) := by
      have hmem : frame ∈ s₂.stack := by
        rw [hstack₂, hframe]
        exact List.mem_cons_self
      have hmade := hs₂.pair_opener (Array.getElem?_eq_some_iff.mp hclosing).1 hmem
      rw [hindex] at hmade
      rwa [hpartners₃, hindex]
    generalize s₂.step tokens end_ following (i + 1 + inner.length) closer = s₃
      at hstack₃ hs₃ hinside₃ hgroup
    obtain ⟨hstack, hbehind⟩ := ihrest hs₃ hrest'
    refine ⟨hstack.trans hstack₃, fun p hp => ?_⟩
    rcases List.mem_cons.mp hp with rfl | hp
    · exact hs₃.run_partner hrest' hgroup
    · rcases List.mem_append.mp hp with hp | hp
      · exact hs₃.run_partner hrest' (hinside₃ p hp)
      · exact hbehind p hp

end Dyck

/-! ### The pairs of an outline -/

/-- The pairs of an outline are brackets of one kind, nested in one another, and no token inside a
pair stands as high as the pair. Where the brackets form a Dyck word they are its pairs. -/
structure WellPaired (o : Outline) : Prop where
  symm : ∀ i j, o.partner? i = some j → o.partner? j = some i
  kinds : ∀ i j, o.partner? i = some j → i < j → Match o.tokens i j
  between : ∀ i j k m, o.partner? i = some j → o.partner? k = some m → i < k → k < j →
    i < m ∧ m < j
  level : ∀ i j, o.partner? i = some j → o.nestingAt i = o.nestingAt j
  deeper : ∀ i j k, o.partner? i = some j → i < k → k < j → o.nestingAt i < o.nestingAt k
  dyck : ∀ pairs, Dyck 0 o.tokens.toList pairs →
    ∀ k t, o.tokens[k]? = some t → isBracket t →
      ∃ j, o.partner? k = some j ∧ ((k, j) ∈ pairs ∨ (j, k) ∈ pairs)

section

variable {list : List Token} {end_ : Text} {i j k m : Nat}

/-- Of two partners the one in front opens what the other one closes. -/
theorem match_of_partner (h : (Outline.ofTokens list end_).partner? i = some j) :
    Match list.toArray i j ∨ Match list.toArray j i :=
  (ofTokens_sound list end_).partners i j h

theorem match_of_partner_of_lt (h : (Outline.ofTokens list end_).partner? i = some j) (hij : i < j) :
    Match list.toArray i j :=
  (match_of_partner h).resolve_right fun hmatch => hmatch.1.asymm hij

theorem partner_ne (h : (Outline.ofTokens list end_).partner? i = some j) : i ≠ j := by
  rintro rfl
  rcases match_of_partner h with hmatch | hmatch <;> exact hmatch.1.false

theorem partner_symm (h : (Outline.ofTokens list end_).partner? i = some j) :
    (Outline.ofTokens list end_).partner? j = some i := by
  rw [ofTokens_partner?] at h ⊢
  exact (Scan.scanned_nested list end_).symm i j h

/-- A pair does not come out of another one. -/
theorem partner_between (hij : (Outline.ofTokens list end_).partner? i = some j)
    (hkm : (Outline.ofTokens list end_).partner? k = some m) (hik : i < k) (hkj : k < j) :
    i < m ∧ m < j := by
  rw [ofTokens_partner?] at hij hkm
  exact (Scan.scanned_nested list end_).between hij hkm hik hkj

/-- Nor does the pair of one of its brackets. -/
theorem partner_within (hij : (Outline.ofTokens list end_).partner? i = some j)
    (hkm : (Outline.ofTokens list end_).partner? k = some m) (hik : i ≤ k) (hkj : k ≤ j) :
    i ≤ m ∧ m ≤ j := by
  rcases hik.lt_or_eq with hlt | rfl
  · rcases hkj.lt_or_eq with hlt' | rfl
    · have := partner_between hij hkm hlt hlt'
      omega
    · have := Option.some.inj ((partner_symm hij).symm.trans hkm)
      omega
  · have := Option.some.inj (hij.symm.trans hkm)
    omega

theorem nestingAt_partner (h : (Outline.ofTokens list end_).partner? i = some j) :
    (Outline.ofTokens list end_).nestingAt i = (Outline.ofTokens list end_).nestingAt j := by
  have hlevel {i j : Nat} (h : (Outline.ofTokens list end_).partner? i = some j) (hij : i < j) :
      (Outline.ofTokens list end_).nestingAt i = (Outline.ofTokens list end_).nestingAt j := by
    rw [ofTokens_partner?] at h
    rw [ofTokens_nestingAt, ofTokens_nestingAt]
    exact ((Scan.scanned_nested list end_).spans i j h hij).1
  rcases (partner_ne h).lt_or_gt with hlt | hlt
  · exact hlevel h hlt
  · exact (hlevel (partner_symm h) hlt).symm

theorem nestingAt_lt_of_between (h : (Outline.ofTokens list end_).partner? i = some j) (hik : i < k)
    (hkj : k < j) :
    (Outline.ofTokens list end_).nestingAt i < (Outline.ofTokens list end_).nestingAt k := by
  rw [ofTokens_partner?] at h
  rw [ofTokens_nestingAt, ofTokens_nestingAt]
  exact ((Scan.scanned_nested list end_).spans i j h (hik.trans hkj)).2 k hik hkj

end

/-- The outline of any token list is well paired. -/
theorem ofTokens_wellPaired (list : List Token) (end_ : Text) :
    (Outline.ofTokens list end_).WellPaired := by
  constructor
  · exact fun i j => partner_symm
  · exact fun i j => match_of_partner_of_lt
  · exact fun i j k m => partner_between
  · exact fun i j => nestingAt_partner
  · exact fun i j k => nestingAt_lt_of_between
  · intro pairs hdyck k t ht hbracket
    replace hdyck : Dyck 0 list pairs := hdyck
    replace ht : list[k]? = some t := by rwa [← List.getElem?_toArray]
    obtain ⟨pair, hmem, hk⟩ := hdyck.exists_pair ht hbracket
    have hpair : (Outline.ofTokens list end_).partner? pair.1 = some pair.2 := by
      rw [ofTokens_partner?]
      exact (hdyck.run Scan.Nested.start (.toArray list)).2 pair hmem
    rw [Nat.zero_add] at hk
    rcases hk with rfl | rfl
    · exact ⟨pair.2, hpair, .inl hmem⟩
    · exact ⟨pair.1, partner_symm hpair, .inr hmem⟩

section

variable {list : List Token} {end_ : Text} {i j : Nat}

theorem isBracket_of_match (h : Match list.toArray i j) :
    tokenIs list.toArray isBracket i ∧ tokenIs list.toArray isBracket j := by
  obtain ⟨-, pair, hpair, hopener, hcloser⟩ := h
  obtain ⟨t, ht, hopener⟩ := tokenIs_iff.mp hopener
  obtain ⟨u, hu, hcloser⟩ := tokenIs_iff.mp hcloser
  rw [tokenIs_of_getElem? ht, tokenIs_of_getElem? hu]
  exact ⟨List.any_eq_true.mpr ⟨pair, hpair, by simp [hopener]⟩,
    List.any_eq_true.mpr ⟨pair, hpair, by simp [hcloser]⟩⟩

/-- A token with a partner is a bracket. -/
theorem isBracket_of_partner (h : (Outline.ofTokens list end_).partner? i = some j) :
    (Outline.ofTokens list end_).at_ i isBracket := by
  rcases match_of_partner h with hmatch | hmatch
  · exact (isBracket_of_match hmatch).1
  · exact (isBracket_of_match hmatch).2

open Scan

/-- Tokens whose brackets have their partners among them form a Dyck word. -/
theorem exists_dyck {word : List Token} (hword : Stands list.toArray i word)
    (hclosed : ∀ k, i ≤ k → k < i + word.length → tokenIs list.toArray isBracket k →
      ∃ m, (Outline.ofTokens list end_).partner? k = some m ∧ i ≤ m ∧ m < i + word.length) :
    ∃ pairs, Dyck i word pairs := by
  induction hn : word.length using Nat.strong_induction_on generalizing i word with
  | _ n ih =>
    subst hn
    cases word with
    | nil => exact ⟨[], .nil i⟩
    | cons t rest =>
      have ht := hword.head
      rw [List.length_cons] at hclosed
      by_cases hbracket : isBracket t
      · obtain ⟨p, hp, hip, hlt⟩ := hclosed i (Nat.le_refl i) (by omega)
          (by rwa [tokenIs_of_getElem? ht])
        have hmatch : Match list.toArray i p :=
          match_of_partner_of_lt hp (lt_of_le_of_ne hip (partner_ne hp))
        obtain ⟨hlt', pair, hpair, hopener, hcloser⟩ := hmatch
        obtain ⟨d, rfl⟩ : ∃ d, p = i + 1 + d := ⟨p - (i + 1), by omega⟩
        have hd : d < rest.length := by omega
        have hsplit : rest = rest.take d ++ rest[d] :: rest.drop (d + 1) := by
          rw [← List.drop_eq_getElem_cons hd, List.take_append_drop]
        have hlength : (rest.take d).length = d := by
          rw [List.length_take, Nat.min_eq_left hd.le]
        generalize rest.take d = inner at hsplit hlength
        generalize rest.drop (d + 1) = behind at hsplit
        generalize rest[d] = closer at hsplit
        subst hsplit hlength
        simp only [List.length_append, List.length_cons] at hclosed ih
        have hstands := hword.tail
        have hclosing := hstands.append_right.head
        obtain ⟨inside, hinside⟩ := ih inner.length (by omega) hstands.append_left
          (fun k hik hk hbracket => by
            obtain ⟨m, hm, -, -⟩ := hclosed k (by omega) (by omega) hbracket
            have := partner_between hp hm (by omega) (by omega)
            exact ⟨m, hm, by omega, by omega⟩) rfl
        obtain ⟨pairs, hrest⟩ := ih behind.length (by omega) hstands.append_right.tail
          (fun k hik hk hbracket => by
            obtain ⟨m, hm, him, hmlt⟩ := hclosed k (by omega) (by omega) hbracket
            have hback := partner_symm hm
            refine ⟨m, hm, ?_, by omega⟩
            by_contra hle
            rcases Nat.lt_trichotomy m (i + 1 + inner.length) with hlt | rfl | hlt
            · rcases him.lt_or_eq with him | rfl
              · have := partner_between hp hback him hlt
                omega
              · have := Option.some.inj (hp.symm.trans hback)
                omega
            · have := Option.some.inj (hback.symm.trans (partner_symm hp))
              omega
            · omega) rfl
        refine ⟨_, .group hpair ?_ hinside ?_ hrest⟩
        · rwa [tokenIs_of_getElem? ht] at hopener
        · rwa [tokenIs_of_getElem? hclosing] at hcloser
      · obtain ⟨pairs, hrest⟩ := ih rest.length (by simp) hword.tail
          (fun k hik hk hbracket' => by
            obtain ⟨m, hm, him, hmlt⟩ := hclosed k (by omega) (by omega) hbracket'
            refine ⟨m, hm, ?_, by omega⟩
            rcases him.lt_or_eq with him | rfl
            · exact him
            · have : tokenIs list.toArray isBracket i := isBracket_of_partner (partner_symm hm)
              rw [tokenIs_of_getElem? ht] at this
              exact absurd this hbracket) rfl
        exact ⟨pairs, .other (by simpa using hbracket) hrest⟩

end

end HouseStyle.Outline
