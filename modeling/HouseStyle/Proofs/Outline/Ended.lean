import HouseStyle.Proofs.Outline.Born
import HouseStyle.Proofs.Outline.Renamed

/-! A semicolon behind a segment that has none. The scan of the longer list mirrors that of the old
one up to the semicolon, which ends the run there; the run that the old scan still waits to cut off
is over in the new one, and from where it is cut off on the scans mirror each other again. -/

namespace HouseStyle

/-- The segment with an end of its own. -/
def Segment.endAt (s : Segment) (b : Nat) : Segment :=
  { s with boundary := some b, terminated := true }

namespace Outline

/-! ### The tokens of both lists -/

namespace Renaming

variable {list list' : List Token} {f : Nat → Nat} (h : Renaming list.toArray list'.toArray f)
include h

theorem loud_iff {j : Nat} : Loud list'.toArray (f j) ↔ Loud list.toArray j := by
  have hj := h.lexeme j
  unfold Loud
  cases ht : list.toArray[j]? <;> cases ht' : list'.toArray[f j]? <;> simp_all

theorem exists_token {j : Nat} {t : Token} (ht : list[j]? = some t) :
    ∃ t', list'[f j]? = some t' ∧ t'.toLexeme = t.toLexeme := by
  have hj := h.lexeme j
  rw [List.getElem?_toArray, List.getElem?_toArray, ht] at hj
  exact Option.map_eq_some_iff.mp hj

/-- The same token follows as before, where no new code stands in front of it. -/
theorem nextAfter_map {i : Nat}
    (hnew : ∀ m, f i < m → Loud list'.toArray m → (∀ k, f k ≠ m) →
      ∃ k, Loud list.toArray k ∧ i < k ∧ f k < m) :
    nextAfter list' (f i) = (nextAfter list i).map f := by
  have hmono := h.mono
  have htrivia (m : Nat) := h.tokenIs_map (·.isTrivia) m
  have hcode {k : Nat} (hk : Loud list.toArray k) : ¬tokenIs list.toArray (·.isTrivia) k := by
    obtain ⟨t, ht, hcode⟩ := hk
    simp [tokenIs_of_getElem? ht, hcode]
  ext m
  rw [Option.map_eq_some_iff, nextAfter_eq_some]
  constructor
  · rintro ⟨him, hm, hquiet⟩
    obtain ⟨j, rfl⟩ : ∃ j, f j = m := by
      by_contra hnot
      obtain ⟨k, hk, hik, hkm⟩ := hnew m him hm (by simpa using hnot)
      have := hquiet (f k) (hmono hik) hkm
      rw [htrivia] at this
      exact hcode hk this
    refine ⟨j, nextAfter_eq_some.mpr ⟨hmono.lt_iff_lt.mp him, h.loud_iff.mp hm, fun k hik hkj => ?_⟩,
      rfl⟩
    rw [← htrivia]
    exact hquiet _ (hmono hik) (hmono hkj)
  · rintro ⟨j, hj, rfl⟩
    obtain ⟨hij, hloud, hquiet⟩ := nextAfter_eq_some.mp hj
    refine ⟨hmono hij, h.loud_iff.mpr hloud, fun m him hmj => ?_⟩
    by_cases hm : ∃ k, f k = m
    · obtain ⟨k, rfl⟩ := hm
      rw [htrivia]
      exact hquiet k (hmono.lt_iff_lt.mp him) (hmono.lt_iff_lt.mp hmj)
    · obtain ⟨u, hu, -⟩ := h.loud_iff.mpr hloud
      have hlt : m < list'.toArray.size := hmj.trans (Array.getElem?_eq_some_iff.mp hu).1
      have ht := Array.getElem?_eq_getElem hlt
      by_contra hnot
      rw [tokenIs_of_getElem? ht] at hnot
      obtain ⟨k, hk, hik, hkm⟩ := hnew m him ⟨_, ht, by simpa using hnot⟩ (by simpa using hm)
      exact hcode hk (hquiet k hik (hmono.lt_iff_lt.mp (hkm.trans hmj)))

end Renaming

/-! ### One token more -/

/-- Where tokens stand when another one is put in behind the token at an index. -/
def shift (l j : Nat) : Nat := if j ≤ l then j else j + 1

section

variable {l j m : Nat}

theorem shift_of_le (h : j ≤ l) : shift l j = j := if_pos h

theorem shift_of_lt (h : l < j) : shift l j = j + 1 := if_neg (by omega)

theorem shift_strictMono (l : Nat) : StrictMono (shift l) := by
  intro i j hij
  unfold shift
  split_ifs <;> omega

theorem exists_shift (h : m ≠ l + 1) : ∃ j, shift l j = m := by
  rcases Nat.lt_or_gt_of_ne h with hlt | hgt
  · exact ⟨m, shift_of_le (by omega)⟩
  · exact ⟨m - 1, by rw [shift_of_lt (by omega)]; omega⟩

end

/-- A list with a semicolon put in behind the token at an index. -/
structure Inserts (list list' : List Token) (l : Nat) : Prop where
  length : list'.length = list.length + 1
  renames : Renaming list.toArray list'.toArray (shift l)
  semicolon : ∃ t, list'[l + 1]? = some t ∧ t.isMark ';' ∧ t.unterminated = false

namespace Inserts

variable {list list' : List Token} {l i j : Nat} (h : Inserts list list' l)
include h

/-- What follows a token is the same token as before, unless the semicolon comes right behind it. -/
theorem nextAfter_shift (hl : Loud list.toArray l) (hi : i ≠ l) :
    nextAfter list' (shift l i) = (nextAfter list i).map (shift l) := by
  refine h.renames.nextAfter_map fun m him _ hm => ⟨l, hl, ?_⟩
  obtain rfl : m = l + 1 := by
    by_contra hne
    obtain ⟨j, hj⟩ := exists_shift hne
    exact hm j hj
  rw [shift_of_le (Nat.le_refl l)]
  unfold shift at him
  split_ifs at him <;> omega

end Inserts

namespace Scan

variable {list list' : List Token} {l i j k : Nat} {s s' r r' : Scan} {t : Token}
  {tokens tokens' : Array Token} {f : Nat → Nat} {base base' : List Segment}

theorem Mirrors.congr (hs : s.Mirrors tokens tokens' f base base' s') (hr : r.bare = s.bare)
    (hr' : r'.bare = s'.bare) : r.Mirrors tokens tokens' f base base' r' := by
  obtain ⟨stack, groupDepth, run, partners, nesting, segments, headers, closures⟩ := s
  obtain ⟨stack', groupDepth', run', partners', nesting', segments', headers', closures'⟩ := s'
  cases r
  cases r'
  cases hr
  cases hr'
  exact { hs with }

/-! ### Steps of both scans -/

section

variable (h : Inserts list list' l) (hl : Loud list.toArray l)
include h hl

/-- A token of the old list leads the scans from states that mirror each other to such states. -/
theorem mirrors_step (hs : s.Mirrors list.toArray list'.toArray (shift l) base base' s')
    (ht : list[j]? = some t) (hstack : ∀ frame ∈ s.stack, frame.index < list.length) :
    ∃ t', list'[shift l j]? = some t' ∧
      (s.step list.toArray ";" (nextAfter list) j t).Mirrors list.toArray list'.toArray (shift l)
        base base' (s'.step list'.toArray ";" (nextAfter list') (shift l j) t') := by
  obtain ⟨t', ht', hlexeme⟩ := h.renames.exists_token ht
  refine ⟨t', ht', hs.step h.renames (List.getElem?_toArray.trans ht) hlexeme (by simpa using hstack)
    fun hnewline => h.nextAfter_shift hl ?_⟩
  rintro rfl
  obtain ⟨u, hu, hcode⟩ := hl
  obtain rfl := Option.some.inj (ht.symm.trans (List.getElem?_toArray.symm.trans hu))
  simp [Lexeme.isTrivia, TokenKind.isTrivia, hnewline] at hcode

theorem mirrors_before_succ (hj : j < list.length)
    (hs : (before list ";" j).Mirrors list.toArray list'.toArray (shift l) base base'
      (before list' ";" (shift l j))) :
    (before list ";" (j + 1)).Mirrors list.toArray list'.toArray (shift l) base base'
      (before list' ";" (shift l j + 1)) := by
  have ht := List.getElem?_eq_getElem hj
  have hnested := (@before_invariant list ";" _ hj.le).nested
  obtain ⟨t', ht', hstep⟩ := mirrors_step h hl hs ht
    fun frame hframe => (hnested.index_lt frame hframe).trans hj
  rwa [before_succ ht, before_succ ht']

/-- Up to the semicolon the scans do the same. -/
theorem mirrors_before (hj : j ≤ l + 1) (hlt : l < list.length) :
    (before list ";" j).Mirrors list.toArray list'.toArray (shift l) [] []
      (before list' ";" j) := by
  induction j with
  | zero =>
    refine ⟨rfl, rfl, by simp [before_zero, Run.rename], by simp [before_zero],
      by simp [before_zero], fun j => ?_, rfl, [], rfl, rfl⟩
    rw [before_zero, before_zero, partnerIn_replicate, partnerIn_replicate]
    rfl
  | succ j ih =>
    have hshift : shift l j = j := shift_of_le (by omega)
    have hnext := @mirrors_before_succ list list' l j [] [] h hl (by omega)
    rw [hshift] at hnext
    exact hnext (ih (by omega))

end

/-- The semicolon ends the run outside all groups, unless it belongs to the header of a loop. -/
theorem bare_step_semicolon {following : Nat → Option Nat} (ht : t.isMark ';')
    (hgroup : s.groupDepth = 0)
    (hhead : (classify tokens s.partners s.run).2.kind ≠ .controlHeader) :
    (s.step tokens ";" following i t).bare =
      (s.close tokens { boundary := some i, terminated := true }).bare := by
  have hkind : t.kind ≠ .newline := by
    intro hkind
    simp [Lexeme.isMark, Lexeme.isPunct, hkind] at ht
  have hmark (c : Char) (hc : ';' ≠ c) : t.isMark c = false := not_isMark ht hc
  have hend : t.isPunct ";" := ht
  have hstep : s.step tokens ";" following i t =
      Scan.terminator tokens i { s with nesting := s.nesting.push s.stack.length } := by
    simp [step, significant, hkind, not_isTrivia ht, hmark, hend, hgroup]
  rw [hstep]
  simp only [terminator]
  rw [if_neg fun h => hhead h.1]
  have hclose := @close_classify tokens
    { s with nesting := s.nesting.push s.stack.length } { boundary := some i, terminated := true }
  simp only at hclose
  rw [hclose, close_with_nesting]
  rfl

/-- A run that ends with an end of its own in one scan and without in the other. -/
theorem Mirrors.endAt (h : Renaming tokens tokens' f)
    (hs : s.Mirrors tokens tokens' f [] [] s') (hne : s.run.indices ≠ #[]) (boundary : Option Nat)
    (b : Nat) {seg : Segment} (hseg : seg = toSegment tokens s.partners s.run { boundary }) :
    (s.close tokens { boundary }).Mirrors tokens tokens' f (seg :: s.segments)
      ((seg.rename f).endAt b :: s.segments.map (Segment.rename f))
      (s'.close tokens' { boundary := some b, terminated := true }) := by
  have hne' : s'.run.indices ≠ #[] := by
    rw [hs.run]
    simpa [Run.rename] using hne
  have hrun {s : Scan} (hne : s.run.indices ≠ #[]) (tokens : Array Token) (ending : Ending) :
      (s.close tokens ending).run = s.run.restart := by
    rw [Scan.close, if_neg (by simpa [Run.isEmpty] using hne)]
  constructor
  case stack => simpa using hs.stack
  case groupDepth => simpa using hs.groupDepth
  case run => rw [hrun hne, hrun hne', hs.run, rename_restart]
  case room => simpa using hs.room
  case room' => simpa using hs.room'
  case partners => simpa using hs.partners
  case closures => simpa using hs.closures
  case segments =>
    obtain ⟨later, hlater, hlater'⟩ := hs.segments
    rw [List.append_nil] at hlater hlater'
    subst hlater
    refine ⟨[], ?_, ?_⟩
    · rw [close_segments, if_neg hne, hseg]
      rfl
    · rw [close_segments, if_neg hne', hlater', hseg, ← toSegment_rename h hs.partners, hs.run]
      rfl

/-! ### From the semicolon on -/

section

variable {seg : Segment} (h : Inserts list list' seg.last) (hcut : CutAt list ";" seg k)
  (hgroup : (before list ";" k).groupDepth = 0) (hkind : seg.kind ≠ .controlHeader)
include h hcut hgroup hkind

/-- While the old scan waits to cut off the run, the new one is as if it had been. -/
theorem mirrors_waiting (hl : Loud list.toArray seg.last) (hj : seg.last < j) (hjk : j ≤ k) :
    ((before list ";" k).close list.toArray (cutOff list k)).Mirrors list.toArray list'.toArray
      (shift seg.last) (seg :: (before list ";" k).segments)
      ((seg.rename (shift seg.last)).endAt (seg.last + 1) ::
        (before list ";" k).segments.map (Segment.rename (shift seg.last)))
      (before list' ";" (j + 1)) := by
  have hle := hcut.le
  induction j, hj using Nat.le_induction with
  | base =>
    obtain ⟨hne, hbare⟩ := hcut.madeAt.waiting (Nat.lt_succ_self _) hjk
    replace hbare := hbare (cutOff list k)
    have hs := mirrors_before h hl (Nat.le_refl (seg.last + 1)) (by omega)
    have hsegments : seg :: (before list ";" k).segments =
        toSegment list.toArray (before list ";" (seg.last + 1)).partners
          (before list ";" (seg.last + 1)).run (cutOff list k) ::
            (before list ";" (seg.last + 1)).segments := by
      have := congrArg Scan.segments hbare
      simp only [bare, close_segments, if_neg hcut.ne, if_neg hne, ← hcut.segment] at this
      exact this
    obtain ⟨hseg, hbase⟩ := List.cons.inj hsegments
    have hdepth : (before list ";" (seg.last + 1)).groupDepth = 0 := by
      have := congrArg Scan.groupDepth hbare
      simp only [bare, close_groupDepth] at this
      exact this.symm.trans hgroup
    obtain ⟨t, ht, hmark, -⟩ := h.semicolon
    rw [before_succ ht, hbase]
    refine (hs.endAt h.renames hne _ (seg.last + 1) hseg).congr hbare (bare_step_semicolon hmark ?_ ?_)
    · exact hs.groupDepth.trans hdepth
    · rw [hs.run, classify_rename h.renames hs.partners]
      rw [hseg] at hkind
      exact hkind
  | succ j hj ih =>
    have hs := ih (by omega)
    have ht := List.getElem?_eq_getElem (show j < list.length by omega)
    have htrivia : list[j].isTrivia := by
      rw [← tokenIs_of_getElem? (p := fun t => t.isTrivia) (List.getElem?_toArray.trans ht)]
      exact hcut.madeAt.quiet.2 j hj (by omega)
    obtain ⟨t', ht', hlexeme⟩ := h.renames.exists_token ht
    rw [shift_of_lt hj] at ht'
    rw [before_succ ht']
    refine hs.congr rfl (bare_step_of_empty (by rwa [hlexeme]) ?_)
    rw [hs.run]
    simp [Run.rename]

/-- From where the old scan cuts off the run on both scans do the same. -/
theorem mirrors_behind (hl : Loud list.toArray seg.last) (hj : k < j) (hjn : j ≤ list.length) :
    (before list ";" j).Mirrors list.toArray list'.toArray (shift seg.last)
      (seg :: (before list ";" k).segments)
      ((seg.rename (shift seg.last)).endAt (seg.last + 1) ::
        (before list ";" k).segments.map (Segment.rename (shift seg.last)))
      (before list' ";" (j + 1)) := by
  have hlk := hcut.madeAt.quiet.1
  induction j, hj using Nat.le_induction with
  | base =>
    have hs := mirrors_waiting h hcut hgroup hkind hl hlk (Nat.le_refl k)
    have ht := List.getElem?_eq_getElem (show k < list.length by omega)
    rw [← shift_of_lt hlk] at hs
    obtain ⟨t', ht', hstep⟩ := mirrors_step h hl hs ht fun frame hframe => by
      rw [close_stack] at hframe
      have := (@before_invariant list ";" _ hcut.le).nested.index_lt frame hframe
      omega
    rw [shift_of_lt hlk] at ht' hstep
    rw [(hcut.cuts _ ht).2, Nat.succ_eq_add_one, before_succ ht']
    exact hstep
  | succ j hj ih =>
    have hs := ih (by omega)
    rw [← shift_of_lt (show seg.last < j by omega)] at hs
    have hnext := mirrors_before_succ h hl (by omega) hs
    rwa [shift_of_lt (by omega)] at hnext

theorem mirrors_scanned (hl : Loud list.toArray seg.last) :
    ((scanned list ";").close list.toArray { boundary := none }).Mirrors list.toArray list'.toArray
      (shift seg.last) (seg :: (before list ";" k).segments)
      ((seg.rename (shift seg.last)).endAt (seg.last + 1) ::
        (before list ";" k).segments.map (Segment.rename (shift seg.last)))
      ((scanned list' ";").close list'.toArray { boundary := none }) := by
  rw [← before_length, ← before_length, h.length]
  rcases Nat.lt_or_eq_of_le hcut.le with hlt | rfl
  · exact (mirrors_behind h hcut hgroup hkind hl hlt (Nat.le_refl _)).close h.renames
      { boundary := none }
  · have hs := mirrors_waiting h hcut hgroup hkind hl hcut.madeAt.quiet.1 (Nat.le_refl _)
    have := hs.close h.renames { boundary := none }
    rw [close_close] at this
    rwa [show cutOff list list.length = { boundary := none } by simp [cutOff]] at this

end

end Scan

/-! ### The outline -/

/-- Where the segments of an outline stand with a semicolon behind one of them. -/
def ended (seg s : Segment) : Segment :=
  if s = seg then (s.rename (shift seg.last)).endAt (seg.last + 1) else s.rename (shift seg.last)

theorem first_ended (seg s : Segment) : (ended seg s).first = shift seg.last s.first := by
  have hfirst : (s.indices.map (shift seg.last)).headD 0 = shift seg.last (s.indices.headD 0) := by
    cases s.indices <;> rfl
  unfold ended
  split <;> exact hfirst

theorem last_ended (seg s : Segment) : (ended seg s).last = shift seg.last s.last := by
  have hlast : (s.indices.map (shift seg.last)).getLastD 0 = shift seg.last (s.indices.getLastD 0) := by
    rw [List.getLastD_eq_getLast?, List.getLastD_eq_getLast?, List.getLast?_map]
    cases s.indices.getLast? <;> rfl
  unfold ended
  split <;> exact hlast

/-- Segments come in the order of their first tokens. -/
theorem ofTokens_segments (list : List Token) (end_ : Text) :
    (Outline.ofTokens list end_).segments =
      ((Scan.scanned list end_).close list.toArray { boundary := none }).segments.reverse.mergeSort
        fun a b => a.first ≤ b.first := rfl

theorem ofTokens_closures (list : List Token) (end_ : Text) :
    (Outline.ofTokens list end_).closures =
      ((Scan.scanned list end_).close list.toArray { boundary := none }).closures.reverse := rfl

/-- All brackets of an outline have partners. -/
def AllPaired (o : Outline) : Prop :=
  ∀ i t, o.tokens[i]? = some t → isBracket t → (o.partner? i).isSome

instance (o : Outline) : Decidable o.AllPaired :=
  decidable_of_iff (∀ i < o.tokens.size, o.at_ i isBracket → (o.partner? i).isSome) <| by
    refine ⟨fun h i t ht hbracket => ?_, fun h i _ hbracket => ?_⟩
    · exact h i (Array.getElem?_eq_some_iff.mp ht).1 ((tokenIs_of_getElem? ht).trans hbracket)
    · obtain ⟨t, ht, hbracket⟩ := tokenIs_iff.mp hbracket
      exact h i t ht hbracket

/-- Where segments stand in another outline, in which one of them has another form. -/
def reformed (f : Nat → Nat) (seg seg' s : Segment) : Segment := if s = seg then seg' else s.rename f

/-- Outlines from scans that mirror each other but for one segment. -/
theorem ofTokens_reformed {list list' : List Token} {f : Nat → Nat} {end_ : Text} {seg seg' : Segment}
    {rest : List Segment} (hmono : StrictMono f)
    (hs : ((Scan.scanned list end_).close list.toArray { boundary := none }).Mirrors list.toArray
      list'.toArray f (seg :: rest) (seg' :: rest.map (Segment.rename f))
      ((Scan.scanned list' end_).close list'.toArray { boundary := none }))
    (hfirst : seg'.first = f seg.first) :
    (Outline.ofTokens list' end_).segments =
        (Outline.ofTokens list end_).segments.map (reformed f seg seg') ∧
      (∀ j, (Outline.ofTokens list' end_).partner? (f j) =
        ((Outline.ofTokens list end_).partner? j).map f) ∧
      (Outline.ofTokens list' end_).closures = (Outline.ofTokens list end_).closures.map f := by
  refine ⟨?_, hs.partners, ?_⟩
  · obtain ⟨later, hlater, hlater'⟩ := hs.segments
    have hperm := ofTokens_segments_perm list end_
    have hnodup := hperm.nodup_iff.mp (ofTokens_segments_nodup list end_)
    have hmade : ((Scan.scanned list' end_).close list'.toArray { boundary := none }).segments =
        ((Scan.scanned list end_).close list.toArray { boundary := none }).segments.map
          (reformed f seg seg') := by
      rw [hlater] at hnodup
      have hothers {s : Segment} (hne : s ≠ seg) : reformed f seg seg' s = s.rename f := if_neg hne
      have hself : reformed f seg seg' seg = seg' := if_pos rfl
      rw [hlater, hlater', List.map_append, List.map_cons, hself]
      obtain ⟨-, hbase, hapart⟩ := List.nodup_append.mp hnodup
      congr 1
      · exact List.map_congr_left fun s hmem => (hothers (hapart s hmem seg List.mem_cons_self)).symm
      · congr 1
        refine List.map_congr_left fun s hmem => (hothers ?_).symm
        rintro rfl
        exact (List.nodup_cons.mp hbase).1 hmem
    rw [ofTokens_segments, ofTokens_segments, hmade, ← List.map_reverse]
    have hfirsts {s : Segment}
        (hmem : s ∈ ((Scan.scanned list end_).close list.toArray { boundary := none }).segments.reverse) :
        (reformed f seg seg' s).first = f s.first := by
      unfold reformed
      split
      · next heq => rw [hfirst, heq]
      · have hne := ((ofTokens_sound list end_).segments s
          (hperm.mem_iff.mpr (List.mem_reverse.mp hmem))).ne_nil
        obtain ⟨i, rest, hindices⟩ := List.exists_cons_of_ne_nil hne
        simp [Segment.first, Segment.rename, hindices]
    refine (List.map_mergeSort fun a ha b hb => ?_).symm
    simp only [hfirsts ha, hfirsts hb, hmono.le_iff_le]
  · rw [ofTokens_closures, ofTokens_closures, hs.closures, List.map_reverse]

section

variable {list list' : List Token} {seg : Segment} (h : Inserts list list' seg.last)
  (hpaired : (Outline.ofTokens list ";").AllPaired)
  (hseg : seg ∈ (Outline.ofTokens list ";").segments)
  (hopen : ¬(seg.terminated ∨ seg.opensBlock ∨ seg.label)) (hkind : seg.kind ≠ .controlHeader)
include h hpaired hseg hopen hkind

/-- With a semicolon behind a segment that has no end of its own, opens no block and is no label, the
segment has its end. All else is as it was, but for where it stands. -/
theorem ofTokens_inserts :
    (Outline.ofTokens list' ";").segments =
        (Outline.ofTokens list ";").segments.map (ended seg) ∧
      (∀ j, (Outline.ofTokens list' ";").partner? (shift seg.last j) =
        ((Outline.ofTokens list ";").partner? j).map (shift seg.last)) ∧
      (Outline.ofTokens list' ";").closures =
        (Outline.ofTokens list ";").closures.map (shift seg.last) := by
  obtain ⟨k, hcut⟩ := Scan.exists_cutAt hseg hopen
  have hsound := (ofTokens_sound list ";").segments seg hseg
  have hgroup := hcut.groupDepth_eq_zero fun m t ht => hpaired m t (List.getElem?_toArray.trans ht)
  have hs := Scan.mirrors_scanned h hcut hgroup hkind (hsound.inOrder.loud _ hsound.last_mem)
  have hself : ended seg seg = (seg.rename (shift seg.last)).endAt (seg.last + 1) := if_pos rfl
  have hended : ended seg = reformed (shift seg.last) seg (ended seg seg) := by
    funext s
    by_cases hs : s = seg
    · rw [hs, reformed, if_pos rfl]
    · rw [ended, reformed, if_neg hs, if_neg hs]
  rw [hended, hself]
  exact ofTokens_reformed h.renames.mono hs (hself ▸ first_ended seg seg)

end

end Outline
end HouseStyle
