import HouseStyle.Proofs.Edit.ConflictFree
import HouseStyle.Proofs.Edit.Inserted
import HouseStyle.Proofs.Engine.Checked

/-! The fixes of statement termination end the statements that the rule remarks on, and change
nothing else. Semicolons are put in from right to left. Each one ends its own segment; all other
segments, the pairs of brackets and what the rule says of the others stay, so by induction every
segment ends that lacked its end, and none is left. -/

namespace HouseStyle

open Outline Rule

/-! ### One semicolon -/

/-- A segment that another one stands for in another outline, but for where it ends. -/
structure Segment.Kept (o o' : Outline) (s s' : Segment) : Prop where
  lexemes : s'.indices.map (fun i => (o'.token? i).map (·.toLexeme)) =
    s.indices.map fun i => (o.token? i).map (·.toLexeme)
  head : s'.toHead = s.toHead
  label : s'.label = s.label
  opensBlock : s'.opensBlock = s.opensBlock
  depth : s'.depth = s.depth

namespace Segment.Kept

variable {o o' o'' : Outline} {s s' s'' : Segment}

theorem refl (o : Outline) (s : Segment) : s.Kept o o s := ⟨rfl, rfl, rfl, rfl, rfl⟩

theorem trans (h : s.Kept o o' s') (h' : s'.Kept o' o'' s'') : s.Kept o o'' s'' where
  lexemes := h'.lexemes.trans h.lexemes
  head := h'.head.trans h.head
  label := h'.label.trans h.label
  opensBlock := h'.opensBlock.trans h.opensBlock
  depth := h'.depth.trans h.depth

theorem of_renaming {f : Nat → Nat} (h : Renaming o.tokens o'.tokens f) (s : Segment) :
    s.Kept o o' (s.rename f) where
  lexemes := by
    rw [Segment.rename, List.map_map]
    exact List.map_congr_left fun i _ => h.lexeme i
  head := rfl
  label := rfl
  opensBlock := rfl
  depth := rfl

end Segment.Kept

namespace Rule.Termination

variable {o o' : Outline} {f : Nat → Nat} {s : Segment}

theorem hasUnterminated_iff {first last : Nat} : hasUnterminated o first last ↔
    ∃ i, first ≤ i ∧ i ≤ last ∧ o.at_ i (·.unterminated) := by
  simp only [hasUnterminated, extent, List.any_eq_true, List.mem_range'_1]
  constructor
  · rintro ⟨i, hi, hopen⟩
    exact ⟨i, hi.1, by omega, hopen⟩
  · rintro ⟨i, hfirst, hlast, hopen⟩
    exact ⟨i, ⟨hfirst, by omega⟩, hopen⟩

theorem lacksTerminator_spec (h : lacksTerminator o s) :
    ¬(s.terminated ∨ s.opensBlock ∨ s.label) ∧ s.kind ≠ .controlHeader ∧
      hasUnterminated o s.first s.last = false := by
  simp only [lacksTerminator, Bool.and_eq_true, Bool.not_eq_true', bne_iff_ne] at h
  obtain ⟨⟨⟨⟨⟨⟨⟨⟨hends, hkind⟩, -⟩, -⟩, -⟩, -⟩, -⟩, hclosed⟩, -⟩ := h
  exact ⟨by simpa [and_assoc] using hends, hkind, hclosed⟩

/-- Whether a segment is the body of a closure on one line depends on the tokens at the braces. -/
theorem isInlineClosureBody_rename (h : Renaming o.tokens o'.tokens f)
    (hpartners : ∀ j, o'.partner? (f j) = (o.partner? j).map f)
    (hclosures : o'.closures = o.closures.map f) (s : Segment) :
    isInlineClosureBody o' (s.rename f) = isInlineClosureBody o s := by
  unfold isInlineClosureBody
  simp only [Segment.rename]
  cases s.boundary with
  | none => rfl
  | some b =>
    have hb := h.lexeme b
    simp only [Option.map_some, Option.bind_some, hpartners, token?]
    cases hbrace : o.tokens[b]? with
    | none =>
      have hbrace' : o'.tokens[f b]? = none := by simpa [hbrace] using hb
      simp only [hbrace']
    | some brace =>
      obtain ⟨brace', hbrace', heq⟩ :
          ∃ t, o'.tokens[f b]? = some t ∧ t.toLexeme = brace.toLexeme := by
        simpa [hbrace] using hb
      simp only [hbrace', heq]
      cases o.partner? b with
      | none => rfl
      | some p =>
        have hclosure : o'.closures.contains (f p) = o.closures.contains p := by
          rw [hclosures]
          simp [h.mono.injective.eq_iff]
        have hline : o'.at_ (f p) (·.line = brace'.line) = o.at_ p (·.line = brace.line) := by
          have hp := h.lexeme p
          simp only [at_, tokenIs, h.line b brace brace' hbrace hbrace']
          cases hopener : o.tokens[p]? with
          | none =>
            have hopener' : o'.tokens[f p]? = none := by simpa [hopener] using hp
            rw [hopener']
          | some opener =>
            obtain ⟨opener', hopener', -⟩ :
                ∃ t, o'.tokens[f p]? = some t ∧ t.toLexeme = opener.toLexeme := by
              simpa [hopener] using hp
            simp only [hopener', Option.map_some, h.line p opener opener' hopener hopener']
        simp only [Option.map_some, hclosure, hline]

end Rule.Termination

namespace Outline

open Termination

variable {list list' : List Token} {l : Nat}

namespace Inserts

variable (h : Inserts list list' l)
include h

/-- What tests of lexemes find at a token is what they found before. -/
theorem at_shift (p : Lexeme → Bool) (j : Nat) :
    (Outline.ofTokens list' ";").at_ (shift l j) (fun t => p t.toLexeme) =
      (Outline.ofTokens list ";").at_ j fun t => p t.toLexeme :=
  h.renames.tokenIs_map p j

/-- The semicolon itself has its end. -/
theorem hasUnterminated_shift (first last : Nat) :
    hasUnterminated (Outline.ofTokens list' ";") (shift l first) (shift l last) =
      hasUnterminated (Outline.ofTokens list ";") first last := by
  have hmono := shift_strictMono l
  have hat := h.at_shift (·.unterminated)
  rw [Bool.eq_iff_iff, hasUnterminated_iff, hasUnterminated_iff]
  constructor
  · rintro ⟨m, hfirst, hlast, hopen⟩
    obtain ⟨j, rfl⟩ : ∃ j, shift l j = m := by
      refine exists_shift ?_
      rintro rfl
      obtain ⟨t, ht, -, hclosed⟩ := h.semicolon
      have : (Outline.ofTokens list' ";").at_ (l + 1) (·.unterminated) = t.unterminated :=
        tokenIs_of_getElem? (List.getElem?_toArray.trans ht)
      rw [this, hclosed] at hopen
      cases hopen
    exact ⟨j, hmono.le_iff_le.mp hfirst, hmono.le_iff_le.mp hlast, (hat j).symm.trans hopen⟩
  · rintro ⟨j, hfirst, hlast, hopen⟩
    exact ⟨shift l j, hmono.monotone hfirst, hmono.monotone hlast, (hat j).trans hopen⟩

end Inserts

section

variable {seg : Segment} (h : Inserts list list' seg.last)
  (hpaired : (Outline.ofTokens list ";").AllPaired)
  (hseg : seg ∈ (Outline.ofTokens list ";").segments)
  (hlacks : lacksTerminator (Outline.ofTokens list ";") seg)
include h

theorem kept_ended (s : Segment) :
    s.Kept (Outline.ofTokens list ";") (Outline.ofTokens list' ";") (ended seg s) := by
  have hkept : s.Kept (Outline.ofTokens list ";") (Outline.ofTokens list' ";")
      (s.rename (shift seg.last)) := .of_renaming h.renames s
  unfold ended
  split
  · exact ⟨hkept.lexemes, rfl, rfl, rfl, rfl⟩
  · exact hkept

include hpaired hseg hlacks

/-- What a semicolon behind a segment that lacks its terminator does to the outline. -/
theorem inserts_lacking :
    (Outline.ofTokens list' ";").segments = (Outline.ofTokens list ";").segments.map (ended seg) ∧
      (∀ j, (Outline.ofTokens list' ";").partner? (shift seg.last j) =
        ((Outline.ofTokens list ";").partner? j).map (shift seg.last)) ∧
      (Outline.ofTokens list' ";").closures =
        (Outline.ofTokens list ";").closures.map (shift seg.last) := by
  obtain ⟨hopen, hkind, -⟩ := lacksTerminator_spec hlacks
  exact ofTokens_inserts h hpaired hseg hopen hkind

/-- The semicolon is no bracket, and all brackets keep their partners. -/
theorem allPaired_inserts : (Outline.ofTokens list' ";").AllPaired := by
  obtain ⟨-, hpartners, -⟩ := inserts_lacking h hpaired hseg hlacks
  intro i t ht hbracket
  obtain ⟨j, rfl⟩ : ∃ j, shift seg.last j = i := by
    refine exists_shift ?_
    rintro rfl
    obtain ⟨u, hu, hmark, -⟩ := h.semicolon
    obtain rfl := Option.some.inj (ht.symm.trans (List.getElem?_toArray.trans hu))
    have hne : ∀ pair ∈ brackets, ';' ≠ pair.1 ∧ ';' ≠ pair.2 := by decide
    obtain ⟨pair, hpair, hmarked⟩ := List.any_eq_true.mp hbracket
    obtain ⟨hopening, hclosing⟩ := hne pair hpair
    simp [Scan.not_isMark hmark hopening, Scan.not_isMark hmark hclosing] at hmarked
  have hj := h.renames.lexeme j
  rw [show list'.toArray[shift seg.last j]? = some t from ht] at hj
  obtain ⟨u, hu, hlexeme⟩ := Option.map_eq_some_iff.mp hj.symm
  rw [hpartners, Option.isSome_map]
  exact hpaired j u hu (by simpa [isBracket, hlexeme] using hbracket)

/-- Of all segments the rule says what it said before, but for the one that now has its end. -/
theorem lacksTerminator_ended (s : Segment) :
    lacksTerminator (Outline.ofTokens list' ";") (ended seg s) =
      (lacksTerminator (Outline.ofTokens list ";") s && s ≠ seg) := by
  obtain ⟨-, hpartners, hclosures⟩ := inserts_lacking h hpaired hseg hlacks
  by_cases hs : s = seg
  · simp [ended, hs, lacksTerminator, Segment.endAt]
  · have hfirst := first_ended seg s
    have hlast := last_ended seg s
    have hbody := isInlineClosureBody_rename h.renames hpartners hclosures s
    have hat := h.at_shift
    have hwords : (ended seg s).indices.any
          (fun i => (Outline.ofTokens list' ";").at_ i (·.kind.isWord)) =
        s.indices.any fun i => (Outline.ofTokens list ";").at_ i (·.kind.isWord) := by
      rw [ended, if_neg hs, Segment.rename, List.any_map]
      exact congrArg _ (funext fun i => hat (·.kind.isWord) i)
    rw [lacksTerminator, hfirst, hlast, h.hasUnterminated_shift, hat (·.isMark '@'),
      hat (fun t => t.text.head? = some (.char '#') || Outline.accessors.contains t.text ||
        t.isKeyword ["case", "default"]), hat (·.isKeyword ["in"]), hwords]
    rw [ended, if_neg hs, hbody]
    simp [lacksTerminator, hs, Segment.rename]

end

end Outline

/-! ### Many semicolons -/

/-- The outline of a text whose statements end with semicolons. -/
def outlineOf (text : Text) : Outline := Outline.ofTokens (tokenize text) ";"

/-- A text with a semicolon at an offset. -/
def putSemicolon (offset : Nat) (text : Text) : Text :=
  text.take offset ++ [.char ';'] ++ text.drop offset

namespace Rule.Termination

/-- The last tokens of the segments that lack their terminators. -/
def dues (o : Outline) : List Nat := (o.segments.filter (lacksTerminator o)).map Segment.last

theorem mem_dues {o : Outline} {m : Nat} :
    m ∈ dues o ↔ ∃ s ∈ o.segments, lacksTerminator o s ∧ s.last = m := by
  simp [dues, and_assoc]

/-- Every segment of an outline stands in the other one, with an end if it lacked one; there none
lacks its end. -/
structure Completed (o o' : Outline) : Prop where
  segments : List.Forall₂ (fun s s' => s.Kept o o' s' ∧
    s'.terminated = (s.terminated || lacksTerminator o s)) o.segments o'.segments
  complete : ∀ s ∈ o'.segments, lacksTerminator o' s = false

theorem Completed.dues_eq_nil {o o' : Outline} (h : Completed o o') : dues o' = [] := by
  rw [List.eq_nil_iff_forall_not_mem]
  intro m hm
  obtain ⟨s, hs, hlacks, -⟩ := mem_dues.mp hm
  rw [h.complete s hs] at hlacks
  cases hlacks

theorem Completed.refl {o : Outline} (h : ∀ s ∈ o.segments, lacksTerminator o s = false) :
    Completed o o where
  segments := List.forall₂_same.mpr fun s hs => ⟨.refl o s, by rw [h s hs, Bool.or_false]⟩
  complete := h

section

variable {text : Text} {seg : Segment} (hseg : seg ∈ (outlineOf text).segments)
  (hlacks : lacksTerminator (outlineOf text) seg)
include hseg hlacks

/-- A semicolon behind a segment that lacks its terminator is a token of its own. -/
theorem inserts_of_lacks : putSemicolon (offset (lexemes text) (seg.last + 1)) text =
      joined (withSemicolon (lexemes text) seg.last) ∧
    Closes (lexemes text) seg.last := by
  obtain ⟨hopen, -, hclosed⟩ := lacksTerminator_spec hlacks
  have hsound := (ofTokens_sound (tokenize text) ";").segments seg hseg
  refine ⟨?_, hsound.closes (fun h => hopen (.inr (.inr h.1))) fun l hl => ?_⟩
  · rw [joined_withSemicolon, show joined (lexemes text) = text from lexemes_join text]
    rfl
  · obtain ⟨t, ht, rfl⟩ := token_of_lexeme hl
    by_contra hunterminated
    have : hasUnterminated (outlineOf text) seg.first seg.last :=
      hasUnterminated_iff.mpr ⟨seg.last, hsound.first_le_last, Nat.le_refl _,
        (tokenIs_of_getElem? ht).trans (by simpa using hunterminated)⟩
    rw [this] at hclosed
    cases hclosed

section

variable {list : List Token} (h : Inserts (tokenize text) list seg.last)
  (hpaired : (outlineOf text).AllPaired)
include h hpaired

/-- The segments that still lack their terminators are the others that did. -/
theorem mem_dues_inserts {m : Nat} : m ∈ dues (Outline.ofTokens list ";") ↔
    ∃ k ∈ dues (outlineOf text), k ≠ seg.last ∧ shift seg.last k = m := by
  have hsegments := (inserts_lacking h hpaired hseg hlacks).1
  have hlacks' := lacksTerminator_ended h hpaired hseg hlacks
  rw [mem_dues, hsegments]
  constructor
  · rintro ⟨s', hs', hlack, rfl⟩
    obtain ⟨s, hs, rfl⟩ := List.mem_map.mp hs'
    rw [hlacks', Bool.and_eq_true, decide_eq_true_eq] at hlack
    exact ⟨s.last, mem_dues.mpr ⟨s, hs, hlack.1, rfl⟩,
      fun heq => hlack.2 (ofTokens_eq_of_last hs hseg heq), (last_ended seg s).symm⟩
  · rintro ⟨k, hk, hne, rfl⟩
    obtain ⟨s, hs, hlack, rfl⟩ := mem_dues.mp hk
    refine ⟨ended seg s, List.mem_map_of_mem hs, ?_, last_ended seg s⟩
    rw [hlacks', Bool.and_eq_true, decide_eq_true_eq]
    exact ⟨hlack, fun heq => hne (by rw [heq])⟩

theorem Completed.of_inserts {o : Outline}
    (hcompleted : Completed (Outline.ofTokens list ";") o) : Completed (outlineOf text) o where
  complete := hcompleted.complete
  segments := by
    have hsegments := (inserts_lacking h hpaired hseg hlacks).1
    have hafter := hcompleted.segments
    rw [hsegments, List.forall₂_map_left_iff] at hafter
    refine hafter.imp fun s s' hs => ⟨(kept_ended h s).trans hs.1, ?_⟩
    rw [hs.2, lacksTerminator_ended h hpaired hseg hlacks]
    by_cases heq : s = seg
    · simp [heq, ended, Segment.endAt, hlacks]
    · simp [heq, ended, Segment.rename, outlineOf]

end

end

/-- Semicolons behind all segments that lack their terminators complete the text. The induction
takes the last one first, so that the others stay where they are. -/
theorem completed_of_dues {ms : List Nat} : ∀ {text : Text}, (outlineOf text).AllPaired →
    ms.Pairwise (· < ·) → (∀ m, m ∈ ms ↔ m ∈ dues (outlineOf text)) →
    Completed (outlineOf text)
      (outlineOf ((ms.map fun m => offset (lexemes text) (m + 1)).foldr putSemicolon text)) := by
  induction ms using List.reverseRecOn with
  | nil =>
    intro text _ _ hdues
    refine .refl fun s hs => ?_
    by_contra hlacks
    exact List.not_mem_nil ((hdues s.last).mpr (mem_dues.mpr ⟨s, hs, by simpa using hlacks, rfl⟩))
  | append_singleton ms l ih =>
    intro text hpaired hsorted hdues
    obtain ⟨seg, hseg, hlacks, rfl⟩ := mem_dues.mp ((hdues l).mp (by simp))
    obtain ⟨htext, hcloses⟩ := inserts_of_lacks hseg hlacks
    have hinserts := tokenize_inserts hcloses
    obtain ⟨hms, -, hlt⟩ := List.pairwise_append.mp hsorted
    have hlt : ∀ m ∈ ms, m < seg.last := fun m hm => hlt m hm seg.last (by simp)
    have hoffset : ∀ m ∈ ms,
        offset (lexemes (joined (withSemicolon (lexemes text) seg.last))) (m + 1) =
          offset (lexemes text) (m + 1) := by
      intro m hm
      rw [hcloses.isLexed_withSemicolon (isLexed_lexemes text)]
      exact offset_withSemicolon hcloses.lt (Nat.succ_le_succ (hlt m hm).le)
    rw [List.map_append, List.foldr_append, List.map_singleton, List.foldr_cons, List.foldr_nil,
      htext, ← List.map_congr_left hoffset]
    refine .of_inserts hseg hlacks hinserts hpaired
      (ih (allPaired_inserts hinserts hpaired hseg hlacks) hms fun m => ?_)
    rw [outlineOf, mem_dues_inserts hseg hlacks hinserts hpaired]
    constructor
    · intro hm
      have hdue := (hdues m).mp (List.mem_append_left _ hm)
      exact ⟨m, hdue, (hlt m hm).ne, shift_of_le (hlt m hm).le⟩
    · rintro ⟨k, hk, hne, rfl⟩
      have hmem : k ∈ ms := (List.mem_append.mp ((hdues k).mpr hk)).resolve_right (by simpa using hne)
      rwa [shift_of_le (hlt k hmem).le]

/-! ### The rule -/

/-- The fix that puts the terminator at an offset. -/
def fixAt (c : Context) (offset : Nat) : Fix :=
  { span := .point offset
    replacement := c.terminator
    description := "Insert '" ++ c.terminator.asText ++ "'" }

/-- The remark on a terminator that is missing at an offset. -/
def remarkAt (c : Context) (offset : Nat) : Remark :=
  { span := .point offset
    message := "Statement is missing the '" ++ c.terminator.asText ++ "' terminator."
    fix := some (fixAt c offset) }

section

variable {text : Text} {c : Context} (h : c.Reads text)
include h

theorem missing_eq (hs : s ∈ c.outline.segments) : missing c s =
    if lacksTerminator c.outline s then
      some (remarkAt c (offset (lexemes text) (s.last + 1)))
    else none := by
  have hsound := h.segment_sound hs
  obtain ⟨l, hl, -⟩ := exists_of_loud (hsound.inOrder.loud _ hsound.last_mem)
  obtain ⟨last, hlast, -⟩ := token_of_lexeme hl
  have hlast : c.outline.token? s.last = some last := by rwa [token?, h.tokens]
  have hstop := (h.token hlast).2.2
  unfold missing
  split
  · rw [hlast, Option.map_some, hstop]
    rfl
  · rfl

theorem filterMap_missing : c.outline.segments.filterMap (missing c) =
    (dues c.outline).map fun m => remarkAt c (offset (lexemes text) (m + 1)) := by
  rw [dues, List.map_map, ← List.filterMap_eq_map, List.filterMap_filter]
  exact List.filterMap_congr fun s hs => missing_eq h hs

theorem dues_nodup : (dues c.outline).Nodup := by
  rw [h.outline]
  refine (List.Nodup.filter _ (ofTokens_segments_nodup _ _)).map_on fun s hs t ht heq => ?_
  exact ofTokens_eq_of_last (List.mem_filter.mp hs).1 (List.mem_filter.mp ht).1 heq

theorem lt_of_mem_dues {m : Nat} (hm : m ∈ dues c.outline) : m < (lexemes text).length := by
  obtain ⟨s, hs, -, rfl⟩ := mem_dues.mp hm
  have hsound := h.segment_sound hs
  obtain ⟨l, hl, -⟩ := exists_of_loud (hsound.inOrder.loud _ hsound.last_mem)
  exact (List.getElem?_eq_some_iff.mp hl).1

/-- No two of the segments end at one offset. -/
theorem offsets_nodup : ((dues c.outline).map fun m => offset (lexemes text) (m + 1)).Nodup := by
  refine (dues_nodup h).map_on fun m hm k hk heq => ?_
  have := (isLexed_lexemes text).offset_inj (lt_of_mem_dues h hm) (lt_of_mem_dues h hk) heq
  omega

/-- Offsets in order stand behind last tokens in order. -/
theorem exists_sorted_dues {starts : List Nat} (hsorted : starts.Pairwise (· < ·))
    (hperm : starts.Perm ((dues c.outline).map fun m => offset (lexemes text) (m + 1))) :
    ∃ ms : List Nat, ms.Pairwise (· < ·) ∧ (∀ m, m ∈ ms ↔ m ∈ dues c.outline) ∧
      starts = ms.map fun m => offset (lexemes text) (m + 1) := by
  have hms := List.mergeSort_perm (dues c.outline) (· ≤ ·)
  have hlt : ((dues c.outline).mergeSort (· ≤ ·)).Pairwise (· < ·) :=
    ((List.pairwise_mergeSort' (· ≤ ·) _).and (hms.nodup_iff.mpr (dues_nodup h))).imp
      fun hle => lt_of_le_of_ne hle.1 hle.2
  refine ⟨_, hlt, fun m => hms.mem_iff, List.Perm.eq_of_pairwise' hsorted ?_ ?_⟩
  · refine List.pairwise_map.mpr (hlt.imp_of_mem fun hm hk hmk => ?_)
    have := lt_of_mem_dues h (hms.mem_iff.mp hk)
    exact (isLexed_lexemes text).offset_lt (Nat.succ_lt_succ hmk) (by omega)
  · exact hperm.trans (hms.map _).symm

/-- What the rule finds alone, and what the fixes are that it proposes. -/
theorem runAll_dues {rule : Rule} (hrule : rule.kind = statementTermination) {n : Int}
    (hlines : c.contextLines = .int n) : ∃ g : Nat → Finding,
      (runAll c [rule]).1.Perm ((dues c.outline).map g) ∧ (runAll c [rule]).2 = [] ∧
      (∀ m, (g m).span = .point (offset (lexemes text) (m + 1))) ∧
      (proposals (runAll c [rule]).1).Perm ((dues c.outline).map fun m =>
        ⟨g m, fixAt c (offset (lexemes text) (m + 1))⟩) := by
  choose find hfind using finding_ok hlines rule
  have hremarks : rule.kind.remarks rule.options c =
      .ok ((dues c.outline).map fun m => remarkAt c (offset (lexemes text) (m + 1))) := by
    have hlong : c.terminator.isLong = false := by
      rw [h.terminator]
      rfl
    rw [hrule, ← filterMap_missing h]
    simp only [statementTermination, allMissing, hlong, Bool.and_false, Bool.false_eq_true, if_false]
  have hfindings : rule.findings c = .ok ((dues c.outline).map fun m =>
      find (remarkAt c (offset (lexemes text) (m + 1)))) := by
    rw [Rule.findings, hremarks]
    exact (mapM_eq_map hfind _).trans (by rw [List.map_map]; rfl)
  have hrun : runAll c [rule] = (Finding.sort ((dues c.outline).map fun m =>
      find (remarkAt c (offset (lexemes text) (m + 1)))), []) := by
    simp [runAll, outcomes, hfindings]
  have hperm : (runAll c [rule]).1.Perm ((dues c.outline).map fun m =>
      find (remarkAt c (offset (lexemes text) (m + 1)))) := by
    rw [hrun]
    exact List.mergeSort_perm _ _
  refine ⟨_, hperm, by rw [hrun], fun m => finding_span (hfind _), ?_⟩
  refine (proposals_perm _).trans ((hperm.filterMap _).trans (.of_eq ?_))
  rw [List.filterMap_map, ← List.filterMap_eq_map]
  refine List.filterMap_congr fun m _ => ?_
  simp [Proposal.ofFinding?, finding_suppressed (hfind _), finding_fix (hfind _), remarkAt]

/-- The fixes put semicolons behind all segments that lack their terminators. -/
theorem applyFixes_dues {findings : List Finding} {g : Nat → Finding}
    (hproposals : (proposals findings).Perm ((dues c.outline).map fun m =>
      ⟨g m, fixAt c (offset (lexemes text) (m + 1))⟩)) :
    (applyFixes text findings).skipped = [] ∧
      (applyFixes text findings).appliedCount = (dues c.outline).length ∧
      ∃ ms : List Nat, ms.Pairwise (· < ·) ∧ (∀ m, m ∈ ms ↔ m ∈ dues c.outline) ∧
        (applyFixes text findings).text =
          (ms.map fun m => offset (lexemes text) (m + 1)).foldr putSemicolon text := by
  have hproposal : ∀ p ∈ proposals findings, ∃ m,
      p.span = .point (offset (lexemes text) (m + 1)) ∧ p.fix.insertion = [.char ';'] := by
    intro p hp
    obtain ⟨m, -, rfl⟩ := List.mem_map.mp (hproposals.mem_iff.mp hp)
    exact ⟨m, rfl, Fix.insertion_eq h.terminator⟩
  have hempty : ∀ p ∈ proposals findings,
      p.span.stop = p.span.start ∧ p.span.start ≤ text.length := by
    intro p hp
    obtain ⟨m, hspan, -⟩ := hproposal p hp
    rw [hspan]
    exact ⟨rfl, (offset_le_length _ _).trans (congrArg List.length (lexemes_join text)).le⟩
  have hstarts : ((proposals findings).map (·.span.start)).Perm
      ((dues c.outline).map fun m => offset (lexemes text) (m + 1)) :=
    (hproposals.map (·.span.start)).trans (.of_eq (by rw [List.map_map]; rfl))
  obtain ⟨hskipped, ps, happlied, hperm, hsorted, htext⟩ :=
    applyFixes_insertions hempty (hstarts.nodup_iff.mpr (offsets_nodup h))
  obtain ⟨ms, hms, hmem, hps⟩ := exists_sorted_dues h (List.pairwise_map.mpr hsorted)
    ((hperm.map (·.span.start)).trans hstarts)
  refine ⟨hskipped, ?_, ms, hms, hmem, ?_⟩
  · calc (applyFixes text findings).appliedCount = ps.length := by
          rw [← happlied, List.length_map, FixResult.appliedCount]
      _ = (dues c.outline).length := by rw [(hperm.trans hproposals).length_eq, List.length_map]
  · rw [htext, ← hps, List.foldr_map]
    refine List.foldr_ext _ _ _ fun p hp t => ?_
    obtain ⟨m, hspan, hnew⟩ := hproposal p (hperm.mem_iff.mp hp)
    rw [Proposal.substitute, hspan, hnew]
    rfl

end

/-- Applying the fixes of statement termination ends the segments that the rule remarks on, and is
all there is to it: for any text whose brackets are all paired no fix is skipped, the segments of the
new text are those of the old one, in their order and with their lexemes, and exactly those come to
be terminated that the rule remarks on. On the new text the rule has nothing to remark. -/
theorem fixes_terminate (text filePath : Text) (lookahead : Value) (contextLines : Int)
    (options : Options) (severity : Option Severity) :
    let rule := statementTermination.create options severity
    let context (text : Text) := Context.ofTokens (tokenize text) filePath lookahead (.text ";")
      (.int contextLines)
    let found := runAll (context text) [rule]
    let fixed := applyFixes text found.1
    let before := (context text).outline
    let after := (context fixed.text).outline
    before.AllPaired →
      found.2 = [] ∧
      (found.1.map (·.span)).Perm
        (before.segments.filterMap fun s => (missing (context text) s).map (·.span)) ∧
      fixed.skipped = [] ∧ fixed.appliedCount = found.1.length ∧
      List.Forall₂ (fun s s' => s.Kept before after s' ∧
        if (missing (context text) s).isSome then s.terminated = false ∧ s'.terminated
        else s'.terminated = s.terminated) before.segments after.segments ∧
      runAll (context fixed.text) [rule] = ([], []) := by
  intro rule context found fixed before after hpaired
  have hreads (t : Text) : (context t).Reads t := ⟨sourceText_tokenize t, rfl, rfl⟩
  obtain ⟨g, hfound, hfailed, hspan, hproposals⟩ :=
    @runAll_dues _ _ (hreads text) rule rfl contextLines rfl
  obtain ⟨hskipped, hcount, ms, hms, hmem, htext⟩ := applyFixes_dues (hreads text) hproposals
  have hcompleted : Completed before after := by
    have := completed_of_dues hpaired hms hmem
    rwa [← htext] at this
  refine ⟨hfailed, ?_, hskipped, ?_, ?_, ?_⟩
  · refine (hfound.map (·.span)).trans (.of_eq ?_)
    have hremarks := congrArg (List.map (·.span)) (filterMap_missing (hreads text))
    rw [List.map_filterMap, List.map_map] at hremarks
    rw [List.map_map, hremarks]
    exact List.map_congr_left fun m _ => hspan m
  · rw [hcount, hfound.length_eq, List.length_map]
  · refine ((List.forall₂_and_left _ _).mpr ⟨fun s hs => hs, hcompleted.segments⟩).imp
      fun s s' hs => ⟨hs.2.1, ?_⟩
    rw [missing_eq (hreads text) hs.1, hs.2.2]
    cases hlacks : lacksTerminator before s with
    | true =>
      have hopen := (lacksTerminator_spec hlacks).1
      simp_all
    | false => simp_all
  · obtain ⟨g', hfound', hfailed', -⟩ :=
      @runAll_dues _ _ (hreads fixed.text) rule rfl contextLines rfl
    have hnone : dues (context fixed.text).outline = [] := hcompleted.dues_eq_nil
    rw [hnone] at hfound'
    exact Prod.ext hfound'.eq_nil hfailed'

/-- A call with a comment behind it. -/
theorem fixes_terminate_call :
    let rule := statementTermination.create
    let context (text : Text) := Context.ofTokens (tokenize text)
    let fixed := applyFixes "f(a) // b" (runAll (context "f(a) // b") [rule]).1
    (context "f(a) // b").outline.AllPaired ∧ fixed.skipped = [] ∧ fixed.text = "f(a); // b" ∧
      runAll (context fixed.text) [rule] = ([], []) := by
  intro rule context fixed
  have hpaired : (context "f(a) // b").outline.AllPaired := by decide +kernel
  obtain ⟨-, -, hskipped, -, -, hnone⟩ :=
    fixes_terminate "f(a) // b" "<input>" (.int 3) 2 [] none hpaired
  exact ⟨hpaired, hskipped, by decide +kernel, hnone⟩

end Rule.Termination

end HouseStyle
