import HouseStyle.Proofs.Outline.Tail

/-! Leading words that are looked up early. The scan keeps the first leading word that it finds for a
run, although the run may go on and brackets may be paired afterwards. A lookup asks for the partners
of parentheses only, and where one is made every group of the run is closed or will never be. What it
finds could change later in one case: `class` at the end of a run becomes a modifier if a member
follows. But a run that is led by `class` is only kept where the brace of its block comes next, so
every segment is classified as it would be at the end of the text. -/

namespace HouseStyle

open Outline

namespace Outline

variable {tokens : Array Token} {partners final : Array (Option Nat)} {run : Run} {head : Head}

/-! ### Partners that matter -/

/-- Whether the parentheses that open among some indices have the same partners. -/
def Agree (tokens : Array Token) (partners final : Array (Option Nat)) (indices : List Nat) : Prop :=
  ∀ m ∈ indices, tokenIs tokens (·.isMark '(') m → partnerIn final m = partnerIn partners m

theorem Agree.mono {indices indices' : List Nat} (h : Agree tokens partners final indices)
    (hsub : indices' ⊆ indices) : Agree tokens partners final indices' :=
  fun m hm => h m (hsub hm)

theorem skipGroup_agree {indices : List Nat} (h : Agree tokens partners final indices) :
    skipGroup tokens final indices = skipGroup tokens partners indices := by
  cases indices with
  | nil => rfl
  | cons i rest =>
    simp only [skipGroup]
    split_ifs with hmark
    · rw [h i List.mem_cons_self hmark]
    · rfl

/-- The leading word hangs on the partners of parentheses alone. -/
theorem fromHead_agree {indices : List Nat} (h : Agree tokens partners final indices) :
    fromHead tokens final indices = fromHead tokens partners indices := by
  have hskipped {rest : List Nat} (hrest : Agree tokens partners final rest)
      (ih : Agree tokens partners final (skipGroup tokens partners rest) →
        fromHead tokens final (skipGroup tokens partners rest) =
          fromHead tokens partners (skipGroup tokens partners rest)) :
      fromHead tokens final (skipGroup tokens final rest) =
        fromHead tokens partners (skipGroup tokens partners rest) := by
    rw [skipGroup_agree hrest]
    exact ih (hrest.mono (skipGroup_suffix rest).subset)
  fun_induction fromHead tokens partners indices with
  | case1 => rw [fromHead]
  | case2 i h₁ =>
    rw [fromHead.eq_def]
    simp only [h₁, if_true]
  | case3 i h₁ name rest h₂ ih =>
    rw [fromHead.eq_def]
    simp only [h₁, h₂, if_true]
    exact hskipped (h.mono ((List.suffix_cons _ _).trans (List.suffix_cons _ _)).subset) ih
  | case4 i h₁ name rest h₂ ih =>
    rw [fromHead.eq_def]
    simp only [h₁, h₂, if_true, if_false, Bool.false_eq_true]
    exact hskipped (h.mono (List.subset_cons_self _ _)) ih
  | case5 i rest h₁ h₂ ih =>
    rw [fromHead.eq_def]
    simp only [h₁, h₂, if_true, if_false, Bool.false_eq_true]
    exact hskipped (h.mono (List.subset_cons_self _ _)) ih
  | case6 i rest h₁ h₂ h₃ ih =>
    rw [fromHead.eq_def]
    simp only [h₁, h₂, h₃, if_true, if_false, Bool.false_eq_true]
    exact ih (h.mono (List.subset_cons_self _ _))
  | case7 i rest h₁ h₂ h₃ =>
    rw [fromHead.eq_def]
    simp only [h₁, h₂, h₃, if_false, Bool.false_eq_true]

theorem Agree.head?_eq {indices : List Nat} (h : Agree tokens partners final indices) :
    head? tokens final indices = head? tokens partners indices := by
  rw [head?, head?, fromHead_agree h]

/-! ### Runs that go on -/

/-- A block follows `class`. -/
theorem expectsBlock_of_isClass (h : IsClass head) (run : Run) :
    Scan.expectsBlock tokens run head = true := by
  have hblock : blockDeclarations.contains head.keyword := by
    rw [h.2]
    decide +kernel
  simp only [Scan.expectsBlock, h.1, hblock, Bool.true_or]

/-- The leading word of a run, if it is kept, is what a lookup finds by the final pairs. -/
def Run.Fresh (tokens : Array Token) (final : Array (Option Nat)) (run : Run) : Prop :=
  ∀ head ∈ run.head, head? tokens final run.indices.toList = some head

/-- No more tokens can change the leading word of a run. -/
def Run.Firm (run : Run) : Prop := ∀ head ∈ run.head, ¬IsClass head

namespace Run

theorem Fresh.of_head (h : run.head = none) : run.Fresh tokens final := by
  simp [Run.Fresh, h]

theorem Firm.of_head (h : run.head = none) : run.Firm := by
  simp [Run.Firm, h]

theorem Fresh.push (h : run.Fresh tokens final) (hfirm : run.Firm) (i : Nat) :
    (run.push i).Fresh tokens final := by
  intro head hhead
  rw [Run.push, Array.toList_push]
  exact head?_append (h head hhead) (hfirm head hhead)

end Run

/-- A lookup by the pairs so far gives what one by the final pairs gives. -/
theorem Run.Fresh.classify (h : run.Fresh tokens final)
    (hagree : Agree tokens partners final run.indices.toList) :
    (Scan.classify tokens partners run).1.Fresh tokens final ∧
      (Scan.classify tokens partners run).2 =
        (head? tokens final run.indices.toList).getD noHead := by
  unfold Scan.classify
  split
  · next head hhead => exact ⟨h, by rw [h head hhead, Option.getD_some]⟩
  · next hnone =>
    rw [hagree.head?_eq]
    split
    · next head hhead =>
      refine ⟨fun found hfound => ?_, by rw [hhead, Option.getD_some]⟩
      obtain rfl := Option.some.inj hfound
      exact hagree.head?_eq.trans hhead
    · next hlooked => exact ⟨h, by rw [hlooked, Option.getD_none]⟩

/-! ### One token -/

namespace Scan

variable {s : Scan} {i : Nat} {t : Token} {end_ : Text}

/-- All that the scan knows of leading words is what a lookup finds by the final pairs, and stays so
for the runs that wait for the end of a closure. -/
structure Fresh (tokens : Array Token) (final : Array (Option Nat)) (s : Scan) : Prop where
  run : s.run.Fresh tokens final
  waiting : ∀ c resume depth, .closure c resume depth ∈ s.stack →
    resume.Fresh tokens final ∧ resume.Firm
  segments : ∀ seg ∈ s.segments, seg.toHead = (head? tokens final seg.indices).getD noHead

/-- Whether only trivia comes before the next opening brace. -/
def AwaitsBrace (tokens : Array Token) (i : Nat) : Prop :=
  ∃ j, i ≤ j ∧ tokenIs tokens (·.isMark '{') j ∧
    ∀ m, i ≤ m → m < j → tokenIs tokens (·.isTrivia) m

/-- No more tokens can change the leading word of the run, or an opening brace comes next. -/
def Poised (tokens : Array Token) (s : Scan) (i : Nat) : Prop :=
  s.run.Firm ∨ s.groupDepth = 0 ∧ AwaitsBrace tokens i

theorem AwaitsBrace.succ (h : AwaitsBrace tokens i) (ht : tokens[i]? = some t)
    (hbrace : t.isMark '{' = false) : t.isTrivia ∧ AwaitsBrace tokens (i + 1) := by
  obtain ⟨j, hij, hj, htrivia⟩ := h
  have hne : i ≠ j := by
    rintro rfl
    rw [tokenIs_of_getElem? ht, hbrace] at hj
    cases hj
  have hti := htrivia i (Nat.le_refl i) (by omega)
  rw [tokenIs_of_getElem? ht] at hti
  exact ⟨hti, j, by omega, hj, fun m hm => htrivia m (by omega)⟩

theorem Poised.succ (h : s.Poised tokens i) (ht : tokens[i]? = some t)
    (hbrace : t.isMark '{' = false) : s.Poised tokens (i + 1) :=
  h.imp_right (And.imp_right fun hawaits => (hawaits.succ ht hbrace).2)

/-- In front of code other than an opening brace the leading word of the run stays. -/
theorem Poised.firm (h : s.Poised tokens i) (ht : tokens[i]? = some t)
    (hloud : t.isTrivia = false) (hbrace : t.isMark '{' = false) : s.run.Firm := by
  refine h.resolve_right ?_
  rintro ⟨-, hawaits⟩
  rw [(hawaits.succ ht hbrace).1] at hloud
  cases hloud

theorem classify_unknown (partners : Array (Option Nat)) (indices : List Nat) :
    (classify tokens partners { indices := indices.toArray }).2 =
      (head? tokens partners indices).getD noHead := by
  unfold classify
  cases h : head? tokens partners indices <;> simp

/-- Only in front of an opening brace does looking past a newline look for the leading word. -/
theorem continues_looks (s : Scan) (following : Option Nat) :
    (continues tokens s following).1 = s.run ∨
      (continues tokens s following).1 = (classify tokens s.partners s.run).1 ∧
        ∃ j ∈ following, tokenIs tokens (·.isMark '{') j := by
  simp only [continues]
  split_ifs
  · exact .inl rfl
  · exact .inl rfl
  · split
    · exact .inl rfl
    · next upcoming hupcoming =>
      split_ifs with hkind _ hbrace
      · exact .inl rfl
      · exact .inl rfl
      · obtain ⟨j, hj, hget⟩ := Option.bind_eq_some_iff.mp hupcoming
        refine .inr ⟨rfl, j, hj, ?_⟩
        rw [tokenIs_of_getElem? hget]
        simpa [Lexeme.isMark, Lexeme.isPunct, hbrace] using hkind
      · exact .inl rfl

theorem close_head (h : s.run.Sound tokens i) (ending : Ending) :
    (s.close tokens ending).run.head = none := by
  unfold Scan.close
  split
  · next hempty => exact h.head (by simpa [Run.isEmpty] using hempty)
  · rfl

namespace Fresh

theorem with_run (h : s.Fresh tokens final) {run : Run} (hrun : run.Fresh tokens final) :
    Fresh tokens final { s with run } :=
  { h with run := hrun }

theorem push (h : s.Fresh tokens final) (hfirm : s.run.Firm) (i : Nat) :
    Fresh tokens final { s with run := s.run.push i } :=
  h.with_run (h.run.push hfirm i)

theorem toSegment (h : run.Fresh tokens final)
    (hagree : Agree tokens partners final run.indices.toList) (ending : Ending) :
    (toSegment tokens partners run ending).toHead =
      (head? tokens final (Scan.toSegment tokens partners run ending).indices).getD noHead :=
  (h.classify hagree).2

theorem close (h : s.Fresh tokens final)
    (hagree : Agree tokens s.partners final s.run.indices.toList) (ending : Ending) :
    (s.close tokens ending).Fresh tokens final := by
  refine ⟨?_, by simpa using h.waiting, fun seg hseg => ?_⟩
  · unfold Scan.close
    split
    · exact h.run
    · exact .of_head rfl
  · rw [close_segments] at hseg
    split at hseg
    · exact h.segments seg hseg
    · rcases List.mem_cons.mp hseg with rfl | hseg
      · exact toSegment h.run hagree ending
      · exact h.segments seg hseg

section

variable (h : s.Fresh tokens final) (hs : s.run.Sound tokens i) (hpoised : s.Poised tokens i)
  (hagree : s.groupDepth = 0 → Agree tokens s.partners final s.run.indices.toList)
include h

theorem closeGroup (hfirm : s.run.Firm) (mark : Char) :
    (s.closeGroup mark i).Fresh tokens final ∧ (s.closeGroup mark i).run.Firm := by
  have hpush := h.push hfirm i
  unfold Scan.closeGroup
  split
  · next hfound =>
    obtain ⟨-, hsub⟩ := groupOpener?_spec hfound
    refine ⟨⟨hpush.run, fun c resume depth hframe => ?_, hpush.segments⟩, hfirm⟩
    exact h.waiting c resume depth (hsub hframe)
  · exact ⟨hpush, hfirm⟩

theorem closeBrace (hfirm : s.run.Firm)
    (hagree : (braceOpener? s.stack).isSome → Agree tokens s.partners final s.run.indices.toList) :
    (s.closeBrace tokens i).Fresh tokens final ∧ (s.closeBrace tokens i).run.Firm := by
  unfold Scan.closeBrace
  split
  · exact ⟨h.push hfirm i, hfirm⟩
  · next frame below hfound =>
    obtain ⟨hframe, -, hsub⟩ := braceOpener?_spec hfound
    have hclosed := h.close (hagree (by rw [hfound]; rfl)) { boundary := some i }
    have hwaiting : ∀ c resume depth, .closure c resume depth ∈ below →
        resume.Fresh tokens final ∧ resume.Firm :=
      fun c resume depth hmem => h.waiting c resume depth (hsub hmem)
    simp only
    split
    · next c resume depth =>
      obtain ⟨hresume, hfirm⟩ := h.waiting c resume depth hframe
      exact ⟨⟨hresume.push hfirm i, hwaiting, hclosed.segments⟩, hfirm⟩
    · exact ⟨⟨.of_head rfl, hwaiting, hclosed.segments⟩, .of_head rfl⟩

include hs

theorem label (hfirm : s.run.Firm) (hcolon : tokenIs tokens (·.isMark ':') i)
    (hagree : Agree tokens s.partners final s.run.indices.toList) (ending : Ending) :
    (Scan.close tokens { s with run := s.run.push i } ending).Fresh tokens final ∧
      (Scan.close tokens { s with run := s.run.push i } ending).run.Firm := by
  refine ⟨close (s := { s with run := s.run.push i }) (h.push hfirm i) ?_ ending, ?_⟩
  · intro m hm hmark
    simp only [Run.push, Array.toList_push, List.mem_append, List.mem_singleton] at hm
    rcases hm with hm | rfl
    · exact hagree m hm hmark
    · obtain ⟨t, ht, hround⟩ := tokenIs_iff.mp hmark
      rw [tokenIs_of_getElem? ht, not_isMark hround (by decide)] at hcolon
      cases hcolon
  · unfold Scan.close
    split
    · exact hfirm
    · exact .of_head rfl

theorem terminator (hagree : Agree tokens s.partners final s.run.indices.toList) :
    (s.terminator tokens i).Fresh tokens final ∧ (s.terminator tokens i).run.Firm := by
  have hlooked := (h.run.classify hagree).1
  have hsame := @classify_same tokens s.partners s.run
  unfold Scan.terminator
  simp only
  split
  · next hfor =>
    have hfirm : (classify tokens s.partners s.run).1.Firm := by
      rintro head hhead ⟨hkind, -⟩
      rw [← classify_head hhead, hfor.1] at hkind
      cases hkind
    exact ⟨h.with_run (hlooked.push hfirm i), hfirm⟩
  · refine ⟨close (s := { s with run := (classify tokens s.partners s.run).1 })
      (h.with_run hlooked) ?_ _, .of_head (close_head (classify_sound hs) _)⟩
    rwa [← hsame.indices] at hagree

include hpoised hagree

theorem newline (ht : tokens[i]? = some t) (hnewline : t.kind = .newline) {following : Option Nat}
    (hfollowing : ∀ j ∈ following, i < j ∧ Quiet tokens i j) :
    (s.newline tokens following i).Fresh tokens final ∧
      (s.newline tokens following i).Poised tokens (i + 1) := by
  have hbrace : t.isMark '{' = false := by simp [Lexeme.isMark, Lexeme.isPunct, hnewline]
  have hkept := hpoised.succ ht hbrace
  unfold Scan.newline
  split
  · next hwaits =>
    have hagree := hagree hwaits.1
    rcases @continues_looks tokens s following with hrun | ⟨hrun, j, hj, hopens⟩
    · simp only [hrun]
      split
      · exact ⟨h, hkept⟩
      · exact ⟨h.close hagree _, .inl (.of_head (close_head hs _))⟩
    · have hlooked := (h.run.classify hagree).1
      have hsame := @classify_same tokens s.partners s.run
      simp only [hrun]
      split
      · obtain ⟨hij, hquiet⟩ := hfollowing j hj
        exact ⟨h.with_run hlooked, .inr ⟨hwaits.1, j, hij, hopens, fun m hm => hquiet m hm⟩⟩
      · refine ⟨close (s := { s with run := (classify tokens s.partners s.run).1 })
          (h.with_run hlooked) ?_ _, .inl (.of_head (close_head (classify_sound hs) _))⟩
        rwa [← hsame.indices] at hagree
  · exact ⟨h, hkept⟩

theorem openBrace :
    (s.openBrace tokens i).Fresh tokens final ∧ (s.openBrace tokens i).run.Firm := by
  have hlooked (found : Run × Head)
      (hfound : found = if s.groupDepth = 0 ∧ !s.run.isEmpty then classify tokens s.partners s.run
        else (s.run, noHead)) :
      found.1.Fresh tokens final ∧ found.1.indices = s.run.indices ∧
        (¬(s.groupDepth = 0 ∧ (found.1.isEmpty ∨ expectsBlock tokens found.1 found.2)) →
          found.1.Firm) := by
    subst hfound
    split_ifs with hwaits
    · refine ⟨(h.run.classify (hagree hwaits.1)).1, classify_indices _ _, fun hclosure => ?_⟩
      intro head hhead hclass
      rw [← classify_head hhead] at hclass
      exact hclosure ⟨hwaits.1, .inr (expectsBlock_of_isClass hclass _)⟩
    · refine ⟨h.run, rfl, fun hclosure => ?_⟩
      refine hpoised.resolve_right fun ⟨hgroup, _⟩ => hclosure ⟨hgroup, .inl ?_⟩
      simpa [hgroup] using hwaits
  unfold Scan.openBrace
  generalize hfound : (if s.groupDepth = 0 ∧ !s.run.isEmpty then classify tokens s.partners s.run
    else (s.run, noHead)) = found
  obtain ⟨hrun, hindices, hfirm⟩ := hlooked found hfound.symm
  simp only
  split
  · next hblock =>
    refine ⟨⟨.of_head rfl, fun c resume depth hframe => ?_, ?_⟩, .of_head rfl⟩
    · exact h.waiting c resume depth ((List.mem_cons.mp hframe).resolve_left (by simp))
    · simp only
      split
      · exact h.segments
      · refine List.forall_mem_cons.mpr ⟨toSegment hrun ?_ _, h.segments⟩
        rw [hindices]
        exact hagree hblock.1
  · next hclosure =>
    refine ⟨⟨.of_head rfl, fun c resume depth hframe => ?_, h.segments⟩, .of_head rfl⟩
    rcases List.mem_cons.mp hframe with heq | hframe
    · obtain ⟨rfl, rfl, rfl⟩ := Frame.closure.inj heq
      exact ⟨hrun.push (hfirm hclosure) c, hfirm hclosure⟩
    · exact h.waiting c resume depth hframe

theorem significant (ht : tokens[i]? = some t) (hloud : t.isTrivia = false)
    (hbraces : t.isMark '}' → (braceOpener? s.stack).isSome →
      Agree tokens s.partners final s.run.indices.toList) :
    (s.significant tokens end_ t i).Fresh tokens final ∧
      (s.significant tokens end_ t i).run.Firm := by
  unfold Scan.significant
  by_cases hbrace : t.isMark '{'
  · have hmark (c : Char) (hc : '{' ≠ c) : t.isMark c = false := not_isMark hbrace hc
    simp only [hmark, hbrace, ne_eq, Char.reduceEq, not_false_eq_true, Bool.false_eq_true, if_false,
      if_true]
    exact h.openBrace hs hpoised hagree
  · have hfirm := hpoised.firm ht hloud (by simpa using hbrace)
    have hpush := h.push hfirm i
    have hwaiting (mark : Char) : ∀ c resume depth,
        .closure c resume depth ∈ Frame.group mark i :: s.stack →
          resume.Fresh tokens final ∧ resume.Firm := fun c resume depth hframe =>
      h.waiting c resume depth ((List.mem_cons.mp hframe).resolve_left (by simp))
    split_ifs with hround hsquare hround' hsquare' hbrace' hend hlabel
    · exact ⟨{ hpush with waiting := hwaiting '(' }, hfirm⟩
    · exact ⟨{ hpush with waiting := hwaiting '[' }, hfirm⟩
    · exact h.closeGroup hfirm _
    · exact h.closeGroup hfirm _
    · exact h.closeBrace hfirm (hbraces hbrace')
    · exact h.terminator hs (hagree hend.2)
    · refine h.label hs hfirm ?_ (hagree hlabel.2.1) _
      rw [tokenIs_of_getElem? ht]
      exact hlabel.1
    · exact ⟨h.with_run hpush.run, hfirm⟩

end

/-- One step of the scan. -/
theorem step (h : s.Fresh tokens final) (hs : s.run.Sound tokens i) (hpoised : s.Poised tokens i)
    (ht : tokens[i]? = some t) {following : Nat → Option Nat}
    (hfollowing : ∀ j ∈ following i, i < j ∧ Quiet tokens i j)
    (hagree : s.groupDepth = 0 ∨ t.isMark '}' ∧ (braceOpener? s.stack).isSome →
      Agree tokens s.partners final s.run.indices.toList) :
    (s.step tokens end_ following i t).Fresh tokens final ∧
      (s.step tokens end_ following i t).Poised tokens (i + 1) := by
  let noted : Scan := { s with nesting := s.nesting.push s.stack.length }
  have hnoted : noted.Fresh tokens final := { h with }
  have houtside : noted.groupDepth = 0 → Agree tokens noted.partners final noted.run.indices.toList :=
    fun hgroup => hagree (.inl hgroup)
  unfold Scan.step
  simp only
  split_ifs with hnewline htrivia
  · exact hnoted.newline hs hpoised houtside ht hnewline hfollowing
  · refine ⟨hnoted, hpoised.succ ht ?_⟩
    by_contra hbrace
    rw [not_isTrivia (c := '{') (by simpa using hbrace)] at htrivia
    cases htrivia
  · obtain ⟨hfresh, hfirm⟩ := hnoted.significant hs hpoised houtside ht (by simpa using htrivia)
      fun hbrace hopen => hagree (.inr ⟨hbrace, hopen⟩)
    exact ⟨hfresh, .inl hfirm⟩

end Fresh

/-! ### The end of the text -/

variable {list : List Token} {k m : Nat}

/-- A bracket that is not open has its final partner. -/
theorem partnerIn_scanned (hk : k ≤ list.length) (hm : m < k)
    (hopen : ∀ frame ∈ (before list end_ k).stack, frame.index ≠ m) :
    partnerIn (scanned list end_).partners m = partnerIn (before list end_ k).partners m := by
  cases hpair : partnerIn (before list end_ k).partners m with
  | none => exact Lost.scanned hk ⟨hm, hopen, hpair⟩
  | some b => rw [← ofTokens_partner?, ((partner_before_iff hk).mp hpair).1]

/-- Where a run ends, the partners of its brackets are final. -/
theorem before_agree (ht : list[k]? = some t)
    (hends : (before list end_ k).groupDepth = 0 ∨
      t.isMark '}' ∧ (braceOpener? (before list end_ k).stack).isSome) :
    Agree list.toArray (before list end_ k).partners (scanned list end_).partners
      (before list end_ k).run.indices.toList := by
  have hk := (List.getElem?_eq_some_iff.mp ht).1
  have hinv := @before_invariant list end_ k hk.le
  intro m hm _
  have hmk := hinv.sound.run.lt m hm
  rcases hends with hgroup | ⟨hbrace, hopen⟩
  · exact partnerIn_scanned hk.le hmk fun frame hframe => (index_lt_run hk.le hgroup hm frame hframe).ne
  · -- The brace that closes drops the groups that are open inside, and what is open around it was
    -- open before the run began.
    obtain ⟨⟨frame, below⟩, hfound⟩ := Option.isSome_iff_exists.mp hopen
    obtain ⟨above, hstack, hisBrace, -⟩ := braceOpener?_eq_some hfound
    have hframe : frame ∈ (before list end_ k).stack := by simp [hstack]
    have hlt : frame.index < m :=
      hinv.housed.run.inside m hm _ (mem_openBraces.mpr ⟨frame, hframe, hisBrace, rfl⟩)
    have hunder : ∀ f ∈ below, f.index < frame.index := by
      have hsorted := hinv.nested.sorted
      rw [hstack] at hsorted
      exact fun f hf => List.rel_of_pairwise_cons (List.pairwise_append.mp hsorted).2.1 hf
    obtain ⟨hbelow, hpartners⟩ := @step_closes end_ t list.toArray _ frame below hbrace hfound
      (nextAfter list) k
    rw [← before_succ ht] at hbelow hpartners
    have hfinal := @partnerIn_scanned end_ list (k + 1) m hk (Nat.lt_succ_of_lt hmk) fun f hf =>
      ((hunder f (hbelow ▸ hf)).trans hlt).ne
    rw [hfinal, hpartners]
    refine (hinv.nested.pair_eq (by simpa using hk) hframe m).trans ?_
    rw [if_neg hmk.ne, if_neg hlt.ne']

/-- Every lookup during the scan finds what one at the end of the text finds. -/
theorem before_fresh (hk : k ≤ list.length) :
    (before list end_ k).Fresh list.toArray (scanned list end_).partners ∧
      (before list end_ k).Poised list.toArray k := by
  induction k with
  | zero => exact ⟨⟨.of_head rfl, by simp [before_zero], by simp [before_zero]⟩, .inl (.of_head rfl)⟩
  | succ k ih =>
    have ht := List.getElem?_eq_getElem (show k < list.length from hk)
    obtain ⟨hfresh, hpoised⟩ := ih (Nat.le_of_succ_le hk)
    rw [before_succ ht]
    refine hfresh.step (before_invariant (Nat.le_of_succ_le hk)).sound.run hpoised
      (List.getElem?_toArray.trans ht) (fun j hj => ?_) (before_agree ht)
    obtain ⟨hkj, -, hquiet⟩ := nextAfter_eq_some.mp hj
    exact ⟨hkj, hquiet⟩

end Scan

open Scan

/-- The leading word that a segment or the header of a block has on record, what it makes of it and
where it stands are what a lookup finds at the end, by the pairs of the whole text and in all the
tokens of the segment, however early the word was first looked up. -/
theorem ofTokens_classified (list : List Token) (end_ : Text) :
    let outline := Outline.ofTokens list end_
    let fresh (seg : Segment) : Head :=
      (classify outline.tokens outline.partners { indices := seg.indices.toArray }).2
    (∀ seg ∈ outline.segments, seg.toHead = fresh seg) ∧
      ∀ block ∈ outline.headers, block.2.toHead = fresh block.2 := by
  intro outline fresh
  have hsegments : ∀ seg ∈ outline.segments, seg.toHead = fresh seg := by
    intro seg hseg
    have hfresh := (@before_fresh end_ list list.length (Nat.le_refl _)).1
    rw [before_length] at hfresh
    have hclosed := hfresh.close (fun _ _ _ => rfl) { boundary := none }
    rw [hclosed.segments seg ((ofTokens_segments_perm list end_).mem_iff.mp hseg),
      ← ofTokens_partners]
    exact (classify_unknown _ _).symm
  exact ⟨hsegments, fun block hblock => hsegments _ (mem_of_mem_headers hblock).1⟩

end Outline
end HouseStyle
