import HouseStyle.Proofs.Edit.Splice

/-! Applying fixes is a rewrite without conflicts. Every fix of a finding that is not suppressed is
applied or skipped; a skipped one lies outside the text or overlaps an applied one that its report
names; and the new text is the old one with the applied replacements at their new spans. Proposals
come in order of their starts, so the fix accepted last reaches furthest, and it is all that a
selection has to remember: a proposal clear of it is clear of every fix accepted before. -/

namespace HouseStyle

/-! ### Candidates -/

/-- Whether the fix of a finding may be applied: it has one and is not suppressed. -/
def Finding.isCandidate (f : Finding) : Bool := !f.suppressed && f.fix.isSome

theorem map_finding_filterMap (findings : List Finding) :
    (findings.filterMap Proposal.ofFinding?).map (·.finding) =
      findings.filter Finding.isCandidate := by
  induction findings with
  | nil => rfl
  | cons f rest ih =>
    cases hs : f.suppressed <;> cases hf : f.fix <;>
      simp [Proposal.ofFinding?, Finding.isCandidate, hs, hf, ih]

theorem mem_of_mem_proposals {findings : List Finding} {p : Proposal}
    (h : p ∈ proposals findings) : p.finding ∈ findings ∧ p.finding.fix = some p.fix := by
  have := (proposals_perm findings).mem_iff.mp h
  simp only [List.mem_filterMap, Proposal.ofFinding?] at this
  obtain ⟨f, hf, hp⟩ := this
  split_ifs at hp
  obtain ⟨fix, hfix, rfl⟩ := Option.map_eq_some_iff.mp hp
  exact ⟨hf, hfix⟩

theorem Skipped.toFinding_conflicts (k : Skipped) :
    k.toFinding.metadata.field? "conflicts_with" =
      match k.reason with
      | .outside => none
      | .overlap blocker => some (.text blocker.finding.ruleId) := by
  obtain ⟨p, reason⟩ := k
  cases reason <;> rfl

/-! ### The rewrite -/

/-- A rewrite of a text by the fixes of findings, without conflicts. -/
structure FixResult.Rewrites (r : FixResult) (text : Text) (findings : List Finding) : Prop where
  /-- The candidates are the applied and the skipped findings, each counted once. -/
  split : (r.applied.map (·.proposal.finding) ++ r.skipped.map (·.proposal.finding)).Perm
    (findings.filter Finding.isCandidate)
  count : r.appliedCount + r.skippedCount = (findings.filter Finding.isCandidate).length
  applied_fix : ∀ e ∈ r.applied, e.proposal.finding.fix = some e.proposal.fix
  skipped_fix : ∀ k ∈ r.skipped, k.proposal.finding.fix = some k.proposal.fix
  clear : r.applied.Pairwise fun d e => d.oldSpan.overlaps e.oldSpan = false
  inside : ∀ e ∈ r.applied, e.oldSpan.stop ≤ text.length
  /-- A skipped fix lies outside the text or overlaps an applied one, whose rule it names. -/
  skipped_reason : ∀ k ∈ r.skipped, text.length < k.proposal.span.stop ∨
    ∃ e ∈ r.applied, k.proposal.span.overlaps e.oldSpan ∧
      k.toFinding.metadata.field? "conflicts_with" = some (.text e.proposal.finding.ruleId)
  ascending : Ascending 0 text.length (r.applied.map (·.oldSpan))
  /-- The applied fixes can be put in one by one, the rightmost first. -/
  text_eq : r.text = (r.applied.map (·.proposal)).foldr Proposal.substitute text
  lands : Lands text r.text 0 0 r.applied

section

variable (text : Text) (findings : List Finding)

/-- The selection that `applyFixes` makes. -/
abbrev selected : Selection := select text.length (proposals findings)

theorem selected_perm : ((selected text findings).accepted.reverse ++
    (selected text findings).skipped.reverse.map (·.proposal)).Perm (proposals findings) := by
  have h := (select_sound text.length findings).perm
  rw [List.map_reverse]
  exact ((List.reverse_perm _).append (List.reverse_perm _)).trans
    (h.trans (List.reverse_perm _))

@[simp] theorem applied_map_proposal :
    (applyFixes text findings).applied.map (·.proposal) = (selected text findings).accepted.reverse :=
  placeEdits_map_proposal _ _

theorem applied_map_oldSpan : (applyFixes text findings).applied.map (·.oldSpan) =
    (selected text findings).accepted.reverse.map Proposal.span := by
  rw [← applied_map_proposal, List.map_map]
  rfl

theorem mem_applied {a : Proposal} (h : a ∈ (selected text findings).accepted) :
    ∃ e ∈ (applyFixes text findings).applied, e.proposal = a := by
  have : a ∈ (applyFixes text findings).applied.map (·.proposal) := by simpa using h
  exact List.mem_map.mp this

theorem accepted_of_mem_applied {e : AppliedEdit} (h : e ∈ (applyFixes text findings).applied) :
    e.proposal ∈ (selected text findings).accepted := by
  have : e.proposal ∈ (applyFixes text findings).applied.map (·.proposal) :=
    List.mem_map_of_mem h
  simpa using this

theorem mem_of_mem_skipped {text : Text} {findings : List Finding} {k : Skipped}
    (h : k ∈ (applyFixes text findings).skipped) :
    k.proposal.finding ∈ findings ∧ k.proposal.finding.fix = some k.proposal.fix := by
  apply mem_of_mem_proposals
  apply (selected_perm text findings).mem_iff.mp
  exact List.mem_append_right _ (List.mem_map_of_mem h)

theorem accepted_ascending :
    Ascending 0 text.length ((selected text findings).accepted.reverse.map Proposal.span) := by
  have h := select_sound text.length findings
  refine ascending_of_pairwise (Nat.zero_le _) (by simp) ?_ ?_
  · intro s hs
    obtain ⟨a, ha, rfl⟩ := List.mem_map.mp hs
    exact h.inside a (List.mem_reverse.mp ha)
  · rw [List.pairwise_map, List.pairwise_reverse]
    exact h.follows

/-- Applying fixes to a text is a rewrite without conflicts, for any text and any findings. -/
theorem applyFixes_rewrites : (applyFixes text findings).Rewrites text findings := by
  have hsound := select_sound text.length findings
  have hperm := selected_perm text findings
  have hascending := accepted_ascending text findings
  have hsplit : ((applyFixes text findings).applied.map (·.proposal.finding) ++
      (applyFixes text findings).skipped.map (·.proposal.finding)).Perm
        (findings.filter Finding.isCandidate) := by
    have := (hperm.trans (proposals_perm findings)).map (·.finding)
    rw [map_finding_filterMap, List.map_append, ← applied_map_proposal, List.map_map,
      List.map_map] at this
    exact this
  refine ⟨hsplit, ?_, ?_, ?_, ?_, ?_, ?_, ?_, ?_, ?_⟩
  · have := hsplit.length_eq
    simpa [FixResult.appliedCount, FixResult.skippedCount] using this
  · intro e he
    have := accepted_of_mem_applied text findings he
    exact (mem_of_mem_proposals (hperm.mem_iff.mp (by simp [this]))).2
  · intro k hk
    have hk' : k ∈ (selected text findings).skipped := List.mem_reverse.mp hk
    refine (mem_of_mem_proposals (hperm.mem_iff.mp (List.mem_append_right _ ?_))).2
    exact List.mem_map_of_mem (List.mem_reverse.mpr hk')
  · have hfollows := List.pairwise_reverse.mpr hsound.follows
    rw [← applied_map_proposal, List.pairwise_map] at hfollows
    exact hfollows.imp fun h => by rw [AppliedEdit.oldSpan, Span.overlaps_comm]; exact h.not_overlaps
  · intro e he
    exact hsound.inside _ (accepted_of_mem_applied text findings he)
  · intro k hk
    have hjustified := hsound.justified k (List.mem_reverse.mp hk)
    rw [k.toFinding_conflicts]
    unfold Selection.Justified at hjustified
    cases hreason : k.reason with
    | outside => exact .inl (by simpa [hreason] using hjustified)
    | overlap blocker =>
      simp only [hreason] at hjustified
      obtain ⟨e, he, rfl⟩ := mem_applied text findings hjustified.1
      exact .inr ⟨e, he, hjustified.2, rfl⟩
  · rwa [applied_map_oldSpan]
  · rw [applied_map_proposal, ← splice_eq_foldr text hascending]
    rfl
  · exact @placeEdits_lands text [] 0 0 _ rfl hascending

end

/-! ### One fix -/

/-- A fix that lies in the text is applied if it is the only one. -/
theorem applyFixes_single {text : Text} {f : Finding} {fix : Fix} (hopen : f.suppressed = false)
    (hfix : f.fix = some fix) (hstop : fix.span.stop ≤ text.length) :
    (applyFixes text [f]).skipped = [] ∧ (applyFixes text [f]).appliedCount = 1 ∧
      (applyFixes text [f]).text =
        text.take fix.span.start ++ fix.insertion ++ text.drop fix.span.stop := by
  have hproposals : proposals [f] = [⟨f, fix⟩] := by
    simp [proposals, Proposal.ofFinding?, hopen, hfix]
  have haccepted : select text.length [⟨f, fix⟩] = Selection.accept {} ⟨f, fix⟩ := by
    have hstart : ¬(fix.span.start : Int) < -1 := by omega
    simp [select, Selection.step, Proposal.span, Nat.not_lt.mpr hstop, hstart]
  simp [applyFixes, hproposals, haccepted, Selection.accept, FixResult.appliedCount, placeEdits,
    splice, Proposal.span]

/-! ### Fixes apart -/

/-- Fixes in a text that are clear of one another are all applied, in the order of their starts. -/
theorem applyFixes_apart {text : Text} {findings : List Finding}
    (hinside : ∀ p ∈ proposals findings, p.span.stop ≤ text.length)
    (happart : (proposals findings).Pairwise fun p q => p.span.overlaps q.span = false) :
    (applyFixes text findings).skipped = [] ∧
      ∃ ps : List Proposal, (applyFixes text findings).applied.map (·.proposal) = ps ∧
        ps.Perm (proposals findings) ∧ ps.Pairwise (fun p q => p.span.start < q.span.start) ∧
        (applyFixes text findings).text = splice text 0 ps := by
  have hsound := select_sound text.length findings
  have hperm := selected_perm text findings
  have hclear := hperm.symm.pairwise happart fun {p q} h => by
    rwa [Span.overlaps_comm]
  have hskipped : (applyFixes text findings).skipped = [] := by
    rw [List.eq_nil_iff_forall_not_mem]
    intro k hk
    have hmem : k.proposal ∈ (selected text findings).skipped.reverse.map (·.proposal) :=
      List.mem_map_of_mem hk
    have hin := hinside _ (hperm.mem_iff.mp (List.mem_append_right _ hmem))
    have hjustified := hsound.justified k (List.mem_reverse.mp hk)
    unfold Selection.Justified at hjustified
    cases hreason : k.reason with
    | outside =>
      simp only [hreason] at hjustified
      omega
    | overlap blocker =>
      simp only [hreason] at hjustified
      obtain ⟨haccepted, hoverlap⟩ := hjustified
      rw [Span.overlaps_comm, (List.pairwise_append.mp hclear).2.2 _ (List.mem_reverse.mpr haccepted)
        _ hmem] at hoverlap
      cases hoverlap
  refine ⟨hskipped, _, applied_map_proposal text findings, ?_, ?_, rfl⟩
  · have hnone : (selected text findings).skipped.reverse = [] := hskipped
    rwa [hnone, List.map_nil, List.append_nil] at hperm
  · rw [List.pairwise_reverse]
    exact hsound.follows.imp fun h => h.1

/-- Fixes that stand one behind another in a text are put in as they stand. -/
theorem applyFixes_of_follows {text : Text} {findings : List Finding} {fixes : List Fix}
    (hopen : ∀ f ∈ findings, f.suppressed = false)
    (hfixes : (findings.filterMap (·.fix)).Perm fixes)
    (hinside : ∀ fix ∈ fixes, fix.span.stop ≤ text.length)
    (hfollows : fixes.Pairwise fun fix fix' => fix'.span.Follows fix.span) :
    (applyFixes text findings).skipped = [] ∧
      ∃ ps : List Proposal, ps.map (·.fix) = fixes ∧ (applyFixes text findings).text = splice text 0 ps := by
  have hall : (findings.filterMap Proposal.ofFinding?).map (·.fix) = findings.filterMap (·.fix) := by
    rw [List.map_filterMap]
    refine List.filterMap_congr fun f hf => ?_
    rw [Proposal.ofFinding?, hopen f hf]
    cases f.fix <;> rfl
  have hproposals : ((proposals findings).map (·.fix)).Perm fixes :=
    ((proposals_perm findings).map _).trans ((List.Perm.of_eq hall).trans hfixes)
  have happart := hproposals.symm.pairwise (hfollows.imp fun {fix fix'} h => h.not_overlaps)
    fun {fix fix'} h => by rwa [Span.overlaps_comm]
  obtain ⟨hskipped, ps, -, hperm, hsorted, htext⟩ := @applyFixes_apart text findings
    (fun p hp => hinside p.fix (hproposals.mem_iff.mp (List.mem_map_of_mem hp)))
    ((List.pairwise_map.mp happart).imp fun {p q} h => by rwa [Span.overlaps_comm])
  refine ⟨hskipped, ps, ?_, htext⟩
  exact @List.Perm.eq_of_pairwise Fix (fun fix fix' => fix.span.start < fix'.span.start) _ _
    (fun fix fix' _ _ h h' => absurd h (Nat.lt_asymm h')) (List.pairwise_map.mpr hsorted)
    (hfollows.imp fun h => h.1) ((hperm.map _).trans hproposals)

/-- Fixes that only insert, each at its own offset of a text, are all applied. -/
theorem applyFixes_insertions {text : Text} {findings : List Finding}
    (hempty : ∀ p ∈ proposals findings, p.span.stop = p.span.start ∧ p.span.start ≤ text.length)
    (hnodup : ((proposals findings).map (·.span.start)).Nodup) :
    (applyFixes text findings).skipped = [] ∧
      ∃ ps : List Proposal, (applyFixes text findings).applied.map (·.proposal) = ps ∧
        ps.Perm (proposals findings) ∧ ps.Pairwise (fun p q => p.span.start < q.span.start) ∧
        (applyFixes text findings).text = ps.foldr Proposal.substitute text := by
  obtain ⟨hskipped, ps, happlied, hperm, hsorted, htext⟩ := @applyFixes_apart text findings
    (fun p hp => (hempty p hp).1.trans_le (hempty p hp).2) (by
      refine (List.pairwise_map.mp hnodup).imp_of_mem fun {p q} hp hq hne => ?_
      obtain ⟨hstop, -⟩ := hempty p hp
      obtain ⟨hstop', -⟩ := hempty q hq
      simp only [Span.overlaps, Bool.or_eq_false_iff, decide_eq_false_iff_not, Bool.and_eq_false_iff]
      omega)
  refine ⟨hskipped, ps, happlied, hperm, hsorted, ?_⟩
  have haccepted := happlied.symm.trans (applied_map_proposal text findings)
  rw [htext, haccepted, ← splice_eq_foldr text (accepted_ascending text findings)]
  rfl

namespace Selection

/-! ### The last accepted fix -/

/-- What a selection has on record is its last accepted fix, and no accepted fix ends behind it. -/
structure Latest (s : Selection) : Prop where
  reach : ∀ last ∈ s.accepted.head?, s.reach = last.span.stop
  blocker : ∀ last ∈ s.accepted.head?, s.blocker = last
  furthest : ∀ a ∈ s.accepted, (a.span.stop : Int) ≤ s.reach

/-- Takes the next proposal by the last accepted fix alone. -/
def stepByLast (size : Nat) (s : Selection) (p : Proposal) : Selection :=
  if size < p.span.stop then s.skip p .outside
  else match s.accepted.head? with
    | some last => if p.span.overlaps last.span then s.skip p (.overlap last) else s.accept p
    | none => s.accept p

variable {size : Nat} {seen : List Proposal} {s : Selection} {p : Proposal}

namespace Sound

variable (h : s.Sound size seen)
include h

theorem reach_eq_stop : ∀ last ∈ s.accepted.head?, s.reach = last.span.stop := by
  intro last hlast
  rw [h.reach_eq, Option.mem_def.mp hlast]
  rfl

theorem stop_le_reach : ∀ a ∈ s.accepted, (a.span.stop : Int) ≤ s.reach := by
  intro a ha
  obtain ⟨last, earlier, haccepted⟩ := List.exists_cons_of_ne_nil (List.ne_nil_of_mem ha)
  have hfollows := h.follows
  rw [h.reach_eq_stop last (by simp [haccepted])]
  rw [haccepted] at ha hfollows
  rcases List.mem_cons.mp ha with rfl | ha
  · exact Int.le_refl _
  · have := (List.rel_of_pairwise_cons hfollows ha).2
    have := last.span.start_le_stop
    omega

variable (hp : ∀ a ∈ s.accepted, a.span.start ≤ p.span.start)
include hp

/-- A proposal clear of the last accepted fix is clear of all of them and starts behind their reach. -/
theorem clear_of_last (hclear : ∀ last ∈ s.accepted.head?, p.span.overlaps last.span = false) :
    s.reach ≤ p.span.start ∧ ∀ a ∈ s.accepted, p.span.overlaps a.span = false := by
  have hfollows := h.follows_accepted hp hclear
  refine ⟨?_, fun a ha => (hfollows a ha).not_overlaps⟩
  cases hlast : s.accepted.head? with
  | none =>
    rw [h.reach_eq, hlast, Option.map_none, Option.getD_none]
    omega
  | some last =>
    rw [h.reach_eq_stop last hlast]
    exact_mod_cast (hfollows last (List.mem_of_mem_head? hlast)).2

/-- No proposal is held up by the reach alone. -/
theorem step_eq : s.step size p = s.stepByLast size p := by
  have hreach := h.clear_of_last hp
  unfold Selection.step stepByLast
  split
  · rfl
  cases hlast : s.accepted.head? with
  | none =>
    have := (hreach (by simp [hlast])).1
    exact if_neg (by omega)
  | some last =>
    by_cases hoverlap : p.span.overlaps last.span
    · simp only [hoverlap, if_true]
    · have := (hreach fun l hl => by
        obtain rfl := Option.some.inj (hlast.symm.trans hl)
        simpa using hoverlap).1
      simp only [if_neg hoverlap, if_neg (show ¬(p.span.start : Int) < s.reach by omega)]

theorem step_blocker (hblocker : ∀ last ∈ s.accepted.head?, s.blocker = last) :
    ∀ last ∈ (s.step size p).accepted.head?, (s.step size p).blocker = last := by
  obtain ⟨-, hs⟩ | ⟨last, -, -, hs⟩ | ⟨-, -, hs⟩ | ⟨-, hclear, hs⟩ := step_cases size s p <;> rw [hs]
  · exact hblocker
  · exact hblocker
  · exact hblocker
  · have hfurther : s.reach ≤ p.span.stop := by
      have := (h.clear_of_last hp hclear).1
      have := p.span.start_le_stop
      omega
    intro last hlast
    obtain rfl : p = last := Option.some.inj hlast
    simp only [Selection.accept, hfurther, decide_true, if_true]

end Sound

/-! ### Every step of a selection -/

section

variable {taken rest : List Proposal}
  (hsorted : (taken ++ rest).Pairwise fun a b => a.span.start ≤ b.span.start)
include hsorted

/-- What holds after some of the proposals that come in order. -/
theorem sound_latest (size : Nat) :
    Sound size taken.reverse (select size taken) ∧ (select size taken).Latest := by
  have hstate := foldl_induction (s := {})
    (P := fun seen s => s.Sound size seen ∧ ∀ last ∈ s.accepted.head?, s.blocker = last)
    (fun seen s p h hp => ⟨h.1.step hp, h.1.step_blocker hp h.2⟩) ⟨sound_start size, by simp⟩
    (List.pairwise_append.mp hsorted).1 (by simp)
  rw [List.append_nil] at hstate
  exact ⟨hstate.1, hstate.1.reach_eq_stop, hstate.2, hstate.1.stop_le_reach⟩

/-- What was accepted starts no later than what comes next. -/
theorem start_le_of_accepted {a : Proposal} (ha : a ∈ (select size taken).accepted) (hp : p ∈ rest) :
    a.span.start ≤ p.span.start := by
  have hseen := (sound_latest hsorted size).1.perm.mem_iff.mp (List.mem_append_left _ ha)
  exact (List.pairwise_append.mp hsorted).2.2 a (List.mem_reverse.mp hseen) p hp

theorem foldl_step_eq : rest.foldl (Selection.step size) (select size taken) =
    rest.foldl (stepByLast size) (select size taken) := by
  induction rest generalizing taken with
  | nil => rfl
  | cons p rest ih =>
    have hstep := (sound_latest hsorted size).1.step_eq (p := p) fun a ha =>
      start_le_of_accepted hsorted ha List.mem_cons_self
    have hnext : select size (taken ++ [p]) = (select size taken).step size p := by
      simp [select]
    have := @ih (taken ++ [p]) (by simpa using hsorted)
    rw [hnext] at this
    rw [List.foldl_cons, List.foldl_cons, this, hstep]

end

end Selection

/-! ### Splicing -/

/-- Where splicing stands behind some fixes. -/
def cursorAfter (cursor : Nat) : List Proposal → Nat
  | [] => cursor
  | p :: rest => cursorAfter p.span.stop rest

theorem exists_splice_append (text : Text) (cursor : Nat) (before rest : List Proposal) :
    ∃ done, splice text cursor (before ++ rest) =
      done ++ splice text (cursorAfter cursor before) rest := by
  induction before generalizing cursor with
  | nil => exact ⟨[], rfl⟩
  | cons p before ih =>
    obtain ⟨done, hdone⟩ := ih p.span.stop
    exact ⟨(text.drop cursor).take (p.span.start - cursor) ++ p.fix.insertion ++ done, by
      rw [List.cons_append, splice, hdone, cursorAfter]
      simp only [List.append_assoc]⟩

theorem Ascending.cursorAfter_le {cursor size : Nat} {before rest : List Proposal} {p : Proposal}
    (h : Ascending cursor size ((before ++ p :: rest).map Proposal.span)) :
    cursorAfter cursor before ≤ p.span.start := by
  induction before generalizing cursor with
  | nil => exact h.1
  | cons q before ih => exact ih h.2

/-! ### The selection that is made -/

/-- A selection needs only its last accepted fix. At every step what it has on record is that fix,
which reaches furthest, and a proposal clear of it is clear of all accepted ones and starts at or
behind their reach. So the reach holds up no proposal that the last accepted fix lets through, the
same is selected without looking at it, and each fix is put in at or behind the place up to which
the text is done. -/
theorem select_by_last (text : Text) (findings : List Finding) :
    (∀ taken rest, proposals findings = taken ++ rest →
      let s := select text.length taken
      s.Latest ∧ ∀ p ∈ rest.head?,
        ((∀ last ∈ s.accepted.head?, p.span.overlaps last.span = false) →
          s.reach ≤ p.span.start ∧ ∀ a ∈ s.accepted, p.span.overlaps a.span = false) ∧
        s.step text.length p = s.stepByLast text.length p) ∧
    select text.length (proposals findings) =
      (proposals findings).foldl (Selection.stepByLast text.length) {} ∧
    ∀ before p rest, (applyFixes text findings).applied.map (·.proposal) = before ++ p :: rest →
      cursorAfter 0 before ≤ p.span.start ∧ ∃ done,
        (applyFixes text findings).text = done ++ splice text (cursorAfter 0 before) (p :: rest) := by
  have hsorted := proposals_pairwise findings
  refine ⟨fun taken rest hcut => ?_, ?_, fun before p rest happlied => ?_⟩
  · rw [hcut] at hsorted
    obtain ⟨hsound, hlatest⟩ := Selection.sound_latest hsorted text.length
    refine ⟨hlatest, fun p hp => ?_⟩
    have hstart : ∀ a ∈ (select text.length taken).accepted, a.span.start ≤ p.span.start :=
      fun a ha => Selection.start_le_of_accepted hsorted ha (List.mem_of_mem_head? hp)
    exact ⟨hsound.clear_of_last hstart, hsound.step_eq hstart⟩
  · exact @Selection.foldl_step_eq text.length [] _ hsorted
  · rw [applied_map_proposal] at happlied
    have hascending := accepted_ascending text findings
    rw [happlied] at hascending
    obtain ⟨done, hdone⟩ := exists_splice_append text 0 before (p :: rest)
    refine ⟨hascending.cursorAfter_le, done, ?_⟩
    rw [← hdone, ← happlied]
    rfl

end HouseStyle
