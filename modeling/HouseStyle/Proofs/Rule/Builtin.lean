import HouseStyle.Proofs.Rule.Markers
import HouseStyle.Proofs.Rule.Unwrapping

/-! Every fix of a rule that comes with the checker is a repair. -/

namespace HouseStyle

open Outline Rule

/-! ### Rules without fixes -/

namespace Rule

variable {c : Context} {r : Remark} {rs : List Remark}

theorem Termination.crowding_fix {n : Nat} (h : Termination.crowding c n = .ok rs) (hr : r ∈ rs) :
    r.fix = none := by
  unfold Termination.crowding at h
  cases hreach : Termination.reach c n with
  | error e => simp [hreach, bind, Except.bind] at h
  | ok reach =>
    rw [hreach] at h
    cases h
    obtain ⟨t, -, rfl⟩ := List.mem_map.mp hr
    rfl

theorem Declarations.untyped_fix {o : Outline} {s : Segment} (hr : r ∈ Declarations.untyped o s) :
    r.fix = none := by
  unfold Declarations.untyped at hr
  split_ifs at hr
  · obtain ⟨i, -, hi⟩ := List.mem_filterMap.mp hr
    obtain ⟨name, -, rfl⟩ := Option.map_eq_some_iff.mp hi
    rfl
  · cases hr

theorem Declarations.forced_fix {o : Outline} {i : Nat} (hr : Declarations.forced o i = some r) :
    r.fix = none := by
  unfold Declarations.forced at hr
  split at hr
  · cases hr
  · split_ifs at hr
    obtain ⟨message, -, rfl⟩ := Option.map_eq_some_iff.mp hr
    rfl

theorem Members.inType_fix {o : Outline} {brace : Nat} (hr : r ∈ Members.inType o brace) :
    r.fix = none := by
  simp only [Members.inType] at hr
  split_ifs at hr
  · cases hr
  · obtain ⟨member, -, hr⟩ := List.mem_flatMap.mp hr
    unfold Members.inMember at hr
    split_ifs at hr
    · split at hr
      · cases hr
      · split at hr
        · cases hr
        · simp only [Members.inBody] at hr
          obtain ⟨i, -, hi⟩ := List.mem_filterMap.mp hr
          split at hi
          · cases hi
          · split_ifs at hi
            cases hi
            rfl
    · cases hr

theorem Members.separated_fix {seen : List Text} {previous : Option Text} {names : List Token}
    (hr : r ∈ Members.separated seen previous names) : r.fix = none := by
  induction names generalizing seen previous with
  | nil => cases hr
  | cons name rest ih =>
    simp only [Members.separated] at hr
    split_ifs at hr
    · rcases List.mem_cons.mp hr with rfl | hr
      · rfl
      · exact ih hr
    · exact ih hr

end Rule

/-! ### All rules -/

/-- The fix of any remark of a rule that comes with the checker puts in a text, lies in the text
that is checked, and is a repair if it spares what it must. -/
theorem repair_of_mem_remarks {text : Text} {c : Context} (h : c.Reads text) {kind : RuleKind}
    (hkind : kind ∈ builtinKinds) {rs : List Remark}
    (hrs : kind.remarks kind.metadata.options c = .ok rs) {r : Remark} (hr : r ∈ rs) {fix : Fix}
    (hfix : r.fix = some fix) :
    (∃ t, fix.replacement = .text t) ∧ fix.Fits text ∧
      (fix.Spares text → Repair (lexemes text) fix) := by
  have hrepaired {t : Text} (hnew : fix.replacement = .text t) (hrepair : Repair (lexemes text) fix) :
      (∃ t, fix.replacement = .text t) ∧ fix.Fits text ∧
        (fix.Spares text → Repair (lexemes text) fix) :=
    ⟨⟨t, hnew⟩, hrepair.fits_lexemes, fun _ => hrepair⟩
  have hnone {P : Prop} (hr : r.fix = none) : P := by
    rw [hfix] at hr
    cases hr
  simp only [builtinKinds, List.mem_cons, List.not_mem_nil, or_false] at hkind
  rcases hkind with rfl | rfl | rfl | rfl | rfl | rfl | rfl | rfl | rfl | rfl
  · have hall : Termination.allMissing c = .ok rs := hrs
    simp only [Termination.allMissing] at hall
    split_ifs at hall
    · cases hall
      obtain ⟨s, hs, hmissing⟩ := List.mem_filterMap.mp hr
      obtain ⟨-, last, -, -, hnew, -⟩ := Termination.missing_spec hmissing hfix
      exact hrepaired (hnew.trans h.terminator) (h.repair_of_missing hs hmissing hfix)
  · obtain ⟨n, -, here, hhere, hr⟩ := Remark.mem_collect hrs hr
    exact hnone (Termination.crowding_fix hhere hr)
  · obtain ⟨block, hblock, here, hhere, hr⟩ := Remark.mem_collect hrs hr
    obtain ⟨brace, last, -, -, -, hnew, -⟩ := Braces.misplaced_spec hhere hr hfix
    exact hrepaired hnew (h.repair_of_misplaced hblock hhere hr hfix)
  · obtain ⟨s, hs, here, hhere, hr⟩ := Remark.mem_collect hrs hr
    obtain ⟨message, hwrap, -⟩ := Parentheses.unwrapped_spec hhere hr
    obtain ⟨i, j, first, last, -, -, -, -, hnew, -⟩ := Parentheses.wrapping_spec hwrap hr hfix
    exact hrepaired hnew (h.repair_of_unwrapped hs hhere hr hfix)
  · obtain ⟨s, hs, here, hhere, hr⟩ := Remark.mem_collect hrs hr
    refine ⟨?_, h.fits_of_misgrouped hs hhere hr hfix, h.repair_of_misgrouped hs hhere hr hfix⟩
    obtain ⟨⟨hunwrap, -⟩ | ⟨message, hwrap⟩, -⟩ := Parentheses.misgrouped_spec hhere hr
    · obtain ⟨i, j, opener, closer, -, -, -, -, -, hnew⟩ :=
        Parentheses.unwrapping_spec hunwrap hr hfix
      exact ⟨_, hnew⟩
    · obtain ⟨i, j, first, last, -, -, -, -, hnew, -⟩ := Parentheses.wrapping_spec hwrap hr hfix
      exact ⟨_, hnew⟩
  · cases hrs
    obtain ⟨s, -, hr⟩ := List.mem_flatMap.mp hr
    exact hnone (Declarations.untyped_fix hr)
  · cases hrs
    obtain ⟨i, -, hr⟩ := List.mem_filterMap.mp hr
    exact hnone (Declarations.forced_fix hr)
  · have hmarkers : Markers.ofOption ((Markers.commentMarkers.metadata.options.lookup
        (.text "markers")).getD (.texts Markers.defaultMarkers)) = .ok Markers.defaultMarkers := rfl
    simp only [Markers.commentMarkers] at hrs hmarkers
    rw [hmarkers] at hrs
    cases hrs
    obtain ⟨t, ht, hr⟩ := List.mem_flatMap.mp hr
    have hrepair := repair_of_inComment Markers.defaultMarkers_areWords
      (h.with_default.mem_tokenize ht) hr hfix
    unfold Markers.inComment at hr
    split_ifs at hr
    · obtain ⟨m, -, hr⟩ := List.mem_filterMap.mp hr
      obtain ⟨-, -, hnew | hnew, -⟩ := Markers.remark?_spec hr hfix
      · exact hrepaired hnew hrepair
      · exact hrepaired hnew hrepair
    · cases hr
  · cases hrs
    obtain ⟨brace, -, hr⟩ := List.mem_flatMap.mp hr
    exact hnone (Members.inType_fix hr)
  · cases hrs
    obtain ⟨container, -, hr⟩ := List.mem_flatMap.mp hr
    exact hnone (Members.separated_fix hr)

end HouseStyle
