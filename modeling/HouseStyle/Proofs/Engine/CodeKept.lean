import HouseStyle.Proofs.Edit.ConflictFree
import HouseStyle.Proofs.Edit.Repaired
import HouseStyle.Proofs.Engine.Checked

/-! Fixing a text keeps its code. Whatever fixes are applied together, the tokens of the new text are
those of the old one apart from white space, comments, semicolons and parentheses, as long as the
fixes spare what holds the code apart. -/

namespace HouseStyle

/-- Kinds and texts of the tokens that carry code, without semicolons and parentheses. -/
def code (text : Text) : List (TokenKind × Text) :=
  ((tokenize text).filter fun t =>
    !t.isTrivia && !(t.isMark ';' || t.isMark '(' || t.isMark ')')).map fun t => (t.kind, t.text)

theorem code_eq_kept (text : Text) : code text = kept (lexemes text) := by
  rw [code, kept, ← tokenize_map_toLexeme, List.filter_map, List.map_map]
  rfl

/-- A text with repairs in it has the code of the text. -/
theorem code_splice {text : Text} {ps : List Proposal}
    (h : Ascending 0 text.length (ps.map Proposal.span))
    (hrepair : ∀ p ∈ ps, Repair (lexemes text) p.fix) (hspares : ∀ p ∈ ps, p.fix.Spares text) :
    code (splice text 0 ps) = code text := by
  have hjoined : joined (lexemes text) = text := lexemes_join text
  have hbreaks : (∃ l ∈ lexemes text, l.isGrave) → ∀ p ∈ ps,
      (p.span.slice (joined (lexemes text))).countP Sym.isBreak ≤
        p.fix.insertion.countP Sym.isBreak := by
    rintro ⟨l, hl, hgrave⟩ p hp
    rw [hjoined]
    refine (hspares p hp).breaks ?_
    rw [← tokenize_map_toLexeme] at hl
    obtain ⟨t, ht, rfl⟩ := List.mem_map.mp hl
    exact ⟨t, ht, hgrave⟩
  have hmended := mended_of_repairs (isLexed_lexemes text) hrepair hbreaks (Nat.zero_le _)
    (by rwa [offset_zero, hjoined])
  rw [offset_zero, hjoined, List.drop_zero] at hmended
  rw [code_eq_kept, code_eq_kept]
  exact hmended.kept_eq (isLexed_lexemes text) id

/-- The fix of an applied edit is the fix of a finding. -/
theorem exists_of_mem_applied {text : Text} {findings : List Finding} {e : AppliedEdit}
    (h : e ∈ (applyFixes text findings).applied) :
    ∃ f ∈ findings, f.fix = some e.proposal.fix := by
  have haccepted := accepted_of_mem_applied text findings h
  have hproposal : e.proposal ∈ proposals findings :=
    (selected_perm text findings).mem_iff.mp (by simp [haccepted])
  exact ⟨e.proposal.finding, mem_of_mem_proposals hproposal⟩

theorem checkReplacements_eq_ok {vs : List Value} (h : ∀ v ∈ vs, ∃ t, v = .text t) :
    checkReplacements vs = .ok () := by
  have hlength : vs.find? (fun v => !v.hasLength) = none := by
    rw [List.find?_eq_none]
    intro v hv
    obtain ⟨t, rfl⟩ := h v hv
    simp [Value.hasLength]
  have htext : vs.findIdx? (fun v => !v.isText) = none := by
    rw [List.findIdx?_eq_none_iff]
    intro v hv
    obtain ⟨t, rfl⟩ := h v hv
    rfl
  simp only [checkReplacements, hlength, htext]

section

variable {text filePath : Text} {findings : List Finding}

/-- Fixes that put in texts can be applied. -/
theorem fixText_of_texts
    (h : ∀ f ∈ findings, ∀ fix, f.fix = some fix → ∃ t, fix.replacement = .text t) :
    ∃ result, fixText text findings filePath = .ok result ∧
      result.text = (applyFixes text findings).text ∧
      result.applied = (applyFixes text findings).applied := by
  have hreplacements : checkReplacements
      ((applyFixes text findings).applied.map AppliedEdit.replacement) = .ok () := by
    refine checkReplacements_eq_ok fun v hv => ?_
    obtain ⟨e, he, rfl⟩ := List.mem_map.mp hv
    obtain ⟨f, hf, hfix⟩ := exists_of_mem_applied he
    exact h f hf _ hfix
  simp only [fixText, hreplacements, bind, Except.bind, pure, Except.pure]
  exact ⟨_, rfl, rfl, rfl⟩

/-- Whether the fix of a finding is the fix of a rule that comes with the checker. -/
def Finding.Builtin (text filePath : Text) (f : Finding) : Prop :=
  ∃ kind ∈ Rule.builtinKinds, ∃ rs,
    kind.remarks kind.metadata.options (Context.ofTokens (tokenize text) filePath) = .ok rs ∧
      ∃ r ∈ rs, r.fix = f.fix

theorem Finding.Builtin.repair {f : Finding} (h : f.Builtin text filePath) {fix : Fix}
    (hfix : f.fix = some fix) :
    (∃ t, fix.replacement = .text t) ∧ fix.Fits text ∧
      (fix.Spares text → Repair (lexemes text) fix) := by
  obtain ⟨kind, hkind, rs, hrs, r, hr, hr'⟩ := h
  exact repair_of_mem_remarks (Engine.reads_ofTokens text filePath) hkind hrs hr (hr'.trans hfix)

theorem repair_of_mem_applied (h : ∀ f ∈ findings, f.Builtin text filePath) {e : AppliedEdit}
    (he : e ∈ (applyFixes text findings).applied) :
    (∃ t, e.proposal.fix.replacement = .text t) ∧ e.proposal.fix.Fits text ∧
      (e.proposal.fix.Spares text → Repair (lexemes text) e.proposal.fix) := by
  obtain ⟨f, hf, hfix⟩ := exists_of_mem_applied he
  exact (h f hf).repair hfix

/-- Applying the fixes of rules that come with the checker keeps the code. -/
theorem code_applyFixes (h : ∀ f ∈ findings, f.Builtin text filePath)
    (hspares : ∀ e ∈ (applyFixes text findings).applied, e.proposal.fix.Spares text) :
    code (applyFixes text findings).text = code text := by
  have hmem {p : Proposal} (hp : p ∈ (selected text findings).accepted.reverse) :
      ∃ e ∈ (applyFixes text findings).applied, e.proposal = p :=
    mem_applied text _ (List.mem_reverse.mp hp)
  refine code_splice (accepted_ascending text findings) (fun p hp => ?_) fun p hp => ?_
  · obtain ⟨e, he, rfl⟩ := hmem hp
    exact (repair_of_mem_applied h he).2.2 (hspares e he)
  · obtain ⟨e, he, rfl⟩ := hmem hp
    exact hspares e he

/-- Fixes of rules that come with the checker can be applied. -/
theorem fixText_eq_ok (h : ∀ f ∈ findings, f.Builtin text filePath) :
    ∃ result, fixText text findings filePath = .ok result ∧
      result.text = (applyFixes text findings).text ∧
      result.applied = (applyFixes text findings).applied :=
  fixText_of_texts fun f hf _ hfix => ((h f hf).repair hfix).1

end

/-- What fixing a text under the default configuration gives: the text with the fixes of findings
put in, and the fixes are those of rules that come with the checker. -/
theorem Engine.IsDefault.fixContent {engine : Engine} (h : engine.IsDefault) {text : Text}
    (hne : text ≠ []) (filePath : Text) :
    ∃ result checked, engine.fixContent text filePath = .ok (result, checked) ∧
      result.text = (applyFixes text (engine.fixable checked.findings)).text ∧
      result.applied = (applyFixes text (engine.fixable checked.findings)).applied ∧
      ∀ f ∈ engine.fixable checked.findings, f.Builtin text filePath := by
  obtain ⟨checked, hchecked, hfound⟩ := h.checkText hne filePath
  have hbuiltin : ∀ f ∈ engine.fixable checked.findings, f.Builtin text filePath := by
    intro f hf
    obtain ⟨rule, hrule, rs, hrs, hr⟩ := hfound f (List.mem_filter.mp hf).1
    obtain ⟨kind, hkind, rfl⟩ := h.rules rule hrule
    exact ⟨kind, hkind, rs, hrs, hr⟩
  obtain ⟨result, hresult, htext, happlied⟩ := fixText_eq_ok hbuiltin
  refine ⟨result, checked, ?_, htext, happlied, hbuiltin⟩
  simp only [Engine.fixContent, hchecked, Engine.fixFound, hresult, bind, Except.bind, pure,
    Except.pure]

/-- Fixing any text that is not empty under the default configuration gives a text, and it has the
same code if the applied fixes spare what holds the code apart. -/
theorem fixContent_code (text filePath : Text) (hne : text ≠ []) :
    ∃ engine result checked, Engine.create {} = .ok engine ∧
      engine.fixContent text filePath = .ok (result, checked) ∧
      ((∀ e ∈ result.applied, e.proposal.fix.Spares text) → code result.text = code text) := by
  obtain ⟨engine, hengine, hdefault⟩ := Engine.create_default
  obtain ⟨result, checked, hresult, htext, happlied, hbuiltin⟩ := hdefault.fixContent hne filePath
  refine ⟨engine, result, checked, hengine, hresult, fun hspares => ?_⟩
  rw [htext]
  rw [happlied] at hspares
  exact code_applyFixes hbuiltin hspares

/-- Any fix spares the code of a text without line comments, slashes and lone grave accents. -/
theorem Fix.spares_of_plain {text : Text} (h : ∀ t ∈ tokenize text,
    t.isLineComment = false ∧ t.text ≠ [.char '/'] ∧ t.isGrave = false) (fix : Fix) :
    fix.Spares text := by
  have hmem {span : Span} {t : Token} (ht : t ∈ lastInside text span) : t ∈ tokenize text :=
    (List.mem_filter.mp (List.mem_of_getLast? ht)).1
  refine ⟨fun _ t ht => ?_, fun _ t ht hslash => ?_, ?_⟩
  · exact (h t (hmem ht)).1
  · exact absurd hslash (h t (hmem ht)).2.1
  · rintro ⟨t, ht, hgrave⟩
    rw [(h t ht).2.2] at hgrave
    cases hgrave

theorem fixContent_code_loop : ("for (x in y) { a }" : Text) ≠ [] ∧
    ∃ engine result checked, Engine.create {} = .ok engine ∧
      engine.fixContent "for (x in y) { a }" "a.swift" = .ok (result, checked) ∧
      (code result.text).map Prod.snd = ["for", "x", "in", "y", "\x7b", "a", "\x7d"] := by
  have hne : ("for (x in y) { a }" : Text) ≠ [] := by decide
  obtain ⟨engine, result, checked, hengine, hresult, hcode⟩ :=
    fixContent_code "for (x in y) { a }" "a.swift" hne
  refine ⟨hne, engine, result, checked, hengine, hresult, ?_⟩
  rw [hcode fun e _ => Fix.spares_of_plain (by decide +kernel) e.proposal.fix]
  decide +kernel

end HouseStyle
