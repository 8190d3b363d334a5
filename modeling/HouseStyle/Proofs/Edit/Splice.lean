import HouseStyle.Proofs.Edit.Selection
import HouseStyle.Proofs.Text.Utf8

/-! Where applied fixes land. Splicing fixes in from left to right gives what substituting them one
by one from right to left gives; each replacement stands at its new span, and what lies outside the
new spans is what lay outside the old ones. -/

namespace HouseStyle

/-- Spans in order from an offset on, up to the end of a text. -/
def Ascending (cursor size : Nat) : List Span → Prop
  | [] => cursor ≤ size
  | s :: rest => cursor ≤ s.start ∧ Ascending s.stop size rest

theorem Ascending.cursor_le {cursor size : Nat} {spans : List Span}
    (h : Ascending cursor size spans) : cursor ≤ size := by
  induction spans generalizing cursor with
  | nil => exact h
  | cons s rest ih =>
    have := s.start_le_stop
    have := h.1
    have := ih h.2
    omega

/-- Spans that follow one another and lie in a text are in order. -/
theorem ascending_of_pairwise {cursor size : Nat} {spans : List Span} (hcursor : cursor ≤ size)
    (hstart : ∀ s ∈ spans, cursor ≤ s.start) (hstop : ∀ s ∈ spans, s.stop ≤ size)
    (h : spans.Pairwise fun s t => t.Follows s) : Ascending cursor size spans := by
  induction spans generalizing cursor with
  | nil => exact hcursor
  | cons s rest ih =>
    obtain ⟨hs, hrest⟩ := List.pairwise_cons.mp h
    exact ⟨hstart s (by simp), ih (hstop s (by simp)) (fun t ht => (hs t ht).2)
      (fun t ht => hstop t (by simp [ht])) hrest⟩

/-! ### Substitution from right to left -/

/-- The text with one fix put in. -/
def Proposal.substitute (p : Proposal) (text : Text) : Text :=
  text.take p.span.start ++ p.fix.insertion ++ text.drop p.span.stop

theorem splice_eq_foldr (text : Text) {cursor : Nat} {ps : List Proposal}
    (h : Ascending cursor text.length (ps.map Proposal.span)) :
    text.take cursor ++ splice text cursor ps = ps.foldr Proposal.substitute text := by
  induction ps generalizing cursor with
  | nil => simp [splice]
  | cons p rest ih =>
    obtain ⟨hstart, hrest⟩ := h
    have hle := p.span.start_le_stop
    have hsize := hrest.cursor_le
    have hstop : (text.take p.span.stop).length = p.span.stop := by
      rw [List.length_take]
      omega
    rw [List.foldr_cons, ← ih hrest, Proposal.substitute, List.take_append_of_le_length (by omega),
      List.take_take, Nat.min_eq_left hle, List.drop_append_of_le_length (by omega),
      List.drop_eq_nil_of_le (Nat.le_of_eq hstop), List.nil_append, splice, ← List.append_assoc,
      ← List.append_assoc]
    congr 2
    rw [← List.drop_take, ← Nat.min_eq_left hstart, ← List.take_take, Nat.min_eq_left hstart,
      List.take_append_drop]

/-! ### Places in the new text -/

/-- The parts of a text outside some spans, from an offset on. -/
def outside (text : Text) (cursor : Nat) : List Span → List Text
  | [] => [text.drop cursor]
  | s :: rest => (text.drop cursor).take (s.start - cursor) :: outside text s.stop rest

@[simp] theorem placeEdits_map_proposal (shift : Int) (ps : List Proposal) :
    (placeEdits shift ps).map (·.proposal) = ps := by
  induction ps generalizing shift with
  | nil => rfl
  | cons p rest ih => simp [placeEdits, ih]

/-- The symbols that a span holds. -/
def Span.slice (s : Span) (text : Text) : Text := (text.drop s.start).take s.length

/-- How edits land: each replacement stands at its new span, the new spans are in order, and
outside of them stands what stood outside the old ones. -/
structure Lands (text result : Text) (cursor start : Nat) (edits : List AppliedEdit) : Prop where
  ascending : Ascending start result.length (edits.map (·.newSpan))
  slice_eq : ∀ e ∈ edits, e.newSpan.slice result = e.proposal.fix.insertion
  outside_eq : outside result start (edits.map (·.newSpan)) =
    outside text cursor (edits.map (·.oldSpan))

variable {text done : Text} {cursor : Nat} {shift : Int} {p : Proposal} {rest : List Proposal}

/-- What stands before the rest once the fix `p` is put in after `done`. -/
def through (text done : Text) (cursor : Nat) (p : Proposal) : Text :=
  done ++ (text.drop cursor).take (p.span.start - cursor) ++ p.fix.insertion

theorem through_append_splice : through text done cursor p ++ splice text p.span.stop rest =
    done ++ splice text cursor (p :: rest) := by
  simp [through, splice]

theorem length_through (hstart : cursor ≤ p.span.start) (hsize : p.span.stop ≤ text.length) :
    (through text done cursor p).length =
      done.length + (p.span.start - cursor) + p.fix.insertion.length := by
  have := p.span.start_le_stop
  simp only [through, List.length_append, List.length_take, List.length_drop]
  omega

/-- With `done` standing before, as much longer than the old text up to `cursor` as `shift` says,
the fixes land from the end of `done` on. -/
theorem placeEdits_lands {ps : List Proposal} (hdone : (done.length : Int) = cursor + shift)
    (h : Ascending cursor text.length (ps.map Proposal.span)) :
    Lands text (done ++ splice text cursor ps) cursor done.length (placeEdits shift ps) := by
  induction ps generalizing done cursor shift with
  | nil =>
    refine ⟨?_, by simp [placeEdits], ?_⟩
    · simp [placeEdits, Ascending]
    · simp [placeEdits, outside, splice]
  | cons p rest ih =>
    obtain ⟨hstart, hrest⟩ := h
    have hle := p.span.start_le_stop
    have hsize := hrest.cursor_le
    have hnew : ((p.span.start : Int) + shift).toNat = done.length + (p.span.start - cursor) := by
      omega
    have hlength := @length_through text done cursor p hstart hsize
    have hlands := @ih (through text done cursor p) p.span.stop
      (shift + p.fix.insertion.length - p.span.length) (by rw [hlength, Span.length]; omega) hrest
    rw [through_append_splice, hlength] at hlands
    have hgap : (done ++ (text.drop cursor).take (p.span.start - cursor)).length =
        done.length + (p.span.start - cursor) := by
      simp only [List.length_append, List.length_take, List.length_drop]
      omega
    have hresult : done ++ splice text cursor (p :: rest) =
        (done ++ (text.drop cursor).take (p.span.start - cursor)) ++
          (p.fix.insertion ++ splice text p.span.stop rest) := by
      simp [splice]
    simp only [placeEdits, hnew]
    refine ⟨?_, ?_, ?_⟩
    · exact ⟨Nat.le_add_right _ _, hlands.ascending⟩
    · intro e he
      rcases List.mem_cons.mp he with rfl | he
      · simp only [Span.slice, Span.length, hresult, List.drop_left' hgap]
        exact List.take_left' (by omega)
      · exact hlands.slice_eq e he
    · simp only [List.map_cons, outside, hlands.outside_eq]
      congr 1
      rw [List.drop_left, splice, List.append_assoc, Nat.add_sub_cancel_left]
      refine List.take_left' ?_
      simp only [List.length_append] at hgap
      omega

/-! ### Stray bytes

Fixes that bring no stray bytes together begin and end with characters, or what stands beside them
does. A fix may end openly only behind a parenthesis that it takes away, and a fix may begin openly
only where none stands before it, so two fixes that touch are safe as well. -/

/-- A fix that changes nothing. -/
def Fix.Idle (fix : Fix) : Prop := fix.span.start = fix.span.stop ∧ fix.insertion = []

/-- A fix that puts no stray byte beside another one. -/
structure Fix.Apart (fix : Fix) (text : Text) : Prop where
  decoded : fix.insertion.IsDecoded
  left : (∃ s, fix.insertion.head? = some s ∧ s.isCharacter) ∨
    ∀ s ∈ (text.take fix.span.start).getLast?, s.isCharacter ∧ s ≠ .char ')'
  right : (∃ s, fix.insertion.getLast? = some s ∧ s.isCharacter) ∨
    (text.take fix.span.stop).getLast? = some (.char ')') ∧
      ∀ s ∈ (text.drop fix.span.stop).head?, s.isCharacter

variable {ps : List Proposal}

/-- Behind a parenthesis that no stray byte follows, fixes bring none. -/
theorem splice_head?_isCharacter (h : Ascending cursor text.length (ps.map Proposal.span))
    (hfixes : ∀ p ∈ ps, p.fix.Idle ∨ p.fix.Apart text)
    (hlast : (text.take cursor).getLast? = some (.char ')'))
    (hhead : ∀ s ∈ (text.drop cursor).head?, s.isCharacter) :
    ∀ s ∈ (splice text cursor ps).head?, s.isCharacter := by
  induction ps generalizing cursor with
  | nil => exact hhead
  | cons p rest ih =>
    obtain ⟨hstart, hrest⟩ := h
    rcases hstart.lt_or_eq with hlt | heq
    · have hsize := hrest.cursor_le
      have hle := p.span.start_le_stop
      have hne : (text.drop cursor).take (p.span.start - cursor) ≠ [] := by
        refine List.ne_nil_of_length_pos ?_
        rw [List.length_take, List.length_drop]
        omega
      rw [splice, List.append_assoc, List.head?_append_of_ne_nil _ hne,
        List.head?_take, if_neg (by omega)]
      exact hhead
    · rw [splice, ← heq, Nat.sub_self, List.take_zero, List.nil_append]
      rcases hfixes p List.mem_cons_self with ⟨hspan, hnone⟩ | hapart
      · rw [hnone, List.nil_append]
        have hcursor : p.span.stop = cursor := hspan.symm.trans heq.symm
        rw [hcursor] at hrest ⊢
        exact ih hrest (fun q hq => hfixes q (List.mem_cons_of_mem _ hq)) hlast hhead
      · rcases hapart.left with ⟨s, hs, hchar⟩ | hbefore
        · intro s' hs'
          rw [List.head?_append, hs] at hs'
          cases hs'
          exact hchar
        · have hspan : p.fix.span.start = cursor := heq.symm
          rw [hspan] at hbefore
          exact absurd rfl (hbefore _ hlast).2

/-- A decoded text stays one under fixes that bring no stray bytes together. -/
theorem isDecoded_take_splice (h : Ascending cursor text.length (ps.map Proposal.span))
    (htext : text.IsDecoded) (hfixes : ∀ p ∈ ps, p.fix.Idle ∨ p.fix.Apart text) :
    Text.IsDecoded (text.take cursor ++ splice text cursor ps) := by
  induction ps generalizing cursor with
  | nil => rwa [splice, List.take_append_drop]
  | cons p rest ih =>
    obtain ⟨hstart, hrest⟩ := h
    have hlater := ih hrest fun q hq => hfixes q (List.mem_cons_of_mem _ hq)
    have hsplit : text.take cursor ++ splice text cursor (p :: rest) =
        text.take p.span.start ++ (p.fix.insertion ++ splice text p.span.stop rest) := by
      rw [splice, ← List.append_assoc, ← List.append_assoc, ← List.append_assoc]
      congr 2
      rw [← List.drop_take, ← Nat.min_eq_left hstart, ← List.take_take, Nat.min_eq_left hstart,
        List.take_append_drop]
    rw [hsplit]
    rcases hfixes p List.mem_cons_self with ⟨hspan, hnone⟩ | hapart
    · rw [hnone, List.nil_append, show p.span.start = p.span.stop from hspan]
      exact hlater
    · have hbehind : Text.IsDecoded (p.fix.insertion ++ splice text p.span.stop rest) := by
        refine hapart.decoded.append hlater.of_append_right ?_
        rcases hapart.right with ⟨s, hs, hchar⟩ | ⟨hlast, hhead⟩
        · refine .inl fun a ha => ?_
          rw [hs] at ha
          cases ha
          exact hchar
        · exact .inr (splice_head?_isCharacter hrest
            (fun q hq => hfixes q (List.mem_cons_of_mem _ hq)) hlast hhead)
      refine (htext.take _).append hbehind ?_
      rcases hapart.left with ⟨s, hs, hchar⟩ | hbefore
      · refine .inr fun a ha => ?_
        rw [List.head?_append, hs] at ha
        cases ha
        exact hchar
      · exact .inl fun a ha => (hbefore a ha).1

theorem isDecoded_splice (h : Ascending 0 text.length (ps.map Proposal.span))
    (htext : text.IsDecoded) (hfixes : ∀ p ∈ ps, p.fix.Idle ∨ p.fix.Apart text) :
    (splice text 0 ps).IsDecoded := by
  have := isDecoded_take_splice h htext hfixes
  rwa [List.take_zero, List.nil_append] at this

end HouseStyle
