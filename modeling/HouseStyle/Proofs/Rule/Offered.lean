import HouseStyle.Proofs.Rule.Respelt
import HouseStyle.Proofs.Rule.Wanted

/-! The fixes that the rules offer for a text, and what is left of them when the last one is made. What
stands left of it is offered as before, and nothing new is. -/

namespace HouseStyle

open Outline

/-- A text with one fix put in. -/
def Fix.putIn (fix : Fix) (text : Text) : Text :=
  text.take fix.span.start ++ fix.insertion ++ text.drop fix.span.stop

namespace Rule

/-! ### The fixes of wants -/

namespace Want

/-- What comes in the place of a text. -/
def puts (source : Text) : Want → Text
  | finish => ";"
  | raise => " "
  | condition | classic => .char '(' :: source ++ [.char ')']

def caption : Want → Text
  | finish => "Insert ';'"
  | raise => "Move the brace up to the previous line"
  | condition => "Wrap the condition in parentheses"
  | classic => "Wrap the loop header in parentheses"

/-- A fix that does what is wanted, from one lexeme to before another one. -/
structure Gives (w : Want) (ls : List Lexeme) (i j : Nat) (fix : Fix) : Prop where
  start : fix.span.start = offset ls i
  stop : fix.span.stop = offset ls j
  replacement : fix.replacement = .text (w.puts (joined (between ls i j)))
  description : fix.description = w.caption

variable {w w' : Want} {ls ls' : List Lexeme} {i j cut : Nat} {fix fix' : Fix}

theorem exists_gives (w : Want) (ls : List Lexeme) (hij : i ≤ j) : ∃ fix, w.Gives ls i j fix :=
  ⟨{ span := ⟨offset ls i, offset ls j, offset_le_offset ls hij⟩
     replacement := .text (w.puts (joined (between ls i j)))
     description := w.caption }, rfl, rfl, rfl, rfl⟩

theorem Gives.unique (h : w.Gives ls i j fix) (h' : w.Gives ls i j fix') : fix = fix' := by
  obtain ⟨⟨start, stop, hle⟩, replacement, description⟩ := fix
  obtain ⟨⟨start', stop', hle'⟩, replacement', description'⟩ := fix'
  obtain ⟨rfl, rfl, rfl, rfl⟩ := h
  obtain ⟨rfl, rfl, rfl, rfl⟩ := h'
  rfl

/-- Descriptions tell the wants apart. -/
theorem caption_injective : Function.Injective caption := by
  intro w w'
  cases w <;> cases w' <;> decide

end Want

/-! ### Lexemes in front -/

section

variable {ls ls' : List Lexeme} {i j k cut : Nat} (h : ls'.take cut = ls.take cut)
include h

theorem getElem?_of_front (hk : k < cut) : ls'[k]? = ls[k]? := by
  rw [← List.getElem?_take_of_lt hk, h, List.getElem?_take_of_lt hk]

theorem take_of_front (hk : k ≤ cut) : ls'.take k = ls.take k := by
  rw [← Nat.min_eq_left hk, ← List.take_take, h, List.take_take]

theorem offset_of_front (hk : k ≤ cut) : offset ls' k = offset ls k := by
  rw [offset, offset, take_of_front h hk]

theorem between_of_front (hj : j ≤ cut) : between ls' i j = between ls i j := by
  rw [between, between, ← List.drop_take, ← List.drop_take, take_of_front h hj]

end

theorem Want.Gives.of_front {w : Want} {ls ls' : List Lexeme} {i j cut : Nat} {fix : Fix}
    (h : w.Gives ls i j fix) (hfront : ls'.take cut = ls.take cut) (hij : i ≤ j) (hj : j ≤ cut) :
    w.Gives ls' i j fix where
  start := h.start.trans (offset_of_front hfront (hij.trans hj)).symm
  stop := h.stop.trans (offset_of_front hfront hj).symm
  replacement := by rw [h.replacement, between_of_front hfront hj]
  description := h.description

/-! ### Offers -/

/-- A fix that does what is wanted at a segment. -/
def Wanted (text : Text) (fix : Fix) : Prop :=
  ∃ s ∈ (outlineOf text).segments, ∃ w i j, Want.at? text s w = some (i, j) ∧
    w.Gives (lexemes text) i j fix

/-- A fix of a marker in a comment. -/
def Misspelt (text : Text) (fix : Fix) : Prop :=
  ∃ i l, (lexemes text)[i]? = some l ∧ l.kind = .comment ∧
    ∃ r ∈ Markers.remarksFrom Markers.defaultMarkers (offset (lexemes text) i) 0 none l.text,
      r.fix = some fix

/-- A fix that a rule has for a text. -/
def Offered (text : Text) (fix : Fix) : Prop := Wanted text fix ∨ Misspelt text fix

section

variable {text : Text} {s : Segment} {w : Want} {i j : Nat}

theorem lt_of_mem_indices {i : Nat} (hs : s ∈ (outlineOf text).segments) (hi : i ∈ s.indices) :
    i < (lexemes text).length := by
  obtain ⟨t, ht, -⟩ := ((ofTokens_sound (tokenize text) ";").segments s hs).inOrder.loud i hi
  rw [← tokenize_length]
  exact (List.getElem?_eq_some_iff.mp (List.getElem?_toArray.symm.trans ht)).1

/-- The block of a header opens with the next token. -/
theorem boundary_of_opensBlock (hs : s ∈ (outlineOf text).segments) (hopens : s.opensBlock) :
    ∃ b, s.boundary = some b ∧ s.last < b ∧ Quiet (tokenize text).toArray s.last b ∧
      tokenIs (tokenize text).toArray (·.isMark '{') b := by
  obtain ⟨b, hblock⟩ := Scan.exists_blockAt hs hopens
  have hboundary : s.boundary = some b := by
    rw [hblock.segment]
    rfl
  exact ⟨b, hboundary, hblock.madeAt.quiet.1, hblock.madeAt.quiet.2, hblock.mark⟩

/-- What is wanted at a segment begins or ends behind its last lexeme. -/
theorem Want.at?_spec (hs : s ∈ (outlineOf text).segments) (h : w.at? text s = some (i, j)) :
    i ≤ j ∧ j ≤ (lexemes text).length ∧
      ((w = .finish ∨ w = .raise) ∧ i = s.last + 1 ∨
        (w = .condition ∨ w = .classic) ∧ i ≤ s.last ∧ j = s.last + 1) := by
  have hlast := lt_of_mem_indices hs ((ofTokens_sound (tokenize text) ";").segments s hs).last_mem
  cases w with
  | finish =>
    simp only [Want.at?] at h
    split_ifs at h
    cases h
    exact ⟨Nat.le_refl _, hlast, .inl ⟨.inl rfl, rfl⟩⟩
  | raise =>
    obtain ⟨b, hb, hbelow⟩ := Option.bind_eq_some_iff.mp h
    split_ifs at hb with hopens
    obtain ⟨-, hspan⟩ := Option.ite_none_right_eq_some.mp hbelow
    cases hspan
    obtain ⟨b', hboundary, hlt, -, hmark⟩ := boundary_of_opensBlock hs hopens
    obtain rfl := Option.some.inj (hboundary.symm.trans hb)
    obtain ⟨t, ht, -⟩ := tokenIs_iff.mp hmark
    have hsize := (List.getElem?_eq_some_iff.mp (List.getElem?_toArray.symm.trans ht)).1
    rw [tokenize_length] at hsize
    exact ⟨hlt, hsize.le, .inl ⟨.inr rfl, rfl⟩⟩
  | condition =>
    simp only [Want.at?] at h
    split_ifs at h
    obtain ⟨-, hle, rfl⟩ := tailSpan?_spec hs h
    exact ⟨by omega, hlast, .inr ⟨.inl rfl, hle, rfl⟩⟩
  | classic =>
    simp only [Want.at?] at h
    split_ifs at h
    obtain ⟨-, hle, rfl⟩ := tailSpan?_spec hs h
    exact ⟨by omega, hlast, .inr ⟨.inr rfl, hle, rfl⟩⟩

/-- A fix is that of one want at one segment. -/
theorem Want.eq_of_gives {s' : Segment} {w' : Want} {i' j' : Nat} {fix : Fix}
    (hs : s ∈ (outlineOf text).segments) (h : w.at? text s = some (i, j))
    (hgives : w.Gives (lexemes text) i j fix) (hs' : s' ∈ (outlineOf text).segments)
    (h' : w'.at? text s' = some (i', j')) (hgives' : w'.Gives (lexemes text) i' j' fix) :
    s = s' ∧ w = w' := by
  have hlexed := isLexed_lexemes text
  obtain rfl : w = w' := Want.caption_injective (hgives.description.symm.trans hgives'.description)
  obtain ⟨hij, hj, hends⟩ := Want.at?_spec hs h
  obtain ⟨hij', hj', hends'⟩ := Want.at?_spec hs' h'
  obtain rfl : i = i' := hlexed.offset_inj (hij.trans hj) (hij'.trans hj')
    (hgives.start.symm.trans hgives'.start)
  obtain rfl : j = j' := hlexed.offset_inj hj hj' (hgives.stop.symm.trans hgives'.stop)
  refine ⟨ofTokens_eq_of_last hs hs' ?_, rfl⟩
  rcases hends with ⟨rfl | rfl, hi⟩ | ⟨rfl | rfl, -, hj⟩ <;>
    rcases hends' with ⟨hw, hi'⟩ | ⟨hw, -, hj'⟩ <;> first | omega | simp at hw

end

/-! ### One fix made -/

/-- Whether no loop header is in parentheses that should not be there. -/
def NoneEnclosed (text : Text) : Prop :=
  ∀ s ∈ (outlineOf text).segments, Parentheses.isEnclosedLoop (outlineOf text)
    (Parentheses.headerTail (outlineOf text) s "for") = false

/-- A text in which some of what was wanted is done, and the lexemes up to one are as before. -/
structure Cleared (text text' : Text) (cut : Nat) (done : Segment → Want → Prop) : Prop where
  paired : (outlineOf text').AllPaired
  front : (lexemes text').take cut = (lexemes text).take cut
  segments : List.Forall₂ (fun s s' => (∀ w, ¬done s w → Want.Stays cut (w.at? text s) (w.at? text' s')) ∧
    (∀ w, done s w → w.at? text' s' = none) ∧
    (Parentheses.isEnclosedLoop (outlineOf text') (Parentheses.headerTail (outlineOf text') s' "for") →
      Parentheses.isEnclosedLoop (outlineOf text) (Parentheses.headerTail (outlineOf text) s "for")))
    (outlineOf text).segments (outlineOf text').segments

theorem exists_of_forall₂ {α β : Type} {R : α → β → Prop} {xs : List α} {ys : List β}
    (h : List.Forall₂ R xs ys) :
    (∀ x ∈ xs, ∃ y ∈ ys, R x y) ∧ ∀ y ∈ ys, ∃ x ∈ xs, R x y := by
  induction h with
  | nil => simp
  | @cons x y xs ys hxy _ ih =>
    simp only [List.forall_mem_cons, List.exists_mem_cons_iff]
    exact ⟨⟨.inl hxy, fun x hx => .inr (ih.1 x hx)⟩, .inl hxy, fun y hy => .inr (ih.2 y hy)⟩

namespace Cleared

variable {text text' : Text} {cut : Nat} {done : Segment → Want → Prop} {fix : Fix}
  (h : Cleared text text' cut done)
include h

/-- Where all else that is wanted stands left of the lexeme, it is wanted still. -/
theorem wanted_iff (hleft : ∀ s ∈ (outlineOf text).segments, ∀ w i j, ¬done s w →
      Want.at? text s w = some (i, j) → j ≤ cut) :
    Wanted text' fix ↔ ∃ s ∈ (outlineOf text).segments, ∃ w i j, ¬done s w ∧
      Want.at? text s w = some (i, j) ∧ w.Gives (lexemes text) i j fix := by
  obtain ⟨hkept, hold⟩ := exists_of_forall₂ h.segments
  constructor
  · rintro ⟨s', hs', w, i', j', hat', hgives⟩
    obtain ⟨s, hs, hstays, hdone, -⟩ := hold s' hs'
    have hnot : ¬done s w := fun hd => by simp [hdone w hd] at hat'
    obtain ⟨⟨i, j⟩, hat⟩ := Option.isSome_iff_exists.mp ((hstays w hnot).old (by simp [hat']))
    have hj := hleft s hs w i j hnot hat
    obtain ⟨rfl, rfl⟩ : i = i' ∧ j = j' := by
      have := ((hstays w hnot).same i j hat hj).symm.trans hat'
      simpa using this
    exact ⟨s, hs, w, i, j, hnot, hat, hgives.of_front h.front.symm (Want.at?_spec hs hat).1 hj⟩
  · rintro ⟨s, hs, w, i, j, hnot, hat, hgives⟩
    obtain ⟨s', hs', hstays, -⟩ := hkept s hs
    have hj := hleft s hs w i j hnot hat
    exact ⟨s', hs', w, i, j, (hstays w hnot).same i j hat hj,
      hgives.of_front h.front (Want.at?_spec hs hat).1 hj⟩

theorem noneEnclosed (hnone : NoneEnclosed text) : NoneEnclosed text' := by
  intro s' hs'
  obtain ⟨s, hs, -, -, henclosed⟩ := (exists_of_forall₂ h.segments).2 s' hs'
  have := hnone s hs
  by_contra hthere
  rw [henclosed (by simpa using hthere)] at this
  cases this

end Cleared

/-! ### Markers -/

/-- Where the fixes of markers stand in front, and the comments behind are old ones, the markers stay
as they are. -/
theorem misspelt_iff {text text' : Text} {cut : Nat} {fix : Fix}
    (hfront : (lexemes text').take cut = (lexemes text).take cut)
    (hback : ∀ i l, cut ≤ i → (lexemes text')[i]? = some l → l.kind = .comment →
      ∃ k, cut ≤ k ∧ (lexemes text)[k]? = some l)
    (hleft : ∀ fix, Misspelt text fix → fix.span.start < offset (lexemes text) cut) :
    Misspelt text' fix ↔ Misspelt text fix := by
  have hbehind (k : Nat) (l : Lexeme) (hk : cut ≤ k) (hl : (lexemes text)[k]? = some l)
      (hkind : l.kind = .comment) : ∀ r ∈ Markers.remarksFrom Markers.defaultMarkers
        (offset (lexemes text) k) 0 none l.text, r.fix = none := by
    intro r hr
    by_contra hsome
    obtain ⟨fix, hfix⟩ := Option.ne_none_iff_exists'.mp hsome
    have := hleft fix ⟨k, l, hl, hkind, r, hr, hfix⟩
    have := Markers.bounds_of_mem Markers.defaultMarkers_areWords hr hfix
    have := offset_le_offset (lexemes text) hk
    omega
  constructor
  · rintro ⟨i, l, hl, hkind, r, hr, hfix⟩
    rcases Nat.lt_or_ge i cut with hi | hi
    · rw [getElem?_of_front hfront hi] at hl
      rw [offset_of_front hfront hi.le] at hr
      exact ⟨i, l, hl, hkind, r, hr, hfix⟩
    · obtain ⟨k, hk, hlk⟩ := hback i l hi hl hkind
      obtain ⟨x', hx⟩ := Markers.exists_settles Markers.defaultMarkers l.text
      rw [hx.no_fix Markers.defaultMarkers_areWords (fun _ => rfl) (fun _ => rfl)
        (hbehind k l hk hlk hkind) r hr] at hfix
      cases hfix
  · rintro ⟨i, l, hl, hkind, r, hr, hfix⟩
    have hi : i < cut := by
      by_contra hge
      rw [hbehind i l (by omega) hl hkind r hr] at hfix
      cases hfix
    rw [← getElem?_of_front hfront hi] at hl
    rw [← offset_of_front hfront hi.le] at hr
    exact ⟨i, l, hl, hkind, r, hr, hfix⟩

/-! ### What a fix must not do -/

/-- A fix that leaves all lexemes apart: parentheses come on the line of the code before them, and no
brace comes up to a grave accent that stands alone. -/
structure Harmless (text : Text) (fix : Fix) : Prop where
  line : (fix.description = Want.condition.caption ∨ fix.description = Want.classic.caption) →
    fix.OnLine text
  grave : fix.description = Want.raise.caption → ∀ l ∈ lexemes text, l.isGrave = false

instance (text : Text) (fix : Fix) : Decidable (Harmless text fix) :=
  decidable_of_iff (((fix.description = Want.condition.caption ∨
    fix.description = Want.classic.caption) → fix.OnLine text) ∧
      (fix.description = Want.raise.caption → ∀ l ∈ lexemes text, l.isGrave = false))
    ⟨fun h => ⟨h.1, h.2⟩, fun h => ⟨h.line, h.grave⟩⟩

/-- Only tokens in front of a span stand before it. -/
theorem lastBefore_eq {text : Text} {span : Span} {cut : Nat}
    (hstart : ∀ k < (lexemes text).length, cut ≤ k → span.start < offset (lexemes text) (k + 1)) :
    lastBefore text span = (((placed {} ((lexemes text).take cut)).filter fun t =>
      t.stop ≤ span.start && !(t.kind = .whitespace || t.kind = .comment)).getLast?) := by
  have hbehind : ((tokenize text).drop cut).filter (fun t =>
      t.stop ≤ span.start && !(t.kind = .whitespace || t.kind = .comment)) = [] := by
    refine List.filter_eq_nil_iff.mpr fun t ht => ?_
    obtain ⟨k, hk⟩ := List.mem_iff_getElem?.mp ht
    rw [List.getElem?_drop] at hk
    have hlt := (List.getElem?_eq_some_iff.mp hk).1
    rw [tokenize_length] at hlt
    have hstop := (tokenize_getElem? hk).2.2
    have := hstart (cut + k) hlt (by omega)
    simp only [Bool.and_eq_true, decide_eq_true_eq, not_and]
    omega
  rw [lastBefore, ← placed_take, show placed {} (lexemes text) = tokenize text from rfl]
  conv_lhs => rw [← List.take_append_drop cut (tokenize text)]
  rw [List.filter_append, hbehind, List.append_nil]

theorem Harmless.of_front {text text' : Text} {fix : Fix} {cut : Nat} (h : Harmless text fix)
    (hfront : (lexemes text').take cut = (lexemes text).take cut)
    (hgrave : (∀ l ∈ lexemes text, l.isGrave = false) → ∀ l ∈ lexemes text', l.isGrave = false)
    (hstart : ∀ text₁ ∈ [text, text'], ∀ k < (lexemes text₁).length, cut ≤ k →
      fix.span.start < offset (lexemes text₁) (k + 1)) : Harmless text' fix where
  line hwraps := by
    have hline := h.line hwraps
    rw [Fix.OnLine, lastBefore_eq (hstart text (by simp))] at hline
    rw [Fix.OnLine, lastBefore_eq (hstart text' (by simp)), hfront]
    exact hline
  grave hraise := hgrave (h.grave hraise)

/-! ### Fix after fix -/

/-- What is known of a text when the last of its fixes is made. -/
structure Advances (text text' : Text) (e : Fix) : Prop where
  paired : (outlineOf text').AllPaired
  none : NoneEnclosed text'
  offered : ∀ fix, Offered text' fix ↔ Offered text fix ∧ fix ≠ e
  harmless : ∀ fix, e.span.Follows fix.span → Harmless text fix → Harmless text' fix

theorem Misspelt.ne_of_gives {text : Text} {w : Want} {i j : Nat} {e fix : Fix}
    (h : Misspelt text fix) (hgives : w.Gives (lexemes text) i j e) : fix ≠ e := by
  obtain ⟨k, l, -, -, r, hr, hfix⟩ := h
  obtain ⟨m, -, hremark⟩ := List.mem_filterMap.mp hr
  rintro rfl
  have hcaption := (Markers.remark?_spec hremark hfix).2.2.2.symm.trans hgives.description
  have hhead : some (.char 'R') = w.caption.head? := by
    rw [← hcaption, List.append_assoc, List.head?_append]
    rfl
  cases w <;> exact absurd hhead (by decide)

theorem Cleared.advances {text text' : Text} {seg : Segment} {want : Want} {cut j : Nat} {e : Fix}
    (h : Cleared text text' cut fun s w => s = seg ∧ w = want)
    (hseg : seg ∈ (outlineOf text).segments) (hat : want.at? text seg = some (cut, j))
    (hgives : want.Gives (lexemes text) cut j e)
    (hold : ∀ i l, (lexemes text')[i]? = some l →
      (∃ k, (cut ≤ i → cut ≤ k) ∧ (lexemes text)[k]? = some l) ∨ l.kind ≠ .comment ∧ l.isGrave = false)
    (hnone : NoneEnclosed text)
    (hlast : ∀ fix, Offered text fix → fix ≠ e → e.span.Follows fix.span) : Advances text text' e where
  paired := h.paired
  none := h.noneEnclosed hnone
  harmless fix hfollows hfits := by
    have hstart : fix.span.start ≤ offset (lexemes text) cut := hgives.start ▸ hfollows.1.le
    refine hfits.of_front h.front (fun hgrave l hl => ?_) fun text₁ htext₁ k hk hcut => ?_
    rotate_left
    · have hsame : offset (lexemes text₁) cut = offset (lexemes text) cut := by
        rcases List.mem_pair.mp htext₁ with rfl | rfl
        · rfl
        · exact offset_of_front h.front (Nat.le_refl cut)
      have := (isLexed_lexemes text₁).offset_lt (show cut < k + 1 by omega) (by omega)
      omega
    obtain ⟨i, hi⟩ := List.mem_iff_getElem?.mp hl
    rcases hold i l hi with ⟨k, -, hk⟩ | ⟨-, hnot⟩
    · exact hgrave l (List.mem_of_getElem? hk)
    · exact hnot
  offered fix := by
    have hback : ∀ i l, cut ≤ i → (lexemes text')[i]? = some l → l.kind = .comment →
        ∃ k, cut ≤ k ∧ (lexemes text)[k]? = some l := by
      intro i l hi hl hkind
      obtain ⟨k, hk, hlk⟩ := (hold i l hl).resolve_right fun h => h.1 hkind
      exact ⟨k, hk hi, hlk⟩
    have hleft : ∀ s ∈ (outlineOf text).segments, ∀ w i k, ¬(s = seg ∧ w = want) →
        Want.at? text s w = some (i, k) → k ≤ cut := by
      intro s hs w i k hnot hk
      obtain ⟨hik, hlength, -⟩ := Want.at?_spec hs hk
      obtain ⟨fix, hfix⟩ := w.exists_gives (lexemes text) hik
      have hne : fix ≠ e := by
        rintro rfl
        exact hnot (Want.eq_of_gives hs hk hfix hseg hat hgives)
      have hstop := (hlast fix (.inl ⟨s, hs, w, i, k, hk, hfix⟩) hne).2
      rw [hfix.stop, hgives.start] at hstop
      by_contra hlt
      have := (isLexed_lexemes text).offset_lt (show cut < k by omega) (by omega)
      omega
    have hmisspelt := @misspelt_iff _ _ _ fix h.front hback fun fix hfix =>
      hgives.start ▸ (hlast fix (.inr hfix) (hfix.ne_of_gives hgives)).1
    rw [Offered, h.wanted_iff hleft, hmisspelt, Offered, or_and_right]
    refine or_congr ?_ ⟨fun hfix => ⟨hfix, hfix.ne_of_gives hgives⟩, And.left⟩
    constructor
    · rintro ⟨s, hs, w, i, k, hnot, hk, hfix⟩
      refine ⟨⟨s, hs, w, i, k, hk, hfix⟩, ?_⟩
      rintro rfl
      exact hnot (Want.eq_of_gives hs hk hfix hseg hat hgives)
    · rintro ⟨⟨s, hs, w, i, k, hk, hfix⟩, hne⟩
      refine ⟨s, hs, w, i, k, ?_, hk, hfix⟩
      rintro ⟨rfl, rfl⟩
      cases hk.symm.trans hat
      exact hne (hfix.unique hgives)

/-- Where each fix can be made as the last one, all that are offered can be made from right to left,
and then none is. The induction takes the rightmost one first, so that the others stay where they
are. -/
theorem offered_foldr {P : Fix → Prop} (hstep : ∀ text e, (outlineOf text).AllPaired → NoneEnclosed text →
      Offered text e → P e → Harmless text e →
      (∀ fix, Offered text fix → fix ≠ e → e.span.Follows fix.span) → Advances text (e.putIn text) e)
    {es : List Fix} : ∀ {text : Text}, (outlineOf text).AllPaired → NoneEnclosed text →
      (es.Pairwise fun d e => e.span.Follows d.span) → (∀ fix, Offered text fix ↔ fix ∈ es) →
      (∀ e ∈ es, P e ∧ Harmless text e) →
      NoneEnclosed (es.foldr Fix.putIn text) ∧ ∀ fix, ¬Offered (es.foldr Fix.putIn text) fix := by
  induction es using List.reverseRecOn with
  | nil =>
    intro text _ hnone _ hoffered _
    exact ⟨hnone, fun fix hfix => List.not_mem_nil ((hoffered fix).mp hfix)⟩
  | append_singleton es e ih =>
    intro text hpaired hnone hsorted hoffered hfits
    obtain ⟨hes, -, hbefore⟩ := List.pairwise_append.mp hsorted
    have hbefore : ∀ fix ∈ es, e.span.Follows fix.span := fun fix hfix => hbefore fix hfix e (by simp)
    obtain ⟨hP, hharmless⟩ := hfits e (by simp)
    have hstep := hstep text e hpaired hnone ((hoffered e).mpr (by simp)) hP hharmless
      fun fix hfix hne => hbefore fix (by simpa [hne] using (hoffered fix).mp hfix)
    rw [List.foldr_append, List.foldr_cons, List.foldr_nil]
    refine ih hstep.paired hstep.none hes (fun fix => ?_) fun fix hfix => ?_
    · rw [hstep.offered, hoffered, List.mem_append, List.mem_singleton]
      constructor
      · rintro ⟨hfix | rfl, hne⟩
        · exact hfix
        · exact absurd rfl hne
      · intro hfix
        refine ⟨.inl hfix, ?_⟩
        rintro rfl
        exact (hbefore _ hfix).1.false
    · obtain ⟨hP, hharmless⟩ := hfits fix (by simp [hfix])
      exact ⟨hP, hstep.harmless fix (hbefore fix hfix) hharmless⟩

end Rule

end HouseStyle
