import HouseStyle.Proofs.Outline.Parenthesized

/-! Parentheses taken from around the tail of a header that opens a block. Without them the scan
stands outside all groups in the tail. Where no brace stands there on the level of the tail, no
terminator, and no line break but between tokens that carry the line on, it goes through the tail as
it did, and the header opens its block. -/

namespace HouseStyle.Outline

variable {list list' : List Token} {end_ : Text} {hdr : Segment} {known : List Nat}
  {a z k m : Nat}

/-! ### Words of the same lexemes -/

/-- Whether a word is a Dyck word depends on its lexemes. -/
theorem Dyck.exists_of_map_eq {i : Nat} {word : List Token} {pairs : List (Nat × Nat)}
    (h : Dyck i word pairs) {i' : Nat} {word' : List Token}
    (hsame : word'.map (·.toLexeme) = word.map (·.toLexeme)) : ∃ pairs', Dyck i' word' pairs' := by
  induction h generalizing i' word' with
  | nil i =>
    obtain rfl : word' = [] := by simpa using hsame
    exact ⟨[], .nil i'⟩
  | other hplain hrest ih =>
    obtain ⟨t', rest', rfl, ht', hsame⟩ := List.map_eq_cons_iff.mp hsame
    obtain ⟨pairs', hrest'⟩ : ∃ pairs', Dyck (i' + 1) rest' pairs' := ih hsame
    refine ⟨pairs', .other ?_ hrest'⟩
    rwa [isBracket, ht']
  | group hpair hopener hinner hcloser hrest ihin ihrest =>
    obtain ⟨opener', tail', rfl, hopener', hsame⟩ := List.map_eq_cons_iff.mp hsame
    rw [List.map_append] at hsame
    obtain ⟨inner', behind', rfl, hinner', hsame⟩ := List.map_eq_append_iff.mp hsame
    obtain ⟨closer', rest', rfl, hcloser', hsame⟩ := List.map_eq_cons_iff.mp hsame
    obtain ⟨inside', hinside'⟩ : ∃ inside', Dyck (i' + 1) inner' inside' := ihin hinner'
    obtain ⟨pairs', hrest'⟩ : ∃ pairs', Dyck (i' + 1 + inner'.length + 1) rest' pairs' :=
      ihrest hsame
    exact ⟨_, .group hpair (by rwa [hopener']) hinside' (by rwa [hcloser']) hrest'⟩

/-! ### Line breaks that carry on -/

/-- Whether a line break between two tokens ends no statement, whatever the statement is. -/
def carriesOn (tokens : Array Token) (p n : Nat) : Bool :=
  tokenIs tokens (fun t => t.kind = .punctuation && trailingContinuation.contains t.text) p ||
    tokenIs tokens (·.isKeyword trailingContinuationWords) p ||
    tokenIs tokens (fun t => t.kind = .punctuation && leadingContinuation.contains t.text) n

theorem Renaming.carriesOn_map {tokens tokens' : Array Token} {f : Nat → Nat}
    (h : Renaming tokens tokens' f) (p n : Nat) :
    carriesOn tokens' (f p) (f n) = carriesOn tokens p n := by
  simp only [carriesOn,
    h.tokenIs_map (fun t => t.kind = .punctuation && trailingContinuation.contains t.text),
    h.tokenIs_map (·.isKeyword trailingContinuationWords),
    h.tokenIs_map (fun t => t.kind = .punctuation && leadingContinuation.contains t.text)]

theorem exists_nextAfter {i : Nat} (him : i < m) (hm : Loud list.toArray m) :
    ∃ n, nextAfter list i = some n ∧ n ≤ m := by
  classical
  have hfound : ∃ n, i < n ∧ Loud list.toArray n := ⟨m, him, hm⟩
  have hle := Nat.find_min' hfound ⟨him, hm⟩
  obtain ⟨hin, hn⟩ := Nat.find_spec hfound
  refine ⟨_, nextAfter_eq_some.mpr ⟨hin, hn, fun k hik hkn => ?_⟩, hle⟩
  obtain ⟨t, ht, -⟩ := hm
  have hlt := (Array.getElem?_eq_some_iff.mp ht).1
  have hk := Array.getElem?_eq_getElem (show k < list.toArray.size by omega)
  by_contra hnot
  rw [tokenIs_of_getElem? hk] at hnot
  exact Nat.find_min hfound hkn ⟨hik, _, hk, by simpa using hnot⟩

theorem Scan.continues_of_carriesOn {tokens : Array Token} {s : Scan} {p n : Nat}
    (hlast : s.run.indices.back? = some p) (h : carriesOn tokens p n) :
    continues tokens s (some n) = (s.run, true) := by
  simp only [carriesOn, Bool.or_eq_true] at h
  simp only [continues, hlast, Option.map_some, Option.getD_some]
  rcases h with (h | h) | h
  · rw [if_pos h]
  · simp only [h, if_true, ite_self]
  · obtain ⟨t, ht, hleading⟩ := tokenIs_iff.mp h
    simp only [Bool.and_eq_true, decide_eq_true_eq] at hleading
    simp only [Option.bind_some, ht, hleading, ne_eq, not_true_eq_false, if_false, if_true, ite_self]

/-! ### In front of the parenthesis -/

namespace Scan.Tail

/-- Only trivia stands between the keyword and the tail. -/
theorem quiet_keyword (h : Tail list end_ hdr known a z k) {p : Nat} (hp : known.getLast? = some p)
    (hplain : tokenIs list.toArray (·.isMark '{') p = false) : p < a ∧ Quiet list.toArray p a := by
  obtain ⟨tail, hindices, ha, -⟩ := h.indices
  have hchain := (@before_invariant list end_ k h.made.le).sound.run.inOrder.chain
  rw [← h.made.indices_eq, hindices] at hchain
  obtain ⟨hlt, hbrace | hquiet⟩ := (List.isChain_append.mp hchain).2.2 p hp a ha
  · rw [hplain] at hbrace
    cases hbrace
  · exact ⟨hlt, hquiet⟩

/-- No line break stands between `for` and a parenthesis: it would end the statement. -/
theorem sameLine_of_paren (h : Tail list end_ hdr known a z k)
    (hpaired : (Outline.ofTokens list end_).AllPaired) {p : Nat} (hp : known.getLast? = some p)
    (hfor : tokenIs list.toArray (·.isKeyword ["for"]) p)
    (hopen : tokenIs list.toArray (·.isMark '(') a) : SameLine list known a := by
  have hle := h.made.le
  have haz := h.first_le_last
  have hzk := h.lt_end.1
  obtain ⟨u, hu, hword⟩ := tokenIs_iff.mp hfor
  simp only [Lexeme.isKeyword, Bool.and_eq_true, decide_eq_true_eq, List.contains_iff_mem,
    List.mem_singleton] at hword
  obtain ⟨v, hv, hparen⟩ := tokenIs_iff.mp hopen
  have hparen' : v.kind = .punctuation ∧ v.text = [.char '('] := by
    simpa [Lexeme.isMark, Lexeme.isPunct] using hparen
  obtain ⟨hpa, hquiet⟩ := h.quiet_keyword hp (by
    rw [tokenIs_of_getElem? hu]
    simp [Lexeme.isMark, Lexeme.isPunct, hword.1])
  have hknown : ∀ x ∈ known, x ≤ p := by
    obtain ⟨tail, hindices, -, -⟩ := h.indices
    have hsorted := h.pairwise
    rw [hindices] at hsorted
    obtain ⟨us, rfl⟩ := List.getLast?_eq_some_iff.mp hp
    intro x hx
    rcases List.mem_append.mp hx with hx | hx
    · exact ((List.pairwise_append.mp (List.pairwise_append.mp hsorted).1).2.2 x hx p (by simp)).le
    · exact (List.mem_singleton.mp hx).le
  intro i t p' hp' hpi hia ht hnewline
  obtain rfl := Option.some.inj (hp.symm.trans hp')
  have hstack : (before list end_ i).stack = (before list end_ a).stack := by
    rw [stack_before_of_quiet hquiet hpa (by omega),
      stack_before_of_quiet (fun j hpj hji => hquiet j hpj (by omega)) hpi (by omega)]
  have hgroup := h.group_eq hpaired (by omega) hstack
  have hrun := h.run_before (fun x hx => (hknown x hx).trans_lt hpi) hia.le
  have hrun' := h.run_before (fun x hx => (hknown x hx).trans_lt (Nat.lt_succ_of_lt hpi)) hia
  have hne : known ≠ [] := List.ne_nil_of_mem (List.mem_of_getLast? hp)
  have hnext : nextAfter list i = some a :=
    nextAfter_eq_some.mpr ⟨hia, ⟨v, hv, not_isTrivia hparen⟩, fun j hij hja => hquiet j (by omega) hja⟩
  have hcut : (continues list.toArray { before list end_ i with
      nesting := (before list end_ i).nesting.push (before list end_ i).stack.length }
      (nextAfter list i)).2 = false := by
    have hlast : (before list end_ i).run.indices.back? = some p := by
      rw [← Array.getLast?_toList, hrun, hp]
    have hwords : trailingContinuationWords.contains ("for" : Text) = false := by decide +kernel
    have hleading : leadingContinuation.contains ([.char '('] : Text) = false := by decide +kernel
    have hbrace : ([.char '('] : Text) ≠ [.char '{'] := by decide
    simp only [continues, hlast, hnext, Option.map_some, Option.getD_some, tokenIs_of_getElem? hu,
      Lexeme.isKeyword, hword, hwords, Option.bind_some, hv, hparen', hleading]
    simp
  rw [before_succ ht, step_newline hnewline, newline_eq_close hcut hgroup (by
    intro hempty
    change (before list end_ i).run.indices = #[] at hempty
    rw [hempty] at hrun
    exact hne hrun.symm), close_run_indices] at hrun'
  exact hne hrun'.symm

end Scan.Tail

end HouseStyle.Outline

namespace HouseStyle

open Outline

/-- Nothing right inside two parentheses would open a block there without them, or end a line of
code. -/
structure Outline.CarriesOn (o : Outline) (i j : Nat) : Prop where
  brace : ∀ x, i < x → x < j → o.nestingAt x = o.nestingAt i + 1 →
    tokenIs o.tokens (·.isMark '{') x = false
  newline : ∀ p x n, i < p → p < x → x < n → n < j → o.nestingAt x = o.nestingAt i + 1 →
    tokenIs o.tokens (·.kind = .newline) x → Loud o.tokens p → Loud o.tokens n →
    Quiet o.tokens p n → carriesOn o.tokens p n

namespace Outline

variable {list list' : List Token} {end_ : Text} {hdr : Segment} {known : List Nat}
  {a z k m j : Nat} {t : Token}

/-! ### In the tail without parentheses -/

namespace Scan

section

variable {tokens : Array Token} {s : Scan} {following : Nat → Option Nat} {i : Nat}

/-- A line break that carries on leaves the run as it is. -/
theorem bare_step_carried (ht : t.kind = .newline)
    (hcarries : continues tokens s (following i) = (s.run, true)) :
    (s.step tokens end_ following i t).bare = s.bare := by
  have hnoted : continues tokens { s with nesting := s.nesting.push s.stack.length } (following i) =
      (s.run, true) := hcarries
  rw [step_newline ht, newline, hnoted]
  simp only [if_true, ite_self]
  rfl

/-- Code that is no bracket and ends nothing joins the run. -/
theorem step_word (hplain : isBracket t = false) (htrivia : t.isTrivia = false)
    (hends : s.groupDepth = 0 → t.isPunct end_ = false) (hlabel : startsLabel tokens s.run = false) :
    s.step tokens end_ following i t =
      word t i { s with nesting := s.nesting.push s.stack.length } := by
  have hnot : ∀ pair ∈ brackets, t.isMark pair.1 = false ∧ t.isMark pair.2 = false := by
    simpa [isBracket] using hplain
  simp only [brackets, List.forall_mem_cons, List.not_mem_nil, IsEmpty.forall_iff, implies_true,
    and_true] at hnot
  have hkind : t.kind ≠ .newline := by
    intro hkind
    simp [Lexeme.isTrivia, TokenKind.isTrivia, hkind] at htrivia
  have hnoend : ¬(t.isPunct end_ ∧ s.groupDepth = 0) := fun h => by simp [hends h.2] at h
  have hnolabel : ¬(t.isMark ':' ∧ s.groupDepth = 0 ∧ startsLabel tokens s.run) := by simp [hlabel]
  simp only [step, significant, hnot, hkind, htrivia, Bool.false_eq_true, if_false, hnoend, hnolabel]

end

end Scan

namespace Scan.Tail

variable (h : Tail list' end_ hdr known a (z + 2) k) (henc : Encloses list list' a z)
include h henc

section

variable (hline : SameLine list' known a)
include hline

theorem loud_front : ∀ i t, i < a → list[i]? = some t → t.kind = .newline →
    ∃ m, Loud list.toArray m ∧ i < m ∧ m < a := by
  intro i t hia ht hnewline
  obtain ⟨t', ht', hlexeme⟩ := henc.renames.exists_token ht
  rw [spread_of_lt hia] at ht'
  obtain ⟨m, hm, him, hma⟩ := h.loud_before hline i t' hia ht' (by rwa [hlexeme])
  refine ⟨m, henc.renames.loud_iff.mp ?_, him, hma⟩
  rwa [spread_of_lt hma]

theorem mirrors_entry : (before list end_ a).Mirrors list.toArray list'.toArray (spread a z) [] []
    (before list' end_ a) :=
  mirrors_front henc (h.loud_front henc hline) (Nat.le_refl a)

theorem known_eq : (before list end_ a).run.indices.toList = known := by
  have hs := (h.mirrors_entry henc hline).run
  have hrun := h.run_entry
  have hlt : ∀ x ∈ (before list end_ a).run.indices.toList, x < a :=
    (@before_invariant list end_ a (by have := henc.le; have := henc.lt_length; omega)).sound.run.lt
  have hsame : (before list end_ a).run.indices.toList.map (spread a z) =
      (before list end_ a).run.indices.toList := by
    conv_rhs => rw [← List.map_id (before list end_ a).run.indices.toList]
    exact List.map_congr_left fun x hx => spread_of_lt (hlt x hx)
  rw [← hrun, hs]
  simp [Run.rename, hsame]

/-- Where the scan stands outside all groups in the tail it stands right inside the parentheses of the
other list. -/
theorem stack_of_outside (hjz : j ≤ z) {allows : Option Head → Prop}
    (hs : (before list end_ j).Wraps list.toArray list'.toArray (spread a z) [] []
      (entry list end_ a z allows) (before list' end_ (j + 1)))
    (hgroup : (before list end_ j).groupDepth = 0) :
    (before list' end_ (j + 1)).stack.length = (before list' end_ a).stack.length + 1 := by
  have hlt := henc.lt_length
  obtain ⟨top, htop, hstack, hstack'⟩ := hs.stack
  obtain rfl : top = [] := by
    rw [(@before_grouped list end_ j (by omega)).depth, hstack, openGroups_append htop] at hgroup
    rw [← List.length_eq_zero_iff]
    omega
  rw [hstack', (h.mirrors_entry henc hline).stack]
  simp [entry]

/-- What does not close a bracket there stands one deeper than the parentheses. -/
theorem level_of_outside (hjz : j ≤ z) {allows : Option Head → Prop}
    (hs : (before list end_ j).Wraps list.toArray list'.toArray (spread a z) [] []
      (entry list end_ a z allows) (before list' end_ (j + 1)))
    (hgroup : (before list end_ j).groupDepth = 0)
    (hkept : (before list' end_ (j + 1)).stack.length ≤
      (before list' end_ (j + 1 + 1)).stack.length) :
    (Outline.ofTokens list' end_).nestingAt (j + 1) =
      (Outline.ofTokens list' end_).nestingAt a + 1 := by
  have hlt := henc.lt_length
  have hle := henc.le
  have hlength := henc.length
  have hstack := h.stack_of_outside henc hline hjz hs hgroup
  obtain ⟨t, ht, hmark⟩ := henc.opener
  have hopener := @le_stack_length end_ t list'.toArray (fun pair hpair => by
    refine not_isMark hmark ?_
    revert pair
    decide) (before list' end_ a) (nextAfter list') a
  rw [← before_succ ht] at hopener
  rw [ofTokens_nestingAt_eq_min (by omega), ofTokens_nestingAt_eq_min (by omega)]
  omega

end

/-- The run of a control header starts as no label does. -/
theorem not_startsLabel {run : Run} {more : List Nat}
    (hrun : run.indices.toList = known ++ more) : startsLabel list.toArray run = false := by
  by_contra hlabel
  obtain ⟨p, hp, -, -⟩ := h.exists_keyword
  obtain ⟨x, rest, hknown⟩ := List.exists_cons_of_ne_nil (List.ne_nil_of_mem (List.mem_of_getLast? hp))
  have hx : x < a :=
    (h.mem_known_iff (h.known_subset (by simp [hknown]))).mp (by simp [hknown])
  have hfirst : run.indices[0]? = some x := by
    rw [← Array.getElem?_toList, hrun, hknown]
    rfl
  have hword := henc.renames.tokenIs_map (·.isKeyword ["case", "default"]) x
  rw [spread_of_lt hx] at hword
  simp only [startsLabel, hfirst, Option.map_some, Option.getD_some, Bool.not_eq_false] at hlabel
  have hfound := h.head?_known
  rw [hknown] at hfound
  have hkind := head?_of_label (hword.trans hlabel) hfound
  have := h.kind
  rw [show hdr.kind = hdr.toHead.kind from rfl, hkind] at this
  cases this

/-- A line break right inside the parentheses carries on without them too. -/
theorem continues_bare (hfirst : Loud list.toArray a)
    (hcarries : (Outline.ofTokens list' end_).CarriesOn a (z + 2)) {more : List Nat}
    (hrun : (before list end_ j).run.indices.toList = known ++ more) (haj : a ≤ j) (hjz : j ≤ z)
    (ht : list[j]? = some t) (hnewline : t.kind = .newline)
    (hlevel : (Outline.ofTokens list' end_).nestingAt (j + 1) =
      (Outline.ofTokens list' end_).nestingAt a + 1) :
    continues list.toArray (before list end_ j) (nextAfter list j) =
      ((before list end_ j).run, true) := by
  have hlt := henc.lt_length
  have hcode {m : Nat} (hm : Loud list.toArray m) : m ≠ j := by
    rintro rfl
    obtain ⟨u, hu, hcode⟩ := hm
    obtain rfl := Option.some.inj (ht.symm.trans (List.getElem?_toArray.symm.trans hu))
    simp [Lexeme.isTrivia, TokenKind.isTrivia, hnewline] at hcode
  have hja : a < j := lt_of_le_of_ne haj (hcode hfirst)
  have hjz' : j < z := lt_of_le_of_ne hjz (hcode henc.loud).symm
  -- The line break stands between the last token of the run and the next one, both in the tail.
  obtain ⟨hsound, -⟩ := (@before_invariant list end_ j (by omega)).sound
  have hquiet := (@before_invariant list end_ j (by omega)).sound.quiet
  obtain ⟨l, hl⟩ : ∃ l, (before list end_ j).run.indices.toList.getLast? = some l := by
    obtain ⟨p, hp, -, -⟩ := h.exists_keyword
    rw [← Option.ne_none_iff_exists', Ne, List.getLast?_eq_none_iff, hrun]
    simp [List.ne_nil_of_mem (List.mem_of_getLast? hp)]
  have hlj := hsound.lt l (List.mem_of_getLast? hl)
  have hal : a ≤ l := by
    by_contra hla
    have := (hquiet l hl).le_of_loud hfirst (by omega)
    omega
  obtain ⟨n, hn, hnz⟩ := exists_nextAfter hjz' henc.loud
  obtain ⟨hjn, hloud, hbehind⟩ := nextAfter_eq_some.mp hn
  have hbetween : Quiet list.toArray l n := by
    intro m hlm hmn
    rcases Nat.lt_trichotomy m j with hmj | rfl | hjm
    · exact hquiet l hl m hlm hmj
    · rw [tokenIs_of_getElem? (List.getElem?_toArray.trans ht)]
      simp [Lexeme.isTrivia, TokenKind.isTrivia, hnewline]
    · exact hbehind m hjm hmn
  have hplace (m : Nat) (ham : a ≤ m) (hmz : m ≤ z) : spread a z m = m + 1 := spread_of_mem ham hmz
  have hcarried : carriesOn list'.toArray (l + 1) (n + 1) := by
    refine hcarries.newline (l + 1) (j + 1) (n + 1) (by omega) (by omega) (by omega) (by omega) hlevel
      ?_ ?_ ?_ ?_
    · have := henc.renames.tokenIs_map (fun t => t.kind = .newline) j
      rw [hplace j haj hjz] at this
      refine this.trans ?_
      rw [tokenIs_of_getElem? (List.getElem?_toArray.trans ht)]
      simpa using hnewline
    · rw [← hplace l hal (by omega)]
      exact henc.renames.loud_iff.mpr (hsound.inOrder.loud l (List.mem_of_getLast? hl))
    · rw [← hplace n (by omega) hnz]
      exact henc.renames.loud_iff.mpr hloud
    · intro m hlm hmn
      obtain ⟨m, rfl⟩ : ∃ d, m = d + 1 := ⟨m - 1, by omega⟩
      have := henc.renames.tokenIs_map (·.isTrivia) m
      rw [hplace m (by omega) (by omega)] at this
      exact this.trans (hbetween m (by omega) (by omega))
  rw [hn]
  refine continues_of_carriesOn (by rwa [← Array.getLast?_toList]) ?_
  rw [← henc.renames.carriesOn_map, hplace l hal (by omega), hplace n (by omega) hnz]
  exact hcarried

/-- In the tail the scan ends no run without the parentheses either, and opens no block. -/
theorem guard_bare (hline : SameLine list' known a) (hfirst : Loud list.toArray a)
    (hcarries : (Outline.ofTokens list' end_).CarriesOn a (z + 2))
    (hends : ∀ x, a < x → x < z + 2 → (Outline.ofTokens list' end_).nestingAt x =
      (Outline.ofTokens list' end_).nestingAt a + 1 → tokenIs list'.toArray (·.isPunct end_) x = false) :
    Guard list list' end_ (spread a z) [] []
      (entry list end_ a z (Eq (before list end_ a).run.head)) a (z + 1) := by
  have hlt := henc.lt_length
  have hlength := henc.length
  have hknown := h.known_eq henc hline
  constructor
  · intro j t haj hjz ht hother hgroup hs
    have hplace := spread_of_mem haj (show j ≤ z by omega)
    obtain ⟨t', ht', hlexeme⟩ := henc.renames.exists_token ht
    rw [hplace] at ht'
    have hlevel := h.level_of_outside henc hline (by omega) hs hgroup (by
      rw [before_succ ht', Dyck.step_other (by rwa [isBracket, hlexeme])])
    obtain ⟨more, hmore, -⟩ := hs.run.indices
    have hmore : (before list end_ j).run.indices.toList = known ++ more := hknown ▸ hmore
    by_cases hnewline : t.kind = .newline
    · have hcarried := h.continues_bare henc hfirst hcarries hmore haj (by omega) ht hnewline hlevel
      refine ⟨(before list end_ j).run, ?_, ⟨?_, rfl, rfl⟩, hs.run.head⟩
      · rw [before_succ ht]
        exact bare_step_carried hnewline hcarried
      · simp [joins, Lexeme.isTrivia, TokenKind.isTrivia, hnewline]
    by_cases htrivia : t.isTrivia
    · refine ⟨(before list end_ j).run, ?_, ⟨by simp [joins, htrivia], rfl, rfl⟩, hs.run.head⟩
      rw [before_succ ht, step_trivia htrivia hnewline]
      rfl
    · have hplain := hends (j + 1) (by omega) (by omega) hlevel
      rw [tokenIs_of_getElem? (List.getElem?_toArray.trans ht'), hlexeme] at hplain
      refine ⟨((before list end_ j).word t j).run, ?_, ⟨?_, rfl, rfl⟩, hs.run.head⟩
      · rw [before_succ ht, step_word hother (by simpa using htrivia) (fun _ => hplain)
          (h.not_startsLabel henc hmore)]
        rfl
      · simp [joins, htrivia, word, Run.push]
  · intro j t haj hjz ht hmark hgroup hs
    have hplace := spread_of_mem haj (show j ≤ z by omega)
    obtain ⟨t', ht', hlexeme⟩ := henc.renames.exists_token ht
    rw [hplace] at ht'
    have hbrace : tokenIs list'.toArray (·.isMark '{') (j + 1) = false :=
      hcarries.brace (j + 1) (by omega) (by omega)
      (h.level_of_outside henc hline (by omega) hs hgroup ?_)
    · rw [tokenIs_of_getElem? (List.getElem?_toArray.trans ht'), hlexeme, hmark] at hbrace
      cases hbrace
    · have hopener := @le_stack_length end_ t' list'.toArray (fun pair hpair => by
        refine not_isMark (c := '{') (by rwa [hlexeme]) ?_
        revert pair
        decide) (before list' end_ (j + 1)) (nextAfter list') (j + 1)
      rwa [← before_succ ht'] at hopener

omit h in
/-- The words of the tail are nested in it. -/
theorem exists_dyck_inside (hpaired : (Outline.ofTokens list' end_).AllPaired)
    (hparens : (Outline.ofTokens list' end_).partner? a = some (z + 2)) :
    ∃ pairs, Dyck a (stretch list a z) pairs := by
  have hlt := henc.lt_length
  have hlength := henc.length
  obtain ⟨pairs, hdyck⟩ := exists_dyck_between hpaired hparens (by omega)
  exact hdyck.exists_of_map_eq henc.map_stretch.symm

end Scan.Tail

/-- A loop header with parentheses around its tail, where without them nothing in the tail ends a
line of code or opens a block: the same header without them opens the same block, all other segments
have the same tokens, and the same braces open closures. -/
theorem Scan.Tail.unparenthesized (h : Tail list' end_ hdr known a (z + 2) k)
    (henc : Encloses list list' a z) (hpaired : (Outline.ofTokens list' end_).AllPaired)
    (hparens : (Outline.ofTokens list' end_).partner? a = some (z + 2))
    (hfor : ∃ p, known.getLast? = some p ∧ tokenIs list'.toArray (·.isKeyword ["for"]) p)
    (hfirst : Loud list.toArray a) (hcarries : (Outline.ofTokens list' end_).CarriesOn a (z + 2))
    (hends : ∀ x, a < x → x < z + 2 → (Outline.ofTokens list' end_).nestingAt x =
      (Outline.ofTokens list' end_).nestingAt a + 1 → tokenIs list'.toArray (·.isPunct end_) x = false)
    (hblock : BlockAt list' end_ hdr k) :
    ∃ seg tail, seg ∈ (Outline.ofTokens list end_).segments ∧ seg.indices = known ++ tail ∧
      hdr = seg.enclosed a z known tail ∧
      (Outline.ofTokens list' end_).segments =
        (Outline.ofTokens list end_).segments.map (reformed (spread a z) seg hdr) ∧
      (∀ j, (Outline.ofTokens list' end_).partner? (spread a z j) =
        ((Outline.ofTokens list end_).partner? j).map (spread a z)) ∧
      (Outline.ofTokens list' end_).closures =
        (Outline.ofTokens list end_).closures.map (spread a z) := by
  obtain ⟨p, hp, hfor⟩ := hfor
  have hopen : tokenIs list'.toArray (·.isMark '(') a := by
    obtain ⟨t, ht, hmark⟩ := henc.opener
    rwa [tokenIs_of_getElem? (List.getElem?_toArray.trans ht)]
  have hline := h.sameLine_of_paren hpaired hp hfor hopen
  have hle := henc.le
  have hlt := henc.lt_length
  obtain ⟨hzk, hquiet⟩ := h.lt_end
  obtain ⟨pairs, hdyck⟩ := exists_dyck_inside henc hpaired hparens
  obtain ⟨tail, hwrapped, hhead, -, hkept, -⟩ := wrapped_stretch henc (h.loud_front henc hline)
    (Eq.refl (before list end_ a).run.head)
    (h.guard_bare henc hline hfirst hcarries hends) hdyck
  rw [h.known_eq henc hline] at hwrapped
  -- The header is made at the same brace.
  have hhead' : headOf list'.toArray (before list' end_ (z + 3)) = hdr.toHead := h.headOf_last
  have hword : headOf list.toArray (before list end_ (z + 1)) = hdr.toHead :=
    hwrapped.headOf_old henc h.kind hhead' h.lead fun found hfound =>
      (headOf_of_head (hhead.trans (hkept.trans hfound))).symm.trans hhead'
  obtain ⟨b, rfl⟩ : ∃ b, k = b + 2 := ⟨k - 2, by omega⟩
  have hplace : spread a z b = b + 2 := spread_of_gt (by omega) (by omega)
  have hbrace : tokenIs list.toArray (·.isMark '{') b := by
    rw [← henc.renames.tokenIs_map (·.isMark '{'), hplace]
    exact hblock.mark
  have hbehind : Quiet list.toArray z b := by
    intro m hzm hmb
    rw [← henc.renames.tokenIs_map (·.isTrivia), spread_of_gt hzm (by omega)]
    exact hquiet (m + 2) (by omega) (by omega)
  have hgroup : (before list end_ (z + 1)).groupDepth = 0 :=
    hwrapped.mirrors.groupDepth.symm.trans h.group_last
  have hknown : known ≠ [] := List.ne_nil_of_mem (List.mem_of_getLast? hp)
  obtain ⟨hhdr, hindices, hs⟩ := hwrapped.block henc hbrace (by omega) hbehind hword hhead' h.kind hgroup
    (by simp [hknown]) (by simp)
  have hsame : headerAt list' end_ (b + 2) = hdr := hblock.segment.symm
  rw [hsame] at hhdr hs
  have hb : b < list.length := by
    obtain ⟨t, ht, -⟩ := tokenIs_iff.mp hbrace
    simpa using (Array.getElem?_eq_some_iff.mp ht).1
  have hclosed := mirrors_closed henc (show z < b + 1 by omega) hb hs
  obtain ⟨later, hlater, -⟩ := hclosed.segments
  obtain ⟨hsegments, hpartners, hclosures⟩ := ofTokens_reformed henc.renames.mono hclosed (by
    obtain ⟨x, rest, rfl⟩ := List.exists_cons_of_ne_nil hknown
    simp [hhdr, Segment.first, hindices])
  refine ⟨headerAt list end_ b, tail, ?_, hindices, hhdr, hsegments, hpartners, hclosures⟩
  rw [(ofTokens_segments_perm list end_).mem_iff]
  exact hlater ▸ List.mem_append_right later List.mem_cons_self

end Outline
end HouseStyle
