import HouseStyle.Proofs.Rule.Repairs
import HouseStyle.Proofs.Text.Case

/-! Markers are words of letters, and so are their upper forms. None of them holds a symbol that ends
a line or closes a comment, so putting one in the place of another rewords the comment. -/

namespace HouseStyle

/-! ### Upper forms -/

namespace Sym

/-- The code points of the symbols that are not inert. -/
def livelyCodes : List Nat := [0x0A, 0x0D, 0x2A, 0x2F, 0x60]

theorem isInert_of_not_mem {c : Char} (h : c.toNat ∉ livelyCodes) : (Sym.char c).isInert := by
  have hne {d : Char} (hd : d.toNat ∈ livelyCodes) : c ≠ d := by
    rintro rfl
    exact h hd
  simp [isInert, isBreak, is, hne (d := '\n') (by decide), hne (d := '\r') (by decide),
    hne (d := '*') (by decide), hne (d := '/') (by decide), hne (d := '\x60') (by decide)]

theorem shifted_upper_ne : ∀ b ∈ livelyCodes, ∀ s ∈ Table.upper,
    (b : Int) < s.first + s.offset ∨ s.last + s.offset < b := by
  decide +kernel

theorem upperWide_isInert : ∀ entry ∈ Table.upperWide,
    entry.2 ≠ [] ∧ ∀ n ∈ entry.2, (Sym.char (Char.ofNat n)).isInert := by
  decide +kernel

theorem toUpper_isInert {c : Char} (hc : c.toNat < 128) :
    (Sym.char c).isInert → (Sym.char c.toUpper).isInert :=
  char_of_lt (p := fun c => (Sym.char c).isInert → (Sym.char c.toUpper).isInert)
    (by decide +kernel) hc

theorem isInert_of_isWord {s : Sym} (h : s.isWord) : s.isInert := by
  have hne {c : Char} (hc : (Sym.char c).isWord = false) : s ≠ .char c := by
    rintro rfl
    rw [hc] at h
    cases h
  simp [isInert, isBreak, ← Bool.not_eq_true, is_iff, hne (c := '\n') (by decide +kernel),
    hne (c := '\r') (by decide +kernel), hne (c := '/') (by decide +kernel),
    hne (c := '*') (by decide +kernel), hne (c := '\x60') (by decide +kernel)]

/-- The upper form of an inert symbol is made of inert symbols. -/
theorem upper_isInert {s : Sym} (h : s.isInert) : s.upper ≠ [] ∧ ∀ x ∈ s.upper, x.isInert := by
  cases s with
  | char c =>
    simp only [upper]
    split_ifs with hc
    · exact ⟨by simp, by simpa using toUpper_isInert hc h⟩
    · split
      · next codes hcodes =>
        obtain ⟨before, after, htable, -⟩ := List.lookup_eq_some_iff.mp hcodes
        obtain ⟨hne, hall⟩ := upperWide_isInert (c.toNat, codes) (by simp [htable])
        refine ⟨by simpa using hne, fun x hx => ?_⟩
        obtain ⟨n, hn, rfl⟩ := List.mem_map.mp hx
        exact hall n hn
      · refine ⟨by simp, fun x hx => ?_⟩
        rw [List.mem_singleton.mp hx]
        refine isInert_of_not_mem fun hmem => ?_
        have hlarge : ∀ b ∈ livelyCodes, 0 < b ∧ b < 128 := by decide
        obtain ⟨hpos, hlt⟩ := hlarge _ hmem
        refine Table.shifted_ne ?_ hpos (shifted_upper_ne _ hmem) (Char.toNat_ofNat_eq hpos rfl)
        omega
  | stray low => exact ⟨by simp [upper], by simpa [upper] using h⟩
  | half n => exact ⟨by simp [upper], by simpa [upper] using h⟩

end Sym

theorem Text.upper_isInert {w : Text} (hw : w ≠ []) (h : ∀ s ∈ w, s.isInert) :
    Text.upper w ≠ [] ∧ ∀ s ∈ Text.upper w, s.isInert := by
  constructor
  · obtain ⟨s, w, rfl⟩ := List.exists_cons_of_ne_nil hw
    simp [Text.upper, (Sym.upper_isInert (h s (by simp))).1]
  · intro x hx
    obtain ⟨s, hs, hx⟩ := List.mem_flatMap.mp hx
    exact (Sym.upper_isInert (h s hs)).2 x hx

/-! ### Matches -/

namespace Rule.Markers

/-- Markers that are words of ASCII when case is ignored. -/
def AreWords (markers : List Text) : Prop := ∀ marker ∈ markers, marker ≠ [] ∧ marker.FoldsToWord

theorem AreWords.of_isAsciiWord {markers : List Text}
    (h : ∀ marker ∈ markers, marker ≠ [] ∧ ∀ s ∈ marker, s.isAsciiWord) : AreWords markers :=
  fun marker hmarker => ⟨(h marker hmarker).1, .of_isAsciiWord (h marker hmarker).2⟩

theorem AreWords.upper {markers : List Text} (h : AreWords markers) :
    AreWords (markers.map Text.upper) := by
  rw [AreWords, List.forall_mem_map]
  intro marker hmarker
  obtain ⟨hne, hfolds⟩ := h marker hmarker
  refine ⟨List.ne_nil_of_length_pos ?_, hfolds.upper⟩
  rw [hfolds.length_upper]
  exact List.length_pos_of_ne_nil hne

theorem defaultMarkers_areWords : AreWords defaultMarkers := .of_isAsciiWord (by decide +kernel)

/-- A text that a marker matches when case is ignored is a word like it. -/
theorem AreWords.foldsToWord {markers : List Text} (h : AreWords markers) {marker word : Text}
    (hmarker : marker ∈ markers) (heq : marker.map Sym.folded = word.map Sym.folded) :
    word ≠ [] ∧ word.FoldsToWord := by
  obtain ⟨hne, hfolds⟩ := h marker hmarker
  refine ⟨fun hnil => hne ?_, fun f hf => hfolds f (heq ▸ hf)⟩
  rw [hnil] at heq
  exact List.map_eq_nil_iff.mp heq

/-- Such a text is made of inert symbols. -/
theorem isInert_of_folded {markers : List Text} (hwords : AreWords markers) {marker word : Text}
    (hmarker : marker ∈ markers) (hlength : word.length = marker.length)
    (h : Text.foldPrefixOf marker word) : word ≠ [] ∧ ∀ s ∈ word, s.isInert := by
  obtain ⟨hne, hfolds⟩ := hwords.foldsToWord hmarker
    ((List.isPrefixOf_iff_prefix.mp h).eq_of_length (by simp [hlength]))
  exact ⟨hne, fun s hs => Sym.isInert_of_isWord (hfolds.isWord hs)⟩

/-- Where a match stands in a text that starts at an offset: the word is a marker in any case, and
the colon stands right behind it. -/
def Match.StandsIn (markers : List Text) (offset : Nat) (text : Text) (m : Match) : Prop :=
  ∃ pre post, text = pre ++ m.word ++ post ∧ m.offset = offset + pre.length ∧
    m.colon = decide (post.head? = some (.char ':')) ∧
    ∃ marker ∈ markers, m.word.length = marker.length ∧ Text.foldPrefixOf marker m.word

theorem Match.StandsIn.later {markers : List Text} {offset : Nat} {s : Sym} {text : Text} {m : Match}
    (h : m.StandsIn markers (offset + 1) text) : m.StandsIn markers offset (s :: text) := by
  obtain ⟨pre, post, rfl, hoffset, hfound⟩ := h
  refine ⟨s :: pre, post, rfl, ?_, hfound⟩
  rw [hoffset, List.length_cons]
  omega

/-- A match ends with its text, the colon included. -/
theorem Match.StandsIn.stop_le {markers : List Text} {offset : Nat} {text : Text} {m : Match}
    (h : m.StandsIn markers offset text) : m.offset + m.length ≤ offset + text.length := by
  obtain ⟨pre, post, rfl, hoffset, hcolon, -⟩ := h
  simp only [Match.length, hoffset, List.length_append]
  split_ifs with hm
  · rw [hcolon, decide_eq_true_eq] at hm
    have : 0 < post.length := List.length_pos_of_ne_nil fun hnil => by simp [hnil] at hm
    omega
  · omega

/-- What is found at a place is found there of some marker. -/
theorem mem_of_mem_matchesAt {markers : List Text} {offset : Nat} {before : Option Sym}
    {rest : Text} {m : Match} (hm : m ∈ matchesAt markers offset before rest) :
    m ∈ markers.filterMap (matchOne? offset before rest) := by
  unfold matchesAt at hm
  simp only at hm
  split at hm
  · cases hm
  · next first others hfound =>
    have hfirst : first ∈ markers.filterMap (matchOne? offset before rest) := by simp [hfound]
    split_ifs at hm
    · rcases List.mem_cons.mp hm with rfl | hm
      · exact hfirst
      · exact List.mem_of_find?_eq_some (Option.mem_toList.mp hm)
    · rwa [List.mem_singleton.mp hm]

theorem matchesAt_spec {markers : List Text} {offset : Nat} {before : Option Sym} {rest : Text}
    {m : Match} (hm : m ∈ matchesAt markers offset before rest) :
    m.offset = offset ∧ m.StandsIn markers offset rest := by
  obtain ⟨marker, hmarker, hone⟩ := List.mem_filterMap.mp (mem_of_mem_matchesAt hm)
  unfold matchOne? at hone
  simp only [Option.ite_none_right_eq_some, Bool.and_eq_true, decide_eq_true_eq] at hone
  obtain ⟨⟨⟨⟨hlength, hfold⟩, -⟩, -⟩, hm⟩ := hone
  cases hm
  refine ⟨rfl, [], rest.drop marker.length, ?_, rfl, rfl, marker, hmarker, hlength, hfold⟩
  rw [List.nil_append, List.take_append_drop]

/-- Where a match stands in the text that it is found in, and what it is. -/
theorem matchesFrom_spec {markers : List Text} {offset : Nat} {before : Option Sym} {skip : Nat}
    {text : Text} {m : Match} (hm : m ∈ matchesFrom markers offset before skip text) :
    m.StandsIn markers offset text := by
  fun_induction matchesFrom markers offset before skip text with
  | case1 => exact (matchesAt_spec hm).2
  | case2 => cases hm
  | case3 offset before s rest here ih =>
    rcases List.mem_append.mp hm with hm | hm
    · exact (matchesAt_spec hm).2
    · exact (ih hm).later
  | case4 offset before skip s rest ih => exact (ih hm).later

/-- What the fix of a marker puts in the place of which word. -/
theorem remark?_spec {base : Nat} {m : Match} {r : Remark} {fix : Fix} (h : remark? base m = some r)
    (hfix : r.fix = some fix) :
    fix.span.start = base + m.offset ∧ fix.span.stop = base + m.offset + m.word.length ∧
      (fix.replacement = .text (Text.upper m.word ++ ":") ∨
        fix.replacement = .text (Text.upper m.word)) ∧
      fix.description = "Rewrite as '" ++ Text.upper m.word ++ ":'" := by
  simp only [remark?] at h
  split_ifs at h with hdone hword hcolon
  · cases h
    cases hfix
  · cases h
    cases hfix
    exact ⟨rfl, rfl, .inl rfl, rfl⟩
  · cases h
    cases hfix
    exact ⟨rfl, rfl, .inr rfl, rfl⟩

end Rule.Markers

open Rule

/-- A marker in a comment stands behind the two symbols that open the comment. -/
theorem Markers.exists_of_comment {markers : List Text} (hwords : Markers.AreWords markers)
    {text : Text} {t : Token} (ht : t ∈ tokenize text) (hkind : t.kind = .comment)
    {m : Markers.Match} (hm : m ∈ Markers.matchesFrom markers 0 none 0 t.text) :
    ∃ a b u v, t.text = a :: b :: u ++ m.word ++ v ∧ m.offset = u.length + 2 ∧ m.word ≠ [] ∧
      ∀ s ∈ m.word, s.isInert := by
  obtain ⟨i, hi⟩ := List.mem_iff_getElem?.mp ht
  obtain ⟨hl, -⟩ := tokenize_getElem? hi
  obtain ⟨pre, post, htext, hoffset, -, marker, hmarker, hlength, hfold⟩ :=
    Markers.matchesFrom_spec hm
  obtain ⟨hne, hinert⟩ := Markers.isInert_of_folded hwords hmarker hlength hfold
  have hlexed := (isLexed_lexemes text).drop i
  rw [drop_cons hl] at hlexed
  obtain ⟨b, x, hx, hb⟩ := hlexed.exists_of_comment hkind
  -- The word does not begin with one of the two symbols that open the comment.
  obtain ⟨s, w, hword⟩ := List.exists_cons_of_ne_nil hne
  have hs := hinert s (by simp [hword])
  match pre with
  | [] =>
    rw [htext, hword] at hx
    rw [(List.cons.inj hx).1] at hs
    cases hs
  | [a] =>
    rw [htext, hword] at hx
    simp only [List.cons_append, List.nil_append, List.cons.injEq] at hx
    rw [hx.2.1] at hs
    rcases hb with rfl | rfl <;> cases hs
  | a :: b' :: u =>
    refine ⟨a, b', u, post, htext, ?_, hne, hinert⟩
    rw [hoffset, List.length_cons, List.length_cons]
    omega

/-- The fix of a marker rewords the comment that the marker stands in. -/
theorem repair_of_inComment {markers : List Text} (hwords : Markers.AreWords markers) {text : Text}
    {t : Token} {r : Remark} {fix : Fix} (ht : t ∈ tokenize text)
    (hr : r ∈ Markers.inComment markers t) (hfix : r.fix = some fix) : Repair (lexemes text) fix := by
  obtain ⟨i, hi⟩ := List.mem_iff_getElem?.mp ht
  obtain ⟨hl, hbegin, -⟩ := tokenize_getElem? hi
  unfold Markers.inComment at hr
  split_ifs at hr with hkind
  · obtain ⟨m, hm, hr⟩ := List.mem_filterMap.mp hr
    obtain ⟨hstart, hstop, hnew, -⟩ := Markers.remark?_spec hr hfix
    obtain ⟨a, b, u, v, htext, hoffset, hne, hinert⟩ := Markers.exists_of_comment hwords ht hkind hm
    obtain ⟨hne', hinert'⟩ := Text.upper_isInert hne hinert
    refine .reword i hl hkind htext hne ?_ hinert ?_ ?_ ?_ rfl
    · rcases hnew with hnew | hnew <;> rw [Fix.insertion_eq hnew]
      · simp [hne']
      · exact hne'
    · rcases hnew with hnew | hnew <;> rw [Fix.insertion_eq hnew]
      · intro s hs
        rcases List.mem_append.mp hs with hs | hs
        · exact hinert' s hs
        · rw [List.mem_singleton.mp hs]
          decide
      · exact hinert'
    · rw [hstart, hbegin, hoffset]
      omega
    · rw [hstop, hbegin, hoffset]
      omega
  · cases hr

end HouseStyle
