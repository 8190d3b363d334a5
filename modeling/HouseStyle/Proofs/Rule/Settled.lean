import HouseStyle.Proofs.Edit.Repaired
import HouseStyle.Proofs.Rule.Tidy

/-! Markers as words. A marker that is a word of ASCII is found where a whole word of the text is the
same but for its case, and nowhere else. So the words of a text settle one by one: a marker with a
colon goes to upper case, a marker in upper case gets its colon, and everything else stays. -/

namespace HouseStyle

namespace Rule.Markers

/-- Whether a neighbour belongs to a word. -/
def onWord (s : Option Sym) : Bool := (s.map Sym.isWord).getD false

/-- Whether a word is one of the markers when case is ignored. -/
def names (markers : List Text) (w : Text) : Bool :=
  markers.any fun marker => marker.map Sym.folded = w.map Sym.folded

/-- What comes in the place of a word, `colon` telling whether one follows. -/
def settled (markers : List Text) (w : Text) (colon : Bool) : Text :=
  if names markers w then
    if colon then Text.upper w else if w = Text.upper w then w ++ ":" else w
  else w

variable {markers : List Text} {marker w t : Text} {offset : Nat} {before : Option Sym}

@[simp] theorem onWord_none : onWord none = false := rfl

@[simp] theorem onWord_some (s : Sym) : onWord (some s) = s.isWord := rfl

theorem onWord_getLast? (hne : w ≠ []) (hw : ∀ s ∈ w, s.isWord) : onWord w.getLast? := by
  rw [List.getLast?_eq_some_getLast hne]
  exact hw _ (List.getLast_mem hne)

theorem onWord_head? (hne : w ≠ []) (hw : ∀ s ∈ w, s.isWord) (t : Text) : onWord (w ++ t).head? := by
  obtain ⟨s, v, rfl⟩ := List.exists_cons_of_ne_nil hne
  exact hw s (by simp)

/-! ### Matches are words -/

section

variable (hne : marker ≠ []) (hmarker : marker.FoldsToWord)
include hne hmarker

/-- A match is a word of the text that is the marker but for its case. -/
theorem matchOne?_spec {rest : Text} {m : Match} (h : matchOne? offset before rest marker = some m) :
    ∃ w t, rest = w ++ t ∧ w ≠ [] ∧ (∀ s ∈ w, s.isWord) ∧ onWord before = false ∧
      onWord t.head? = false ∧ marker.map Sym.folded = w.map Sym.folded ∧
      m = ⟨offset, w, t.head? = some (.char ':')⟩ := by
  unfold matchOne? at h
  simp only [Option.ite_none_right_eq_some, Bool.and_eq_true, decide_eq_true_eq] at h
  obtain ⟨⟨⟨⟨hlength, hfold⟩, hstart⟩, hstop⟩, hm⟩ := h
  have heq : marker.map Sym.folded = (rest.take marker.length).map Sym.folded :=
    (List.isPrefixOf_iff_prefix.mp hfold).eq_of_length (by simpa using hlength.symm)
  have hfolds : Text.FoldsToWord (rest.take marker.length) := fun f hf => hmarker f (heq ▸ hf)
  have hword : ∀ s ∈ rest.take marker.length, s.isWord := fun s hs => hfolds.isWord hs
  have hne' : rest.take marker.length ≠ [] := by
    rw [← List.length_pos_iff, hlength]
    exact List.length_pos_of_ne_nil hne
  have hhead := onWord_head? hne' hword (rest.drop marker.length)
  have hlast := onWord_getLast? hne' hword
  rw [List.take_append_drop] at hhead
  rw [if_neg (by simpa using hne')] at hstop
  refine ⟨_, _, (List.take_append_drop marker.length rest).symm, hne', hword, ?_, ?_, heq, by simpa using hm.symm⟩
  · change (onWord before != onWord rest.head?) = true at hstart
    simpa [hhead] using hstart
  · change (onWord (rest.take marker.length).getLast? != onWord (rest.drop marker.length).head?) = true
      at hstop
    simpa [hlast] using hstop

/-- No match begins before what is no word, or within a word. -/
theorem matchOne?_eq_none {rest : Text} (h : onWord rest.head? → onWord before) :
    matchOne? offset before rest marker = none := by
  rw [Option.eq_none_iff_forall_ne_some]
  intro m hm
  obtain ⟨w, t, rfl, hw, hword, hbefore, -⟩ := matchOne?_spec hne hmarker hm
  rw [h (onWord_head? hw hword t)] at hbefore
  cases hbefore

/-- Where a word starts, the marker is found if it is the whole word. -/
theorem matchOne?_word (hbefore : onWord before = false) (hw : ∀ s ∈ w, s.isWord)
    (ht : onWord t.head? = false) : matchOne? offset before (w ++ t) marker =
      if marker.map Sym.folded = w.map Sym.folded then
        some ⟨offset, w, t.head? = some (.char ':')⟩
      else none := by
  split_ifs with heq
  · have hlength : marker.length = w.length := by simpa using congrArg List.length heq
    have hwne : w ≠ [] := by
      rw [← List.length_pos_iff, ← hlength]
      exact List.length_pos_of_ne_nil hne
    have hstart : isBoundary before (w ++ t).head? := by
      change (onWord before != onWord (w ++ t).head?) = true
      rw [hbefore, onWord_head? hwne hw t]
      rfl
    have hstop : isBoundary w.getLast? t.head? := by
      change (onWord w.getLast? != onWord t.head?) = true
      rw [onWord_getLast? hwne hw, ht]
      rfl
    have hfold : Text.foldPrefixOf marker w := by
      rw [Text.foldPrefixOf, heq]
      exact List.isPrefixOf_iff_prefix.mpr (List.prefix_refl _)
    rw [matchOne?, hlength, List.take_left, List.drop_left, if_pos]
    rw [hstart, hfold, if_neg (by simpa using hwne), hstop]
    simp
  · rw [Option.eq_none_iff_forall_ne_some]
    intro m hm
    obtain ⟨v, u, hsplit, hv, hvword, -, hu, hfold, -⟩ := matchOne?_spec hne hmarker hm
    -- Both words are all of the symbols of words that the text begins with.
    have hrun {a b : Text} (ha : ∀ s ∈ a, s.isWord) (hb : onWord b.head? = false) :
        (a ++ b).takeWhile Sym.isWord = a := by
      rw [List.takeWhile_append_of_pos ha]
      cases b with
      | nil => simp
      | cons s b => simpa [onWord] using hb
    refine heq (hfold.trans (congrArg _ ?_))
    rw [← hrun hvword hu, ← hsplit, hrun hw ht]

end

section

variable (hwords : AreWords markers)
include hwords

theorem names_spec (h : names markers w) : w ≠ [] ∧ w.FoldsToWord := by
  obtain ⟨marker, hmarker, heq⟩ := List.any_eq_true.mp h
  exact hwords.foldsToWord hmarker (of_decide_eq_true heq)

theorem matchesAt_eq_nil {rest : Text} (h : onWord rest.head? → onWord before) :
    matchesAt markers offset before rest = [] := by
  have hnone : markers.filterMap (matchOne? offset before rest) = [] :=
    List.filterMap_eq_nil_iff.mpr fun marker hmarker =>
      matchOne?_eq_none (hwords marker hmarker).1 (hwords marker hmarker).2 h
  simp only [matchesAt, hnone]

theorem matchesAt_word (hbefore : onWord before = false) (hw : ∀ s ∈ w, s.isWord)
    (ht : onWord t.head? = false) : matchesAt markers offset before (w ++ t) =
      if names markers w then [⟨offset, w, t.head? = some (.char ':')⟩] else [] := by
  have hone (marker : Text) (hmarker : marker ∈ markers) :=
    @matchOne?_word marker w t offset before (hwords marker hmarker).1 (hwords marker hmarker).2
      hbefore hw ht
  cases hall : markers.filterMap (matchOne? offset before (w ++ t)) with
  | nil =>
    have hnone : names markers w = false := by
      refine List.any_eq_false.mpr fun marker hmarker hnamed => ?_
      have hmatch := hone marker hmarker
      rw [List.filterMap_eq_nil_iff.mp hall marker hmarker, if_pos (of_decide_eq_true hnamed)] at hmatch
      cases hmatch
    simp [matchesAt, hall, hnone]
  | cons m more =>
    obtain ⟨marker, hmarker, hmatch⟩ := List.mem_filterMap.mp (hall ▸ List.mem_cons_self)
    rw [hone marker hmarker] at hmatch
    split_ifs at hmatch with heq
    have hnamed : names markers w := List.any_eq_true.mpr ⟨marker, hmarker, decide_eq_true heq⟩
    have hlength : m.length ≠ 0 := by
      have := List.length_pos_of_ne_nil (names_spec hwords hnamed).1
      rw [← Option.some.inj hmatch, Match.length]
      exact (Nat.add_pos_left this _).ne'
    simp only [matchesAt, hall, if_neg hlength, hnamed, if_true, Option.some.inj hmatch]

end

/-! ### A scan goes from word to word -/

/-- What is left of a match is gone over. -/
theorem matchesFrom_skip {v : Text} : matchesFrom markers offset before v.length (v ++ t) =
    matchesFrom markers (offset + v.length) (v.getLast?.or before) 0 t := by
  induction v generalizing offset before with
  | nil => rfl
  | cons s v ih =>
    rw [List.length_cons, List.cons_append, matchesFrom, ih, List.getLast?_cons]
    congr 1
    · omega
    · cases v.getLast? <;> rfl

section

variable (hwords : AreWords markers)
include hwords

/-- What is no word begins no match. -/
theorem matchesFrom_plain {s : Sym} (hs : s.isWord = false) :
    matchesFrom markers offset before 0 (s :: t) =
      matchesFrom markers (offset + 1) (some s) 0 t := by
  have hnone : matchesAt markers offset before (s :: t) = [] :=
    matchesAt_eq_nil hwords fun hword => by simp [hs] at hword
  rw [matchesFrom, hnone]
  rfl

/-- No match begins within a word. -/
theorem matchesFrom_within {v : Text} (hv : ∀ s ∈ v, s.isWord) (hbefore : onWord before) :
    matchesFrom markers offset before 0 (v ++ t) =
      matchesFrom markers (offset + v.length) (v.getLast?.or before) 0 t := by
  induction v generalizing offset before with
  | nil => rfl
  | cons s v ih =>
    have hnone : matchesAt markers offset before (s :: (v ++ t)) = [] :=
      matchesAt_eq_nil hwords fun _ => hbefore
    have hs : onWord (some s) := hv s (by simp)
    rw [List.cons_append, matchesFrom, hnone, List.nil_append, List.map_nil,
      show total [] - 1 = 0 from rfl, ih (fun c hc => hv c (by simp [hc])) hs, List.length_cons, List.getLast?_cons]
    congr 1
    · omega
    · cases v.getLast? <;> rfl

/-- A whole word is a match or none, and the scan goes on behind it. -/
theorem matchesFrom_word (hbefore : onWord before = false) (hne : w ≠ []) (hw : ∀ s ∈ w, s.isWord)
    (ht : onWord t.head? = false) : matchesFrom markers offset before 0 (w ++ t) =
      (if names markers w then [⟨offset, w, t.head? = some (.char ':')⟩] else []) ++
        matchesFrom markers (offset + w.length) w.getLast? 0 t := by
  have hat := @matchesAt_word _ _ _ offset _ hwords hbefore hw ht
  obtain ⟨s, v, rfl⟩ := List.exists_cons_of_ne_nil hne
  have hlast : (s :: v).getLast? = v.getLast?.or (some s) := by
    rw [List.getLast?_cons]
    cases v.getLast? <;> rfl
  rw [List.cons_append] at hat ⊢
  rw [matchesFrom, hat, hlast]
  congr 1
  split_ifs with hnamed
  · have hskip : total ([(⟨offset, s :: v, t.head? = some (.char ':')⟩ : Match)].map Match.length) - 1 =
        v.length + if t.head? = some (.char ':') then 1 else 0 := by
      simp only [List.map_cons, List.map_nil, total, Match.length, List.length_cons]
      split_ifs <;> simp_all
    rw [hskip]
    by_cases hcolon : t.head? = some (.char ':')
    · -- The colon is part of the match, and begins none.
      obtain ⟨u, rfl⟩ : ∃ u, t = .char ':' :: u := ⟨_, (List.cons_head?_tail hcolon).symm⟩
      have hgone := @matchesFrom_skip markers u (offset + 1) (some s) (v ++ [.char ':'])
      rw [List.append_assoc, List.length_append] at hgone
      rw [if_pos hcolon, matchesFrom_plain hwords (by decide +kernel)]
      refine hgone.trans ?_
      congr 1
      · simp only [List.length_cons, List.length_nil]
        omega
      · simp
    · rw [if_neg hcolon, show v.length + 0 = v.length from rfl, matchesFrom_skip, List.length_cons]
      congr 1
      omega
  · have hs : onWord (some s) := hw s (by simp)
    have hv : ∀ c ∈ v, c.isWord := fun c hc => hw c (by simp [hc])
    rw [List.map_nil, show total [] - 1 = 0 from rfl, matchesFrom_within hwords hv hs,
      List.length_cons]
    congr 1
    omega

end

/-! ### Settled texts -/

/-- Texts from the beginning of a word or between words, the words of the one being settled in the
other. -/
inductive Settles (markers : List Text) : Text → Text → Prop
  | nil : Settles markers [] []
  | plain {s : Sym} {t t' : Text} (hs : s.isWord = false) (h : Settles markers t t') :
    Settles markers (s :: t) (s :: t')
  | word {w t t' : Text} (hne : w ≠ []) (hw : ∀ s ∈ w, s.isWord) (ht : onWord t.head? = false)
    (h : Settles markers t t') :
    Settles markers (w ++ t) (settled markers w (t.head? = some (.char ':')) ++ t')

theorem exists_settles (markers : List Text) (x : Text) : ∃ x', Settles markers x x' := by
  induction hn : x.length using Nat.strong_induction_on generalizing x with
  | h n ih =>
    cases x with
    | nil => exact ⟨[], .nil⟩
    | cons s t =>
      by_cases hs : s.isWord
      · have hsplit := List.takeWhile_append_dropWhile (p := Sym.isWord) (l := s :: t)
        have hne : (s :: t).takeWhile Sym.isWord ≠ [] := by simp [hs]
        obtain ⟨t', ht'⟩ := ih _ (by
          have := congrArg List.length hsplit
          have := List.length_pos_of_ne_nil hne
          rw [List.length_append] at *
          omega) ((s :: t).dropWhile Sym.isWord) rfl
        have hword := Settles.word hne (List.all_eq_true.mp List.all_takeWhile) ?_ ht'
        · rw [hsplit] at hword
          exact ⟨_, hword⟩
        · have hstop := List.head?_dropWhile_not Sym.isWord (s :: t)
          cases hhead : ((s :: t).dropWhile Sym.isWord).head? with
          | none => rfl
          | some c => rwa [hhead] at hstop
      · obtain ⟨t', ht'⟩ := ih t.length (by simp [← hn]) t rfl
        exact ⟨s :: t', .plain (by simpa using hs) ht'⟩

theorem settled_cases (markers : List Text) (w : Text) (colon : Bool) :
    settled markers w colon = w ∨
    (names markers w ∧ colon ∧ settled markers w colon = Text.upper w) ∨
    (names markers w ∧ colon = false ∧ w = Text.upper w ∧ settled markers w colon = w ++ ":") := by
  rw [settled]
  split_ifs with hnamed hcolon hupper
  · exact .inr (.inl ⟨hnamed, hcolon, rfl⟩)
  · exact .inr (.inr ⟨hnamed, by simpa using hcolon, hupper, rfl⟩)
  · exact .inl rfl
  · exact .inl rfl

namespace Settles

variable {x x' : Text}

/-- Between words a text begins as before. -/
theorem head?_eq (h : Settles markers x x') (hx : onWord x.head? = false) : x'.head? = x.head? := by
  cases h with
  | nil => rfl
  | plain hs h => rfl
  | word hne hw ht h =>
    rw [onWord_head? hne hw] at hx
    cases hx

theorem of_plain {s : Sym} (hs : s.isWord = false) (h : Settles markers (s :: t) x') :
    ∃ r, x' = s :: r ∧ Settles markers t r := by
  generalize hst : s :: t = x at h
  cases h with
  | nil => cases hst
  | plain hs h =>
    cases hst
    exact ⟨_, rfl, h⟩
  | @word _ u _ hne hw ht h =>
    have := onWord_head? hne hw u
    rw [← hst, List.head?_cons, onWord_some, hs] at this
    cases this

/-- Settling rewords a text. -/
theorem reworded (h : Settles markers x x') : Reworded x x' := by
  induction h with
  | nil => exact .nil
  | plain hs h ih => exact .keep _ ih
  | @word w t t' hne hw ht h ih =>
    have hinert : ∀ s ∈ w, s.isInert := fun s hs => Sym.isInert_of_isWord (hw s hs)
    rcases settled_cases markers w (t.head? = some (.char ':')) with
      heq | ⟨hnamed, -, heq⟩ | ⟨-, -, -, heq⟩ <;> rw [heq]
    · exact .word hne hne hinert hinert ih
    · obtain ⟨hne', hinert'⟩ := Text.upper_isInert hne hinert
      exact .word hne hne' hinert hinert' ih
    · refine .word hne (by simp [hne]) hinert (fun s hs => ?_) ih
      rcases List.mem_append.mp hs with hs | hs
      · exact hinert s hs
      · rw [List.mem_singleton.mp hs]
        decide

end Settles

/-! ### The scan of a settled text -/

/-- The remarks on the markers of a text. -/
def remarksFrom (markers : List Text) (base offset : Nat) (before : Option Sym) (x : Text) :
    List Remark :=
  (matchesFrom markers offset before 0 x).filterMap (remark? base)

section

variable {base : Nat} {m : Match}

theorem remark?_isSome : (remark? base m).isSome ↔ m.word = Text.upper m.word ∨ m.colon := by
  simp only [remark?]
  split_ifs with hdone hword hcolon
  · simp only [Bool.and_eq_true, decide_eq_true_eq] at hdone
    exact iff_of_true rfl (.inl hdone.1)
  · exact iff_of_true rfl (.inl hword)
  · exact iff_of_true rfl (.inr hcolon)
  · exact iff_of_false Bool.false_ne_true (not_or.mpr ⟨hword, hcolon⟩)

theorem remark?_done (hword : m.word = Text.upper m.word) (hcolon : m.colon) :
    ∃ r, remark? base m = some r ∧ r.fix = none := by
  unfold remark?
  rw [if_pos (by simp [← hword, hcolon])]
  exact ⟨_, rfl, rfl⟩

/-- What is remarked on a word has a fix that settles it, unless it is settled as it is. -/
theorem remark?_fix (hnamed : names markers m.word) :
    (remark? base m).bind (·.fix) = none ∧ settled markers m.word m.colon = m.word ∨
    ∃ fix, (remark? base m).bind (·.fix) = some fix ∧ fix.span.start = base + m.offset ∧
      fix.span.stop = base + m.offset + m.word.length ∧
      fix.insertion = settled markers m.word m.colon := by
  unfold remark?
  simp only [settled, hnamed, if_true]
  cases hcolon : m.colon <;> by_cases hword : m.word = Text.upper m.word
  · rw [if_neg (by simp), if_pos hword, if_neg Bool.false_ne_true, if_pos hword]
    refine .inr ⟨_, rfl, rfl, rfl, (Fix.insertion_eq rfl).trans ?_⟩
    rw [← hword]
  · rw [if_neg (by simp), if_neg hword, if_neg Bool.false_ne_true]
    exact .inl ⟨rfl, if_neg hword⟩
  · rw [if_pos (by simpa using hword), if_pos rfl]
    exact .inl ⟨rfl, hword.symm⟩
  · rw [if_neg (by simpa using hword), if_neg hword, if_pos rfl, if_pos rfl]
    exact .inr ⟨_, rfl, rfl, rfl, Fix.insertion_eq rfl⟩

end

variable (hwords : AreWords markers)
include hwords

theorem remarksFrom_nil (base : Nat) : remarksFrom markers base offset before [] = [] := by
  have hnone : matchesAt markers offset before [] = [] :=
    matchesAt_eq_nil hwords fun hword => by cases hword
  rw [remarksFrom, matchesFrom, hnone]
  rfl

theorem remarksFrom_plain {base : Nat} {s : Sym} (hs : s.isWord = false) :
    remarksFrom markers base offset before (s :: t) =
      remarksFrom markers base (offset + 1) (some s) t := by
  rw [remarksFrom, matchesFrom_plain hwords hs]
  rfl

theorem remarksFrom_word {base : Nat} (hbefore : onWord before = false) (hne : w ≠ [])
    (hw : ∀ s ∈ w, s.isWord) (ht : onWord t.head? = false) :
    remarksFrom markers base offset before (w ++ t) =
      (if names markers w then
        (remark? base ⟨offset, w, t.head? = some (.char ':')⟩).toList else []) ++
        remarksFrom markers base (offset + w.length) w.getLast? t := by
  rw [remarksFrom, matchesFrom_word hwords hbefore hne hw ht, List.filterMap_append]
  congr 1
  split_ifs
  · rw [List.filterMap_cons]
    cases remark? base ⟨offset, w, t.head? = some (.char ':')⟩ <;> rfl
  · rfl

/-- The remarks on a settled word need no fix, and there are as many of them as on the word. -/
theorem remarksFrom_settled {base base' offset' : Nat} (hbefore : onWord before = false) (hne : w ≠ [])
    (hw : ∀ s ∈ w, s.isWord) (ht : onWord t.head? = false) :
    ∃ rs offset'' before'', remarksFrom markers base' offset' before
        (settled markers w (t.head? = some (.char ':')) ++ t) =
          rs ++ remarksFrom markers base' offset'' before'' t ∧
      (∀ r ∈ rs, r.fix = none) ∧
      rs.length = (if names markers w then
        (remark? base ⟨offset, w, t.head? = some (.char ':')⟩).toList else []).length := by
  have hlength {m : Match} (hm : m.word = Text.upper m.word ∨ m.colon) :
      (remark? base m).toList.length = 1 := by
    rw [Option.length_toList, remark?_isSome.mpr hm]
    rfl
  by_cases hnamed : names markers w
  · obtain ⟨-, hfolds⟩ := names_spec hwords hnamed
    rw [if_pos hnamed, settled, if_pos hnamed]
    by_cases hcolon : t.head? = some (.char ':')
    · -- The upper form stands before the colon.
      have hupper : Text.upper w ≠ [] := by
        rw [← List.length_pos_iff, hfolds.length_upper]
        exact List.length_pos_of_ne_nil hne
      have hnamed' : names markers (Text.upper w) := by rwa [names, hfolds.map_folded_upper]
      obtain ⟨r, hr, hfix⟩ := @remark?_done base' ⟨offset', Text.upper w, t.head? = some (.char ':')⟩
        hfolds.upper_upper.symm (by simpa using hcolon)
      rw [if_pos (by simpa using hcolon), remarksFrom_word hwords hbefore hupper
        (fun s hs => hfolds.upper.isWord hs) ht, if_pos hnamed', hr]
      refine ⟨[r], _, _, rfl, by simpa using hfix, ?_⟩
      rw [hlength (.inr (by simpa using hcolon)), List.length_singleton]
    · rw [if_neg (by simpa using hcolon)]
      split_ifs with hupper
      · -- The colon is put in.
        obtain ⟨r, hr, hfix⟩ := @remark?_done base' ⟨offset', w, true⟩ hupper rfl
        have hplain : (Sym.char ':').isWord = false := by decide +kernel
        have hstop : onWord ((":" : Text) ++ t).head? = false := hplain
        rw [List.append_assoc, remarksFrom_word hwords hbefore hne hw hstop, if_pos hnamed,
          show (":" : Text) ++ t = .char ':' :: t from rfl, remarksFrom_plain hwords hplain]
        refine ⟨[r], _, _, congrArg (Option.toList · ++ _) hr, by simpa using hfix, ?_⟩
        rw [hlength (.inl hupper), List.length_singleton]
      · have hnone (base offset : Nat) :
            remark? base ⟨offset, w, t.head? = some (.char ':')⟩ = none := by
          rw [← Option.not_isSome_iff_eq_none, remark?_isSome]
          simp [hupper, hcolon]
        rw [remarksFrom_word hwords hbefore hne hw ht, if_pos hnamed, hnone, hnone]
        exact ⟨[], _, _, rfl, by simp, rfl⟩
  · rw [if_neg hnamed, settled, if_neg hnamed, remarksFrom_word hwords hbefore hne hw ht,
      if_neg hnamed]
    exact ⟨[], _, _, rfl, by simp, rfl⟩

/-- In a settled text as many markers are found as before, and none of them is to be fixed. -/
theorem Settles.remarksFrom_eq {x x' : Text} (h : Settles markers x x') {base base' offset offset' : Nat}
    {before before' : Option Sym} (hbefore : onWord x.head? → onWord before = false)
    (hbefore' : onWord x.head? → onWord before' = false) :
    (remarksFrom markers base' offset' before' x').length =
        (remarksFrom markers base offset before x).length ∧
      ∀ r ∈ remarksFrom markers base' offset' before' x', r.fix = none := by
  induction h generalizing offset offset' before before' with
  | nil => simp [remarksFrom_nil hwords]
  | plain hs h ih =>
    rw [remarksFrom_plain hwords hs, remarksFrom_plain hwords hs]
    exact ih (fun _ => hs) fun _ => hs
  | @word w t t' hne hw ht h ih =>
    have hhead := h.head?_eq ht
    obtain ⟨rs, o, b, hrs, hfix, hlength⟩ := @remarksFrom_settled markers w t' offset before' hwords base
      base' offset' (hbefore' (onWord_head? hne hw t)) hne hw (hhead ▸ ht)
    rw [hhead] at hrs hlength
    have hafter {s : Option Sym} : onWord t.head? → onWord s = false := fun hword => by
      rw [ht] at hword
      cases hword
    obtain ⟨hrest, hall⟩ := @ih (offset + w.length) o w.getLast? b hafter hafter
    rw [hrs, remarksFrom_word hwords (hbefore (onWord_head? hne hw t)) hne hw ht, List.length_append,
      List.length_append, hlength, hrest]
    exact ⟨rfl, fun r hr => (List.mem_append.mp hr).elim (hfix r) (hall r)⟩

/-! ### Fixes settle words -/

/-- The fix of a remark takes a word of the text. -/
theorem bounds_of_mem {base : Nat} {x : Text} {r : Remark} {fix : Fix}
    (hr : r ∈ remarksFrom markers base offset before x) (hfix : r.fix = some fix) :
    base + offset ≤ fix.span.start ∧ fix.span.start < fix.span.stop ∧
      fix.span.stop ≤ base + offset + x.length := by
  obtain ⟨m, hm, hr⟩ := List.mem_filterMap.mp hr
  obtain ⟨hstart, hstop, -⟩ := remark?_spec hr hfix
  have hbefore := offset_le_of_mem hm
  have hstands := matchesFrom_spec hm
  have hbehind := hstands.stop_le
  obtain ⟨-, -, -, -, -, marker, hmarker, hlength, -⟩ := hstands
  have hpos := List.length_pos_of_ne_nil (hwords marker hmarker).1
  have hword : m.word.length ≤ m.length := Nat.le_add_right _ _
  omega

theorem start_le_of_head? {base : Nat} {x : Text} {ps qs : List Proposal}
    (hps : ps.map (·.fix) = (remarksFrom markers base offset before x).filterMap (·.fix))
    (hqs : ∀ q ∈ qs.head?, base + offset ≤ q.span.start) :
    ∀ p ∈ (ps ++ qs).head?, base + offset ≤ p.span.start := by
  cases ps with
  | nil => exact hqs
  | cons q ps =>
    intro p hp
    obtain rfl : q = p := Option.some.inj hp
    have hmem : q.fix ∈ (q :: ps).map (·.fix) := by simp
    rw [hps] at hmem
    obtain ⟨r, hr, hfix⟩ := List.mem_filterMap.mp hmem
    exact (bounds_of_mem hwords hr hfix).1

/-- The fixes of the remarks on a text, put in, settle the text. -/
theorem Settles.splice_eq {x x' : Text} (h : Settles markers x x') {text post : Text} {base : Nat}
    {ps qs : List Proposal} (hbefore : onWord x.head? → onWord before = false)
    (hdrop : text.drop (base + offset) = x ++ post)
    (hps : ps.map (·.fix) = (remarksFrom markers base offset before x).filterMap (·.fix))
    (hqs : ∀ q ∈ qs.head?, base + offset + x.length ≤ q.span.start) :
    splice text (base + offset) (ps ++ qs) =
      x' ++ splice text (base + offset + x.length) qs := by
  induction h generalizing offset before ps with
  | nil =>
    rw [remarksFrom_nil hwords] at hps
    rw [List.map_eq_nil_iff.mp hps]
    rfl
  | @plain s t t' hs h ih =>
    rw [remarksFrom_plain hwords hs] at hps
    have hdrop' : text.drop (base + (offset + 1)) = t ++ post := by
      rw [← Nat.add_assoc, ← List.drop_drop, hdrop]
      rfl
    have hlength : base + (offset + 1) + t.length = base + offset + (s :: t).length := by
      rw [List.length_cons]
      omega
    have hafter : onWord t.head? → onWord (some s) = false := fun _ => hs
    have hrest := ih hafter hdrop' hps (hlength ▸ hqs)
    have hhead := @start_le_of_head? markers (offset + 1) (some s) hwords base t ps qs hps fun q hq => by
      have := hqs q hq
      rw [List.length_cons] at this
      omega
    have hskip := @splice_append text (base + offset) (ps ++ qs) [s] (t ++ post) (base + (offset + 1))
      rfl hdrop hhead
    rw [hskip, hrest, hlength]
    rfl
  | @word w t t' hne hw ht h ih =>
    have hdrop' : text.drop (base + (offset + w.length)) = t ++ post := by
      rw [← Nat.add_assoc, ← List.drop_drop, hdrop, List.append_assoc, List.drop_left]
    have hlength : base + (offset + w.length) + t.length = base + offset + (w ++ t).length := by
      rw [List.length_append]
      omega
    have hafter : onWord t.head? → onWord w.getLast? = false := fun hword => by
      rw [ht] at hword
      cases hword
    have hrest {ps : List Proposal}
        (hps : ps.map (·.fix) =
          (remarksFrom markers base (offset + w.length) w.getLast? t).filterMap (·.fix)) :=
      ih hafter hdrop' hps (hlength ▸ hqs)
    rw [remarksFrom_word hwords (hbefore (onWord_head? hne hw t)) hne hw ht, List.filterMap_append]
      at hps
    -- A word without a fix stays.
    have hkeep (hsettled : settled markers w (t.head? = some (.char ':')) = w)
        (hps : ps.map (·.fix) =
          (remarksFrom markers base (offset + w.length) w.getLast? t).filterMap (·.fix)) :
        splice text (base + offset) (ps ++ qs) =
          settled markers w (t.head? = some (.char ':')) ++ t' ++
            splice text (base + offset + (w ++ t).length) qs := by
      have hhead := @start_le_of_head? markers (offset + w.length) w.getLast? hwords base t ps qs hps
        fun q hq => by
          have := hqs q hq
          rw [List.length_append] at this
          omega
      rw [hsettled, splice_append (Nat.add_assoc _ _ _) (hdrop.trans (List.append_assoc w t post)) hhead,
        hrest hps, hlength, List.append_assoc]
    by_cases hnamed : names markers w
    · have hone (o : Option Remark) : o.toList.filterMap (·.fix) = (o.bind (·.fix)).toList := by
        cases o <;> rfl
      rw [if_pos hnamed, hone] at hps
      rcases @remark?_fix markers base ⟨offset, w, t.head? = some (.char ':')⟩ hnamed with
        ⟨hnone, hsettled⟩ | ⟨fix, hfix, hstart, hstop, hnew⟩
      · rw [hnone] at hps
        exact hkeep hsettled hps
      · rw [hfix] at hps
        obtain ⟨p, ps, rfl, rfl, htail⟩ := List.map_eq_cons_iff.mp hps
        have hstop : p.span.stop = base + (offset + w.length) := by
          rw [← Nat.add_assoc]
          exact hstop
        rw [List.cons_append, splice_cons hstart, hstop, hrest htail, hlength, hnew, List.append_assoc]
    · rw [if_neg hnamed] at hps
      exact hkeep (if_neg hnamed) hps

end Rule.Markers

end HouseStyle
