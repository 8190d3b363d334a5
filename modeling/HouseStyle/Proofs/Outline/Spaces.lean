import HouseStyle.Proofs.Outline.Born
import HouseStyle.Proofs.Outline.Thinned
import HouseStyle.Token.Lexer

/-! White space and comments never change the outline, which looks at the kinds and the texts of tokens
and at nothing else. Two token lists that are equal without them, token for token by kind and text, have
the same outline, but for where the tokens stand: both have that of the list without white space and
comments. -/

namespace HouseStyle

/-- The token with its kind and its text alone. -/
def Token.plain (t : Token) : Token :=
  { kind := t.kind, text := t.text, start := 0, line := 0, column := 0 }

namespace Outline

variable (tokens : Array Token) (partners : Array (Option Nat))

theorem tokenIs_plain {p : Token → Bool} (hp : ∀ t, p t.plain = p t) :
    tokenIs (tokens.map Token.plain) p = tokenIs tokens p := by
  funext i
  simp [tokenIs, Function.comp_def, hp]

/-! The tests that the scan puts to tokens. -/

@[simp] theorem tokenIs_plain_isMark (c : Char) :
    tokenIs (tokens.map Token.plain) (·.isMark c) = tokenIs tokens (·.isMark c) :=
  tokenIs_plain tokens fun _ => rfl

@[simp] theorem tokenIs_plain_isKeyword (words : List Text) :
    tokenIs (tokens.map Token.plain) (·.isKeyword words) = tokenIs tokens (·.isKeyword words) :=
  tokenIs_plain tokens fun _ => rfl

@[simp] theorem tokenIs_plain_identifier :
    tokenIs (tokens.map Token.plain) (·.kind = .identifier) = tokenIs tokens (·.kind = .identifier) :=
  tokenIs_plain tokens fun _ => rfl

@[simp] theorem tokenIs_plain_accessor :
    tokenIs (tokens.map Token.plain) (accessors.contains ·.text) =
      tokenIs tokens (accessors.contains ·.text) :=
  tokenIs_plain tokens fun _ => rfl

@[simp] theorem tokenIs_plain_trailing :
    tokenIs (tokens.map Token.plain)
        (fun t => t.kind = .punctuation && trailingContinuation.contains t.text) =
      tokenIs tokens (fun t => t.kind = .punctuation && trailingContinuation.contains t.text) :=
  tokenIs_plain tokens fun _ => rfl

/-! ### The leading word -/

theorem skipGroup_plain (run : List Nat) :
    skipGroup (tokens.map Token.plain) partners run = skipGroup tokens partners run := by
  cases run with
  | nil => rfl
  | cons i rest => simp only [skipGroup, tokenIs_plain_isMark]

theorem fromHead_plain (run : List Nat) :
    fromHead (tokens.map Token.plain) partners run = fromHead tokens partners run := by
  fun_induction fromHead tokens partners run with
  | case1 => simp [fromHead]
  | case2 i h₁ => rw [fromHead.eq_def]; simp [h₁]
  | case3 i h₁ name rest h₂ ih => rw [fromHead.eq_def]; simp [h₁, h₂, skipGroup_plain, ih]
  | case4 i h₁ name rest h₂ ih => rw [fromHead.eq_def]; simp [h₁, h₂, skipGroup_plain, ih]
  | case5 i rest h₁ h₂ ih => rw [fromHead.eq_def]; simp [h₁, h₂, skipGroup_plain, ih]
  | case6 i rest h₁ h₂ h₃ ih => rw [fromHead.eq_def]; simp_all
  | case7 i rest h₁ h₂ h₃ => rw [fromHead.eq_def]; simp_all

theorem head?_plain (run : List Nat) :
    head? (tokens.map Token.plain) partners run = head? tokens partners run := by
  unfold head?
  rw [fromHead_plain]
  cases fromHead tokens partners run with
  | nil => rfl
  | cons i rest =>
    simp only [Array.getElem?_map, Option.map_map]
    rfl

/-! ### The scan -/

namespace Scan

variable (s : Scan) (run : Run) (i : Nat) (t : Token) (end_ : Text)

theorem classify_plain :
    classify (tokens.map Token.plain) partners run = classify tokens partners run := by
  simp only [classify, head?_plain]

theorem expectsBlock_plain (head : Head) :
    expectsBlock (tokens.map Token.plain) run head = expectsBlock tokens run head := by
  simp only [expectsBlock, tokenIs_plain_accessor]

theorem toSegment_plain (ending : Ending) :
    toSegment (tokens.map Token.plain) partners run ending = toSegment tokens partners run ending := by
  simp only [toSegment, classify_plain]

theorem close_plain (ending : Ending) :
    s.close (tokens.map Token.plain) ending = s.close tokens ending := by
  simp only [close, toSegment_plain]

theorem continues_plain (following : Option Nat) :
    continues (tokens.map Token.plain) s following = continues tokens s following := by
  simp only [continues, classify_plain, expectsBlock_plain, tokenIs_plain_trailing,
    tokenIs_plain_isKeyword]
  cases following with
  | none => rfl
  | some k =>
    simp only [Option.bind_some, Array.getElem?_map]
    cases tokens[k]? <;> rfl

theorem newline_plain (following : Option Nat) :
    s.newline (tokens.map Token.plain) following i = s.newline tokens following i := by
  simp only [newline, continues_plain, close_plain]

theorem openBrace_plain : s.openBrace (tokens.map Token.plain) i = s.openBrace tokens i := by
  simp only [openBrace, classify_plain, expectsBlock_plain, toSegment_plain]

theorem closeBrace_plain : s.closeBrace (tokens.map Token.plain) i = s.closeBrace tokens i := by
  simp only [closeBrace, close_plain]

theorem terminator_plain : s.terminator (tokens.map Token.plain) i = s.terminator tokens i := by
  simp only [terminator, classify_plain, close_plain]

theorem startsLabel_plain : startsLabel (tokens.map Token.plain) run = startsLabel tokens run := by
  simp only [startsLabel, tokenIs_plain_isKeyword]

theorem significant_plain :
    s.significant (tokens.map Token.plain) end_ t.plain i = s.significant tokens end_ t i := by
  simp only [significant, openBrace_plain, closeBrace_plain, terminator_plain, startsLabel_plain,
    close_plain]
  rfl

theorem step_plain (following : Nat → Option Nat) :
    s.step (tokens.map Token.plain) end_ following i t.plain =
      s.step tokens end_ following i t := by
  simp only [step, newline_plain, significant_plain]
  rfl

theorem run_plain (following : Nat → Option Nat) (list : List Token) :
    run_ (tokens.map Token.plain) end_ following s i (list.map Token.plain) =
      run_ tokens end_ following s i list := by
  induction list generalizing s i with
  | nil => rfl
  | cons t rest ih => rw [List.map_cons, run_, run_, step_plain, ih]

end Scan

theorem significantFrom_plain (i : Nat) (list : List Token) :
    significantFrom i (list.map Token.plain) = significantFrom i list := by
  induction list generalizing i with
  | nil => rfl
  | cons t rest ih =>
    simp only [List.map_cons, significantFrom, ih]
    rfl

theorem significantUpTo_plain (i : Nat) (before : Option Nat) (list : List Token) :
    significantUpTo i before (list.map Token.plain) = significantUpTo i before list := by
  induction list generalizing i before with
  | nil => rfl
  | cons t rest ih =>
    simp only [List.map_cons, significantUpTo, ih]
    rfl

/-- The outline of plain tokens is the same but for the tokens. -/
theorem ofTokens_plain (list : List Token) (end_ : Text) :
    Outline.ofTokens (list.map Token.plain) end_ =
      { Outline.ofTokens list end_ with tokens := (list.map Token.plain).toArray } := by
  simp only [Outline.ofTokens, significantFrom_plain, significantUpTo_plain, ← List.map_toArray,
    Array.size_map, Scan.run_plain, Scan.close_plain]

end Outline

namespace Outline

/-! ### Solid tokens -/

/-- Whether a token is neither white space nor a comment. Line breaks are solid. -/
def isSolid (t : Token) : Bool := t.kind ≠ .whitespace && t.kind ≠ .comment

/-- The kinds and the texts of the solid tokens of a list. -/
def reading (list : List Token) : List (TokenKind × Text) :=
  (list.filter isSolid).map fun t => (t.kind, t.text)

/-- Where the solid tokens of a list stand. -/
def solids (list : List Token) : List Nat := (list.zipIdx.filter (isSolid ·.1)).map Prod.snd

/-- Where one of the solid tokens stands. Behind the last one it counts on from the end of the list. -/
def place (list : List Token) (k : Nat) : Nat :=
  (solids list).getD k (list.length + (k - (solids list).length))

/-- How many solid tokens stand before an index, with all indices behind the end of the list. -/
def rank (list : List Token) (i : Nat) : Nat :=
  ((solids list).filter (· < i)).length + (i - list.length)

/-- The place in another list of the solid token at an index. -/
def renumber (list list' : List Token) (i : Nat) : Nat := place list' (rank list i)

section

variable {list list' : List Token} {i j k : Nat}

theorem map_fst_solids (list : List Token) :
    (list.zipIdx.filter (isSolid ·.1)).map Prod.fst = list.filter isSolid := by
  have h : (list.zipIdx.map Prod.fst).filter isSolid =
      (list.zipIdx.filter (isSolid ·.1)).map Prod.fst := List.filter_map
  rw [← h, List.zipIdx_map_fst]

theorem length_solids (list : List Token) : (solids list).length = (list.filter isSolid).length := by
  rw [← map_fst_solids, solids, List.length_map, List.length_map]

theorem mem_solids : i ∈ solids list ↔ ∃ t, list[i]? = some t ∧ isSolid t := by
  simp [solids, List.mem_zipIdx_iff_getElem?]

theorem lt_of_mem_solids (h : i ∈ solids list) : i < list.length := by
  obtain ⟨t, ht, -⟩ := mem_solids.mp h
  exact (List.getElem?_eq_some_iff.mp ht).1

theorem solids_pairwise (list : List Token) : (solids list).Pairwise (· < ·) := by
  have hall : (list.zipIdx.map Prod.snd).Pairwise (· < ·) := by
    rw [List.zipIdx_map_snd]
    exact List.pairwise_lt_range'
  exact hall.sublist (List.filter_sublist.map Prod.snd)

theorem place_of_lt (h : k < (solids list).length) : place list k = (solids list)[k] := by
  simp [place, h]

theorem place_of_le (h : (solids list).length ≤ k) :
    place list k = list.length + (k - (solids list).length) := by
  simp [place, h]

/-- The solid tokens keep their order. -/
theorem place_strictMono (list : List Token) : StrictMono (place list) := by
  intro k m hkm
  rcases Nat.lt_or_ge m (solids list).length with hm | hm
  · rw [place_of_lt hm, place_of_lt (hkm.trans hm)]
    exact List.pairwise_iff_getElem.mp (solids_pairwise list) k m _ _ hkm
  · rw [place_of_le hm]
    rcases Nat.lt_or_ge k (solids list).length with hk | hk
    · rw [place_of_lt hk]
      have := lt_of_mem_solids (List.getElem_mem hk)
      omega
    · rw [place_of_le hk]
      omega

/-- The token at the place of a solid one is that one. -/
theorem getElem?_place (list : List Token) (k : Nat) :
    list[place list k]? = (list.filter isSolid)[k]? := by
  rcases Nat.lt_or_ge k (solids list).length with hk | hk
  · have hk' : k < (list.zipIdx.filter (isSolid ·.1)).length := by simpa [solids] using hk
    have hmem := (List.mem_filter.mp (List.getElem_mem hk')).1
    rw [List.mem_zipIdx_iff_getElem?] at hmem
    have hplace : place list k = (list.zipIdx.filter (isSolid ·.1))[k].2 := by
      rw [place_of_lt hk]
      simp [solids]
    rw [hplace, hmem, ← map_fst_solids, List.getElem?_map, List.getElem?_eq_getElem hk']
    rfl
  · rw [place_of_le hk, List.getElem?_eq_none (by omega), List.getElem?_eq_none]
    rwa [← length_solids]

/-- Before a solid token stand those that come before it. -/
theorem filter_lt_place (list : List Token) (k : Nat) :
    (solids list).filter (· < place list k) = (solids list).take k := by
  have hsplit := List.take_append_drop k (solids list)
  have hin {i : Nat} (hi : i < (solids list).length) : (solids list)[i] < place list k ↔ i < k := by
    rw [← place_of_lt hi, (place_strictMono list).lt_iff_lt]
  conv_lhs => rw [← hsplit]
  rw [List.filter_append, List.filter_eq_self.mpr, List.filter_eq_nil_iff.mpr, List.append_nil]
  · intro i hi
    obtain ⟨m, hm, rfl⟩ := List.getElem_of_mem hi
    rw [List.length_drop] at hm
    simp only [List.getElem_drop, decide_eq_true_eq, hin]
    omega
  · intro i hi
    obtain ⟨m, hm, rfl⟩ := List.getElem_of_mem hi
    rw [List.length_take] at hm
    simp only [List.getElem_take, decide_eq_true_eq, hin]
    omega

theorem rank_place (list : List Token) (k : Nat) : rank list (place list k) = k := by
  rw [rank, filter_lt_place, List.length_take]
  rcases Nat.lt_or_ge k (solids list).length with hk | hk
  · have := lt_of_mem_solids (List.getElem_mem hk)
    rw [place_of_lt hk]
    omega
  · rw [place_of_le hk]
    omega

theorem renumber_place (list list' : List Token) (k : Nat) :
    renumber list list' (place list k) = place list' k := by
  rw [renumber, rank_place]

theorem map_place_range (list : List Token) :
    (List.range (list.filter isSolid).length).map (place list) = solids list := by
  refine List.ext_getElem? fun k => ?_
  rw [← length_solids, List.getElem?_map]
  rcases Nat.lt_or_ge k (solids list).length with hk | hk
  · rw [List.getElem?_range hk, Option.map_some, place_of_lt hk, List.getElem?_eq_getElem hk]
  · rw [List.getElem?_eq_none hk, List.getElem?_eq_none (by simpa using hk), Option.map_none]

/-! ### The list of solid tokens -/

/-- Between the solid tokens stands nothing that the scan does not pass over. -/
theorem thins_solid (list : List Token) (end_ : Text) :
    Thins ((list.filter isSolid).map Token.plain) (list.map Token.plain) end_ (place list) := by
  refine ⟨⟨place_strictMono list, fun k => ?_, fun k t t' ht ht' => ?_⟩, fun m t hm hnot => ?_⟩
  · rw [List.getElem?_toArray, List.getElem?_toArray, List.getElem?_map, List.getElem?_map,
      getElem?_place]
  · rw [List.getElem?_toArray, List.getElem?_map] at ht ht'
    obtain ⟨u, -, rfl⟩ := Option.map_eq_some_iff.mp ht
    obtain ⟨u', -, rfl⟩ := Option.map_eq_some_iff.mp ht'
    rfl
  · rw [List.getElem?_map] at hm
    obtain ⟨u, hu, rfl⟩ := Option.map_eq_some_iff.mp hm
    have hsolid : isSolid u = false := by
      by_contra hsolid
      obtain ⟨k, hk, rfl⟩ := List.getElem_of_mem (mem_solids.mpr ⟨u, hu, by simpa using hsolid⟩)
      exact hnot k (place_of_lt hk)
    have hkind : u.kind = .whitespace ∨ u.kind = .comment := by
      simpa [isSolid, ← not_or, or_iff_not_imp_left] using hsolid
    have htrivia : u.plain.isTrivia := by
      rcases hkind with hkind | hkind <;> simp [Lexeme.isTrivia, TokenKind.isTrivia, Token.plain, hkind]
    refine ⟨htrivia, fun hnewline => ?_⟩
    rcases hkind with hkind | hkind <;> cases hkind.symm.trans hnewline

/-- The names bound depend on kinds and texts. -/
theorem bindingNames_plain (list : List Token) (end_ : Text) (s : Segment) :
    (Outline.ofTokens (list.map Token.plain) end_).bindingNames s =
      (Outline.ofTokens list end_).bindingNames s := by
  have hword (row : List Nat) (b : Binding) :
      namesFrom b (row.filterMap fun i =>
          ((Outline.ofTokens (list.map Token.plain) end_).token? i).map (i, ·)) =
        namesFrom b (row.filterMap fun i => ((Outline.ofTokens list end_).token? i).map (i, ·)) := by
    have hrow : ∀ i ∈ row, ((Outline.ofTokens (list.map Token.plain) end_).token? (id i)).map
          (fun t => (t.kind, t.text)) =
        ((Outline.ofTokens list end_).token? i).map fun t => (t.kind, t.text) := by
      intro i _
      change (list.map Token.plain).toArray[i]?.map _ = list.toArray[i]?.map _
      rw [List.getElem?_toArray, List.getElem?_toArray, List.getElem?_map, Option.map_map]
      rfl
    have hmap := namesFrom_map (forall₂_words hrow) b
    rwa [List.map_id, List.map_id] at hmap
  have hnesting (i : Nat) : (Outline.ofTokens (list.map Token.plain) end_).nestingAt i =
      (Outline.ofTokens list end_).nestingAt i := by
    rw [ofTokens_plain]
    rfl
  simp only [bindingNames, hword, hnesting]

/-- Whether outlines agree depends on kinds and texts. -/
theorem Agrees.of_plain {list list' : List Token} {end_ : Text} {f : Nat → Nat} {places : List Nat}
    (h : (Outline.ofTokens (list.map Token.plain) end_).Agrees
      (Outline.ofTokens (list'.map Token.plain) end_) f places) :
    (Outline.ofTokens list end_).Agrees (Outline.ofTokens list' end_) f places := by
  have hsame (list : List Token) := ofTokens_plain list end_
  have hsegments (list : List Token) := congrArg Outline.segments (hsame list)
  obtain ⟨hpartner, hnesting, hsegs, hheaders, hclosures, hnames⟩ := h
  simp only [bindingNames_plain] at hnames
  rw [hsame, hsame] at hpartner hnesting hsegs hheaders hclosures
  rw [hsame list] at hnames
  exact ⟨hpartner, hnesting, hsegs, hheaders, hclosures, hnames⟩

/-- Two lists with the same solid tokens have the same outline, whatever white space and comments stand
between those: the same pairs, nesting, segments, headers, closures and names bound, at the places of
the same tokens. Nothing else has a partner. -/
theorem ofTokens_spaces {list list' : List Token} (h : reading list = reading list') (end_ : Text) :
    (solids list).map (renumber list list') = solids list' ∧
      (Outline.ofTokens list end_).Agrees (Outline.ofTokens list' end_) (renumber list list')
        (solids list) ∧
      (∀ i j, (Outline.ofTokens list end_).partner? i = some j → i ∈ solids list) ∧
      ∀ i j, (Outline.ofTokens list' end_).partner? i = some j → i ∈ solids list' := by
  have hplain : (list.filter isSolid).map Token.plain = (list'.filter isSolid).map Token.plain := by
    have hback (list : List Token) : (reading list).map
        (fun word => ({ kind := word.1, text := word.2, start := 0, line := 0, column := 0 } : Token)) =
          (list.filter isSolid).map Token.plain := by
      rw [reading, List.map_map]
      rfl
    rw [← hback, h, hback]
  have hlength : (list.filter isSolid).length = (list'.filter isSolid).length := by
    simpa using congrArg List.length hplain
  have hpartner {list : List Token} {i j : Nat}
      (hij : (Outline.ofTokens list end_).partner? i = some j) : i ∈ solids list := by
    have hmark {c : Char} (hi : tokenIs list.toArray (·.isMark c) i) : i ∈ solids list := by
      obtain ⟨t, ht, hmark⟩ := tokenIs_iff.mp hi
      refine mem_solids.mpr ⟨t, List.getElem?_toArray.symm.trans ht, ?_⟩
      simp only [Lexeme.isMark, Lexeme.isPunct, Bool.and_eq_true, decide_eq_true_eq] at hmark
      simp [isSolid, hmark.1]
    rcases (ofTokens_sound list end_).partners i j hij with ⟨-, pair, -, hopener, -⟩ |
      ⟨-, pair, -, -, hcloser⟩
    · exact hmark hopener
    · exact hmark hcloser
  refine ⟨?_, ?_, fun i j => hpartner, fun i j => hpartner⟩
  · rw [← map_place_range, List.map_map, ← map_place_range, ← hlength]
    exact List.map_congr_left fun k _ => renumber_place list list' k
  · have h₁ := (thins_solid list end_).agrees
    have h₂ := (thins_solid list' end_).agrees
    rw [← hplain] at h₂
    have hcommon := h₁.of_plain.of_common h₂.of_plain (renumber_place list list')
    rwa [List.length_map, map_place_range] at hcommon

/-- A comment and more white space in front of a block. -/
theorem ofTokens_spaces_comment :
    let list := tokenize "if a{b}"
    let list' := tokenize "if  a/**/ { b}"
    reading list = reading list' ∧ solids list = [0, 2, 3, 4, 5] ∧
      solids list' = [0, 2, 5, 7, 8] ∧
      (Outline.ofTokens list ";").Agrees (Outline.ofTokens list' ";") (renumber list list')
        (solids list) := by
  intro list list'
  obtain ⟨hreading, hsolids, hsolids'⟩ : reading list = reading list' ∧
      solids list = [0, 2, 3, 4, 5] ∧ solids list' = [0, 2, 5, 7, 8] := by
    decide +kernel
  exact ⟨hreading, hsolids, hsolids', (ofTokens_spaces hreading ";").2.1⟩

end

end Outline

end HouseStyle
