import HouseStyle.Proofs.Outline.Ended

/-! Brackets that are open further out. Inside a closure a scan reads of them only which braces they
are. So two scans whose open brackets differ there go on alike, from the brace of a closure to its
partner. -/

namespace HouseStyle.Outline

variable {tokens tokens' : Array Token} {f : Nat → Nat} {end_ : Text} {following : Nat → Option Nat}
  {s s' : Scan} {i : Nat} {t : Token} {stack below : List Frame}

namespace Scan

/-! ### Other brackets on the stack -/

theorem freshRun_eq (stack : List Frame) :
    freshRun stack = { container := (openBraces stack).head?, depth := (openBraces stack).length } := by
  simp [freshRun, openBraces]

theorem freshRun_cons {frame : Frame} (h : openBraces stack = openBraces below) :
    freshRun (frame :: stack) = freshRun (frame :: below) := by
  have hcons : openBraces (frame :: stack) = openBraces (frame :: below) := by
    unfold openBraces at h ⊢
    simp only [List.filter_cons]
    split_ifs
    · rw [List.map_cons, List.map_cons, h]
    · exact h
  rw [freshRun_eq, freshRun_eq, hcons]

/-- The state with other open brackets, and without how deep its tokens stand. -/
def on (s : Scan) (stack : List Frame) : Scan := { s with stack, nesting := #[] }

theorem stack_congr {r r' : Scan} (h : r.bare = r'.bare) : r.stack = r'.stack := by
  change r.bare.stack = r'.bare.stack
  rw [h]

theorem on_congr {r r' : Scan} (h : r.bare = r'.bare) (stack : List Frame) :
    r.on stack = r'.on stack := by
  change r.bare.on stack = r'.bare.on stack
  rw [h]

theorem close_on (s : Scan) (ending : Ending) (stack : List Frame) :
    (Scan.close tokens (s.on stack) ending) = (s.close tokens ending).on stack := by
  unfold Scan.close on
  split <;> rfl

theorem newline_on (s : Scan) (next : Option Nat) (i : Nat) (stack : List Frame) :
    (s.on stack).newline tokens next i = (s.newline tokens next i).on stack := by
  have hlooked : continues tokens (s.on stack) next = continues tokens s next := rfl
  have hclosed (run : Run) := @close_on tokens { s with run } { boundary := some i } stack
  simp only [on] at hlooked hclosed
  simp only [newline, on, hlooked]
  split_ifs
  · rfl
  · exact hclosed _
  · rfl

theorem terminator_on (s : Scan) (i : Nat) (stack : List Frame) :
    (s.on stack).terminator tokens i = (s.terminator tokens i).on stack := by
  unfold terminator on
  simp only
  split
  · rfl
  · exact @close_on tokens { s with run := (classify tokens s.partners s.run).1 }
      { boundary := some i, terminated := true } stack

theorem significant_on (ht : isBracket t = false) (s : Scan) (i : Nat) (stack : List Frame) :
    (s.on stack).significant tokens end_ t i = (s.significant tokens end_ t i).on stack := by
  have hnot : ∀ pair ∈ brackets, t.isMark pair.1 = false ∧ t.isMark pair.2 = false := by
    simpa [isBracket] using ht
  simp only [brackets, List.forall_mem_cons, List.not_mem_nil, IsEmpty.forall_iff, implies_true,
    and_true] at hnot
  have hgroup : (s.on stack).groupDepth = s.groupDepth := rfl
  have hrun : (s.on stack).run = s.run := rfl
  simp only [significant, hnot, Bool.false_eq_true, if_false, hgroup, hrun]
  split_ifs
  · exact terminator_on s i stack
  · exact @close_on tokens { s with run := s.run.push i } { boundary := some i, label := true } stack
  · rfl

/-- A token that is no bracket does not look at the stack. -/
theorem step_on (ht : isBracket t = false) (s : Scan) (stack : List Frame) :
    ((s.on stack).step tokens end_ following i t).on stack =
      (s.step tokens end_ following i t).on stack := by
  unfold step
  simp only
  split_ifs
  · rw [← newline_on, ← newline_on]
    rfl
  · rfl
  · rw [← significant_on ht, ← significant_on ht]
    rfl

/-- A bracket is no line break. -/
theorem step_mark {c : Char} (ht : t.isMark c) (s : Scan) :
    s.step tokens end_ following i t =
      Scan.significant tokens end_ t i { s with nesting := s.nesting.push s.stack.length } := by
  have hkind : t.kind ≠ .newline := by
    intro hkind
    simp [Lexeme.isMark, Lexeme.isPunct, hkind] at ht
  simp [step, hkind, not_isTrivia ht]

theorem bare_step_openGroup {b : Char} (hb : b = '(' ∨ b = '[') (ht : t.isMark b) (s : Scan) :
    (s.step tokens end_ following i t).bare = (s.openGroup b i).bare := by
  rw [step_mark ht]
  rcases hb with rfl | rfl
  · simp only [significant, ht, if_true]
    rfl
  · have hround : t.isMark '(' = false := not_isMark ht (by decide)
    simp only [significant, ht, hround, Bool.false_eq_true, if_true, if_false]
    rfl

theorem bare_step_openBrace (ht : t.isMark '{') (s : Scan) :
    (s.step tokens end_ following i t).bare = (s.openBrace tokens i).bare := by
  have hmark (c : Char) (hc : '{' ≠ c) : t.isMark c = false := not_isMark ht hc
  rw [step_mark ht]
  simp only [significant, hmark _ (by decide : '{' ≠ '('), hmark _ (by decide : '{' ≠ '['),
    hmark _ (by decide : '{' ≠ ')'), hmark _ (by decide : '{' ≠ ']'), ht, Bool.false_eq_true,
    if_true, if_false]
  unfold openBrace
  generalize (if s.groupDepth = 0 ∧ !s.run.isEmpty then classify tokens s.partners s.run
    else (s.run, noHead)) = found
  simp only
  split <;> rfl

/-- A brace that opens looks at the stack for the braces that are open. -/
theorem openBrace_on (hbraces : openBraces stack = openBraces s.stack) (i : Nat) :
    ∃ frame, (s.openBrace tokens i).stack = frame :: s.stack ∧
      (s.on stack).openBrace tokens i = (s.openBrace tokens i).on (frame :: stack) := by
  unfold openBrace on
  generalize (if s.groupDepth = 0 ∧ !s.run.isEmpty then classify tokens s.partners s.run
    else (s.run, noHead)) = found
  simp only
  split
  · refine ⟨_, rfl, ?_⟩
    rw [freshRun_cons hbraces]
  · refine ⟨_, rfl, ?_⟩
    rw [freshRun_cons hbraces]

/-- A group that closes with the innermost bracket. -/
theorem bare_step_closeGroup {b c : Char} {k : Nat} (hstack : s.stack = .group b k :: below)
    (hframe : (Frame.group b k).closer? = some c) (ht : t.isMark c) :
    (s.step tokens end_ following i t).bare =
      bare { s.pair k i with
        stack := below, groupDepth := s.groupDepth - 1, run := s.run.push i } := by
  obtain ⟨hb, hc⟩ | ⟨hb, hc⟩ : (b = '(' ∧ c = ')') ∨ (b = '[' ∧ c = ']') := by
    simp only [Frame.closer?] at hframe
    split_ifs at hframe with hround hsquare
    · exact .inl ⟨hround, (Option.some.inj hframe).symm⟩
    · exact .inr ⟨hsquare, (Option.some.inj hframe).symm⟩
  all_goals
    subst hb hc
    rw [step_mark ht]
    have hmark (d : Char) (hd : _ ≠ d) : t.isMark d = false := not_isMark ht hd
    simp [significant, hmark, ht, closeGroup, hstack, groupOpener?, bare, pair]

theorem bare_step_closeBlock {k : Nat} (hstack : s.stack = .block k :: below) (ht : t.isMark '}') :
    (s.step tokens end_ following i t).bare =
      bare { (s.close tokens { boundary := some i }).pair k i with
        stack := below, run := freshRun below, groupDepth := 0 } := by
  have hfound : braceOpener? s.stack = some (.block k, below) := by
    rw [hstack]
    rfl
  rw [step_closeBrace ht, closeBrace, hfound]
  simp only [close_with_nesting]
  rfl

theorem bare_step_closeClosure {k depth : Nat} {resume : Run}
    (hstack : s.stack = .closure k resume depth :: below) (ht : t.isMark '}') :
    (s.step tokens end_ following i t).bare =
      bare { (s.close tokens { boundary := some i }).pair k i with
        stack := below, run := resume.push i, groupDepth := depth } := by
  have hfound : braceOpener? s.stack = some (.closure k resume depth, below) := by
    rw [hstack]
    rfl
  rw [step_closeBrace ht, closeBrace, hfound]
  simp only [close_with_nesting]
  rfl

/-! ### Inside a closure -/

/-- States that mirror each other but for the open brackets, of which the braces are the same. -/
structure Inside (tokens tokens' : Array Token) (f : Nat → Nat) (base base' : List Segment)
    (s s' : Scan) : Prop where
  braces : openBraces s'.stack = (openBraces s.stack).map f
  mirrors : s.Mirrors tokens tokens' f base base' (s'.on (s.stack.map (Frame.rename f)))

theorem openBraces_map (f : Nat → Nat) (stack : List Frame) :
    openBraces (stack.map (Frame.rename f)) = (openBraces stack).map f := by
  unfold openBraces
  rw [List.filter_map, List.map_map, List.map_map]
  congr 1
  · funext frame
    exact rename_index frame
  · exact List.filter_congr fun frame _ => rename_isBrace frame

section

variable {base base' : List Segment}

theorem Mirrors.on_of_eq {r r' : Scan} (hs : s.Mirrors tokens tokens' f base base' r)
    (heq : r.on (s.stack.map (Frame.rename f)) = r'.on (s.stack.map (Frame.rename f))) :
    s.Mirrors tokens tokens' f base base' (r'.on (s.stack.map (Frame.rename f))) := by
  rw [← heq, ← hs.stack]
  exact hs.congr rfl rfl

theorem openBraces_cons {stack' : List Frame} (h : openBraces stack' = (openBraces stack).map f)
    (frame : Frame) :
    openBraces (frame.rename f :: stack') = (openBraces (frame :: stack)).map f := by
  unfold openBraces at h ⊢
  simp only [List.filter_cons, rename_isBrace]
  split_ifs
  · rw [List.map_cons, List.map_cons, List.map_cons, h, rename_index]
  · exact h

end

namespace Inside

variable {base base' : List Segment} {t' : Token} {following' : Nat → Option Nat} {frame : Frame}
  {below' : List Frame} {c : Char}

theorem congr {r r' : Scan} (hs : s.Inside tokens tokens' f base base' s') (hr : r.bare = s.bare)
    (hr' : r'.bare = s'.bare) : r.Inside tokens tokens' f base base' r' := by
  have hstack := stack_congr hr
  have hstack' := stack_congr hr'
  constructor
  · rw [hstack, hstack', hs.braces]
  · rw [hstack]
    refine hs.mirrors.congr hr ?_
    rw [on_congr hr']

section

variable (h : Renaming tokens tokens' f) (hs : s.Inside tokens tokens' f base base' s')
  (ht : tokens[i]? = some t) (hlexeme : t'.toLexeme = t.toLexeme)
  (hstack : ∀ frame ∈ s.stack, frame.index < tokens.size)
include h hs ht hlexeme hstack

theorem step_other (hother : isBracket t = false)
    (hfollowing : t.kind = .newline → following' (f i) = (following i).map f) :
    (s.step tokens end_ following i t).Inside tokens tokens' f base base'
        (s'.step tokens' end_ following' (f i) t') ∧
      (s.step tokens end_ following i t).stack = s.stack ∧
      (s'.step tokens' end_ following' (f i) t').stack = s'.stack := by
  have hother' : isBracket t' = false := by
    rw [← hother, isBracket, isBracket, hlexeme]
  have hkept := @Dyck.step_other tokens end_ following s t hother i
  have hkept' := @Dyck.step_other tokens' end_ following' s' t' hother' (f i)
  have hmirrors := @Mirrors.step _ _ _ _ _ _ _ _ h hs.mirrors _ _ ht hlexeme hstack end_ _ _ hfollowing
  refine ⟨⟨?_, hmirrors.on_of_eq ?_⟩, hkept, hkept'⟩
  · rw [hkept, hkept', hs.braces]
  · rw [hkept]
    exact step_on hother' s' _

theorem step_opener {pair : Char × Char} (hpair : pair ∈ brackets) (hmark : t.isMark pair.1) :
    ∃ frame, (s.step tokens end_ following i t).Inside tokens tokens' f base base'
        (s'.step tokens' end_ following' (f i) t') ∧
      (s.step tokens end_ following i t).stack = frame :: s.stack ∧
      (s'.step tokens' end_ following' (f i) t').stack = frame.rename f :: s'.stack ∧
      frame.closer? = some pair.2 := by
  have hkind : t.kind ≠ .newline := by
    intro hkind
    simp [Lexeme.isMark, Lexeme.isPunct, hkind] at hmark
  have hmark' : t'.isMark pair.1 := by rwa [hlexeme]
  have hmirrors := @Mirrors.step _ _ _ _ _ _ _ _ h hs.mirrors _ _ ht hlexeme hstack end_ following
    following' fun hnewline => absurd hnewline hkind
  obtain ⟨frame, hframe, -, hcloser⟩ :=
    @Dyck.step_opener tokens end_ following s t pair hpair hmark i
  have hopened := hmirrors.stack
  rw [hframe, List.map_cons] at hopened
  have hbraces : openBraces (s.stack.map (Frame.rename f)) = openBraces s'.stack := by
    rw [openBraces_map, hs.braces]
  obtain ⟨hkept', hsame⟩ :
      (s'.step tokens' end_ following' (f i) t').stack = frame.rename f :: s'.stack ∧
        ((s'.on (s.stack.map (Frame.rename f))).step tokens' end_ following' (f i) t').on
            (frame.rename f :: s.stack.map (Frame.rename f)) =
          (s'.step tokens' end_ following' (f i) t').on
            (frame.rename f :: s.stack.map (Frame.rename f)) := by
    by_cases hbrace : pair.1 = '{'
    · rw [hbrace] at hmark'
      obtain ⟨top, htop, hon⟩ := @openBrace_on tokens' s' _ hbraces (f i)
      have hleft := @bare_step_openBrace tokens' end_ following' (f i) t' hmark'
        (s'.on (s.stack.map (Frame.rename f)))
      have hright := @bare_step_openBrace tokens' end_ following' (f i) t' hmark' s'
      rw [hon] at hleft
      obtain rfl : top = frame.rename f :=
        (List.cons.inj ((congrArg Scan.stack hleft).symm.trans hopened)).1
      exact ⟨(congrArg Scan.stack hright).trans htop, (on_congr hleft _).trans (on_congr hright _).symm⟩
    · have hb : pair.1 = '(' ∨ pair.1 = '[' := by
        simp only [brackets, List.mem_cons, List.not_mem_nil, or_false] at hpair
        rcases hpair with rfl | rfl | rfl <;> simp_all
      have hleft := @bare_step_openGroup tokens' end_ following' (f i) t' _ hb hmark'
        (s'.on (s.stack.map (Frame.rename f)))
      have hright := @bare_step_openGroup tokens' end_ following' (f i) t' _ hb hmark' s'
      have htop : frame.rename f = .group pair.1 (f i) :=
        (List.cons.inj (hopened.symm.trans (congrArg Scan.stack hleft))).1
      rw [htop]
      exact ⟨congrArg Scan.stack hright, (on_congr hleft _).trans (on_congr hright _).symm⟩
  refine ⟨frame, ⟨?_, hmirrors.on_of_eq ?_⟩, hframe, hkept', hcloser⟩
  · rw [hframe, hkept']
    exact openBraces_cons hs.braces frame
  · rw [hframe]
    exact hsame

theorem step_closer (hframe : frame.closer? = some c) (hmark : t.isMark c)
    (hopen : s.stack = frame :: below) (hopen' : s'.stack = frame.rename f :: below')
    (hbraces : openBraces below' = (openBraces below).map f) :
    (s.step tokens end_ following i t).Inside tokens tokens' f base base'
        (s'.step tokens' end_ following' (f i) t') ∧
      (s.step tokens end_ following i t).stack = below ∧
      (s'.step tokens' end_ following' (f i) t').stack = below' := by
  have hkind : t.kind ≠ .newline := by
    intro hkind
    simp [Lexeme.isMark, Lexeme.isPunct, hkind] at hmark
  have hmark' : t'.isMark c := by rwa [hlexeme]
  have hframe' : (frame.rename f).closer? = some c := by
    cases frame <;> exact hframe
  have hkept := (@Dyck.step_closer tokens end_ following s t frame below c hopen hframe hmark i).1
  have hkept' := (@Dyck.step_closer tokens' end_ following' s' t' _ below' c hopen' hframe' hmark'
    (f i)).1
  have hmirrors := @Mirrors.step _ _ _ _ _ _ _ _ h hs.mirrors _ _ ht hlexeme hstack end_ following
    following' fun hnewline => absurd hnewline hkind
  refine ⟨⟨?_, hmirrors.on_of_eq ?_⟩, hkept, hkept'⟩
  · rw [hkept, hkept', hbraces]
  · have hon : (s'.on (s.stack.map (Frame.rename f))).stack =
        frame.rename f :: below.map (Frame.rename f) := by
      simp [on, hopen]
    have hclose := @close_on tokens' s' { boundary := some (f i) } (s.stack.map (Frame.rename f))
    cases frame with
    | group b k =>
      rw [on_congr (bare_step_closeGroup hon hframe' hmark'),
        on_congr (bare_step_closeGroup hopen' hframe' hmark')]
      rfl
    | block k =>
      obtain rfl : c = '}' := (Option.some.inj hframe).symm
      have hfresh : freshRun (below.map (Frame.rename f)) = freshRun below' := by
        rw [freshRun_eq, freshRun_eq, openBraces_map, hbraces]
      rw [on_congr (bare_step_closeBlock hon hmark'), on_congr (bare_step_closeBlock hopen' hmark'),
        hclose, hfresh]
      rfl
    | closure k resume depth =>
      obtain rfl : c = '}' := (Option.some.inj hframe).symm
      rw [on_congr (bare_step_closeClosure hon hmark'),
        on_congr (bare_step_closeClosure hopen' hmark'), hclose]
      rfl

end

end Inside

/-! ### Whole words -/

/-- A stretch of a list that stands one place further on in another one. -/
structure Moved (list list' : List Token) (f : Nat → Nat) (i j : Nat) : Prop where
  place : ∀ k, i ≤ k → k < j → f k = k + 1
  following : ∀ k t, i ≤ k → k < j → list[k]? = some t → t.kind = .newline →
    nextAfter list' (k + 1) = (nextAfter list k).map f

section

variable {list list' : List Token} {base base' : List Segment} {j k : Nat}

theorem Moved.mono (h : Moved list list' f i j) {i' j' : Nat} (hi : i ≤ i') (hj : j' ≤ j) :
    Moved list list' f i' j' :=
  ⟨fun k hik hkj => h.place k (hi.trans hik) (hkj.trans_le hj),
    fun k t hik hkj => h.following k t (hi.trans hik) (hkj.trans_le hj)⟩

section

variable (h : Renaming list.toArray list'.toArray f) (hmoved : Moved list list' f i j) (hik : i ≤ k)
  (hkj : k < j) (ht : list[k]? = some t)
include h hmoved hik hkj ht

theorem Moved.exists_token : ∃ t', list'[k + 1]? = some t' ∧ t'.toLexeme = t.toLexeme := by
  rw [← hmoved.place k hik hkj]
  exact h.exists_token ht

omit h in
theorem Moved.nextAfter_eq (hnewline : t.kind = .newline) :
    nextAfter list' (f k) = (nextAfter list k).map f := by
  rw [hmoved.place k hik hkj]
  exact hmoved.following k t hik hkj ht hnewline

omit h hmoved hik hkj in
theorem index_lt_size : ∀ frame ∈ (before list end_ k).stack, frame.index < list.toArray.size := by
  have hk := (List.getElem?_eq_some_iff.mp ht).1
  intro frame hframe
  have := (@before_invariant list end_ k hk.le).nested.index_lt frame hframe
  rw [List.size_toArray]
  omega

variable (hs : (before list end_ k).Inside list.toArray list'.toArray f base base'
  (before list' end_ (k + 1)))
include hs

theorem Inside.before_other (hother : isBracket t = false) :
    (before list end_ (k + 1)).Inside list.toArray list'.toArray f base base'
        (before list' end_ (k + 1 + 1)) ∧
      (before list end_ (k + 1)).stack = (before list end_ k).stack ∧
      (before list' end_ (k + 1 + 1)).stack = (before list' end_ (k + 1)).stack := by
  obtain ⟨t', ht', hlexeme⟩ := hmoved.exists_token h hik hkj ht
  rw [before_succ ht, before_succ ht', ← hmoved.place k hik hkj]
  rw [← hmoved.place k hik hkj] at hs
  exact hs.step_other h (List.getElem?_toArray.trans ht) hlexeme (index_lt_size ht) hother
    (hmoved.nextAfter_eq hik hkj ht)

theorem Inside.before_opener {pair : Char × Char} (hpair : pair ∈ brackets)
    (hmark : t.isMark pair.1) :
    ∃ frame, (before list end_ (k + 1)).Inside list.toArray list'.toArray f base base'
        (before list' end_ (k + 1 + 1)) ∧
      (before list end_ (k + 1)).stack = frame :: (before list end_ k).stack ∧
      (before list' end_ (k + 1 + 1)).stack = frame.rename f :: (before list' end_ (k + 1)).stack ∧
      frame.closer? = some pair.2 := by
  obtain ⟨t', ht', hlexeme⟩ := hmoved.exists_token h hik hkj ht
  rw [before_succ ht, before_succ ht', ← hmoved.place k hik hkj]
  rw [← hmoved.place k hik hkj] at hs
  exact hs.step_opener h (List.getElem?_toArray.trans ht) hlexeme (index_lt_size ht) hpair hmark

theorem Inside.before_closer {frame : Frame} {below' : List Frame} {c : Char}
    (hframe : frame.closer? = some c) (hmark : t.isMark c)
    (hopen : (before list end_ k).stack = frame :: below)
    (hopen' : (before list' end_ (k + 1)).stack = frame.rename f :: below')
    (hbraces : openBraces below' = (openBraces below).map f) :
    (before list end_ (k + 1)).Inside list.toArray list'.toArray f base base'
        (before list' end_ (k + 1 + 1)) ∧
      (before list end_ (k + 1)).stack = below ∧
      (before list' end_ (k + 1 + 1)).stack = below' := by
  obtain ⟨t', ht', hlexeme⟩ := hmoved.exists_token h hik hkj ht
  rw [before_succ ht, before_succ ht', ← hmoved.place k hik hkj]
  rw [← hmoved.place k hik hkj] at hs hopen'
  exact hs.step_closer h (List.getElem?_toArray.trans ht) hlexeme (index_lt_size ht) hframe hmark
    hopen hopen' hbraces

end

/-- Both scans go on alike to the end of a Dyck word. -/
theorem Inside.run (h : Renaming list.toArray list'.toArray f) {word : List Token}
    {pairs : List (Nat × Nat)} (hdyck : Dyck i word pairs)
    (hword : Stands list.toArray i word) (hmoved : Moved list list' f i (i + word.length))
    (hs : (before list end_ i).Inside list.toArray list'.toArray f base base'
      (before list' end_ (i + 1))) :
    (before list end_ (i + word.length)).Inside list.toArray list'.toArray f base base'
        (before list' end_ (i + word.length + 1)) ∧
      (before list end_ (i + word.length)).stack = (before list end_ i).stack ∧
      (before list' end_ (i + word.length + 1)).stack = (before list' end_ (i + 1)).stack := by
  induction hdyck with
  | nil i => exact ⟨hs, rfl, rfl⟩
  | @other i t rest pairs hother hrest ih =>
    have ht := List.getElem?_toArray.symm.trans hword.head
    rw [List.length_cons, Nat.add_comm rest.length 1, ← Nat.add_assoc] at hmoved ⊢
    obtain ⟨hs₁, hkept, hkept'⟩ := hs.before_other h hmoved (Nat.le_refl i) (by omega) ht hother
    obtain ⟨hs₂, hstack, hstack'⟩ := ih hword.tail (hmoved.mono (by omega) (Nat.le_refl _)) hs₁
    exact ⟨hs₂, hstack.trans hkept, hstack'.trans hkept'⟩
  | @group i opener closer inner rest inside behind pair hpair hopener hinner hcloser hrest ihin
      ihrest =>
    have hopening := List.getElem?_toArray.symm.trans hword.head
    have hclosing := List.getElem?_toArray.symm.trans hword.tail.append_right.head
    have hlength : i + (opener :: (inner ++ closer :: rest)).length =
        i + 1 + inner.length + 1 + rest.length := by
      simp only [List.length_cons, List.length_append]
      omega
    rw [hlength] at hmoved ⊢
    obtain ⟨frame, hs₁, hopen, hopen', hframe⟩ :=
      hs.before_opener h hmoved (Nat.le_refl i) (by omega) hopening hpair hopener
    obtain ⟨hs₂, hkept, hkept'⟩ := ihin hword.tail.append_left
      (hmoved.mono (by omega) (by omega)) hs₁
    obtain ⟨hs₃, hclosed, hclosed'⟩ := hs₂.before_closer h hmoved (by omega) (by omega) hclosing
      hframe hcloser (hkept.trans hopen) (hkept'.trans hopen') hs.braces
    obtain ⟨hs₄, hstack, hstack'⟩ := ihrest hword.tail.append_right.tail
      (hmoved.mono (by omega) (Nat.le_refl _)) hs₃
    exact ⟨hs₄, hstack.trans hclosed, hstack'.trans hclosed'⟩

end

end Scan
end HouseStyle.Outline
