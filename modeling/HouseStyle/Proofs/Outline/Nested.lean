import HouseStyle.Proofs.Outline.Steps

/-! Brackets during the scan. What is open stands on the stack, each bracket as deep as the number of
brackets below it, and a closing mark drops what is open inside its bracket. A pair therefore spans
deeper tokens only, and pairs never cross. -/

namespace HouseStyle.Outline

/-! ### Stacks -/

/-- A property of every frame of a stack and the frames below it. -/
def EachFrame (P : Frame → List Frame → Prop) : List Frame → Prop
  | [] => True
  | frame :: below => P frame below ∧ EachFrame P below

namespace EachFrame

variable {P Q : Frame → List Frame → Prop} {above stack : List Frame}

theorem of_append (h : EachFrame P (above ++ stack)) : EachFrame P stack := by
  induction above with
  | nil => exact h
  | cons frame above ih => exact ih h.2

theorem imp (h : EachFrame P stack)
    (hPQ : ∀ frame below, frame ∈ stack → below.length < stack.length → P frame below →
      Q frame below) : EachFrame Q stack := by
  induction stack with
  | nil => trivial
  | cons frame below ih =>
    refine ⟨hPQ frame below (by simp) (by simp) h.1, ih h.2 fun f b hf hb => ?_⟩
    exact hPQ f b (by simp [hf]) (by simp only [List.length_cons]; omega)

end EachFrame

/-! ### Levels -/

/-- How deep the token at an index stands. -/
def level (nesting : Array Nat) (k : Nat) : Nat := nesting.getD k 0

/-- A frame stands as deep as there are frames below it, and all behind it stands deeper. -/
def Holds (nesting : Array Nat) (i : Nat) (frame : Frame) (below : List Frame) : Prop :=
  level nesting frame.index = below.length ∧
    ∀ k, frame.index < k → k < i → below.length < level nesting k

/-- Two indices of one level with deeper ones between them. -/
def Spans (nesting : Array Nat) (a b : Nat) : Prop :=
  level nesting a = level nesting b ∧ ∀ k, a < k → k < b → level nesting a < level nesting k

section

variable {nesting nesting' : Array Nat} {i : Nat}

theorem Spans.congr (h : ∀ k < i, level nesting' k = level nesting k) {a b : Nat} (hb : b < i)
    (hab : a < b) (hspans : Spans nesting a b) : Spans nesting' a b := by
  refine ⟨?_, fun k hak hkb => ?_⟩
  · rw [h a (by omega), h b hb]
    exact hspans.1
  · rw [h a (by omega), h k (by omega)]
    exact hspans.2 k hak hkb

/-- Frames stay in order when the next token stands at least as deep as they reach. -/
theorem EachFrame.holds_succ {stack : List Frame} (hframes : EachFrame (Holds nesting i) stack)
    (hlt : ∀ frame ∈ stack, frame.index < i) (h : ∀ k < i, level nesting' k = level nesting k)
    (hi : stack.length ≤ level nesting' i) : EachFrame (Holds nesting' (i + 1)) stack := by
  refine hframes.imp fun frame below hframe hlength hholds => ⟨?_, fun k hk hki => ?_⟩
  · rw [h _ (hlt frame hframe)]
    exact hholds.1
  · rcases Nat.lt_succ_iff_lt_or_eq.mp hki with hki | rfl
    · rw [h k hki]
      exact hholds.2 k hk hki
    · omega

end

/-! ### The invariant -/

namespace Scan

variable (tokens : Array Token)

/-- Whether an opening mark stands at an index. -/
def OpensAt (k : Nat) : Prop := ∃ pair ∈ brackets, tokenIs tokens (·.isMark pair.1) k

/-- The state of the brackets before an index: what is open stands on the stack in order, and what is
paired spans deeper tokens. No opening mark is lost but inside a pair, and no brace at all. -/
structure Nested (s : Scan) (i : Nat) : Prop where
  room : s.partners.size = tokens.size
  size : s.nesting.size = i
  fresh : ∀ k, i ≤ k → partnerIn s.partners k = none
  waits : ∀ frame ∈ s.stack, frame.index < i ∧ partnerIn s.partners frame.index = none ∧
    tokenIs tokens (·.isMark frame.mark) frame.index ∧ ∃ c, frame.closer? = some c
  sorted : s.stack.Pairwise fun f g => g.index < f.index
  holds : EachFrame (Holds s.nesting i) s.stack
  symm : ∀ a b, partnerIn s.partners a = some b → partnerIn s.partners b = some a
  spans : ∀ a b, partnerIn s.partners a = some b → a < b → Spans s.nesting a b
  openers : ∀ k < i, OpensAt tokens k →
    (∃ frame ∈ s.stack, frame.index = k) ∨ ∃ a b, partnerIn s.partners a = some b ∧ a ≤ k ∧ k < b
  braces : ∀ k < i, tokenIs tokens (·.isMark '{') k →
    (∃ frame ∈ s.stack, frame.index = k) ∨ ∃ b, partnerIn s.partners k = some b

/-- Pairs and closures only grow, by the index at hand. -/
structure Grows (s : Scan) (i : Nat) (s' : Scan) : Prop where
  kept : ∀ a b, partnerIn s.partners a = some b → partnerIn s'.partners a = some b
  added : ∀ a b, partnerIn s'.partners a = some b → partnerIn s.partners a = some b ∨ a = i ∨ b = i
  closures : s'.closures = s.closures ∨ s'.closures = i :: s.closures

variable {tokens} {s s' : Scan} {i : Nat} {t : Token}

theorem Step.closures {end_ : Text} (h : Step tokens end_ s i t s') :
    s'.closures = s.closures ∨ s'.closures = i :: s.closures := by
  cases h with
  | openClosure => exact .inr rfl
  | pass | take | openGroup | closeGroup => exact .inl rfl
  | newline | terminator | label | openBlock | closeBlock | closeClosure => exact .inl (by simp [pair])

theorem partnerIn_pair_eq (s : Scan) {opening closing : Nat} (ho : opening < s.partners.size)
    (hc : closing < s.partners.size) (k : Nat) :
    partnerIn (s.pair opening closing).partners k =
      if k = closing then some opening else if k = opening then some closing
      else partnerIn s.partners k := by
  simp only [partnerIn, pair, Array.getElem?_setIfInBounds, Array.size_setIfInBounds]
  by_cases hk : k = closing
  · simp [hk, hc]
  · by_cases hk' : k = opening
    · subst hk'
      simp [hk, Ne.symm hk, ho]
    · simp [hk, hk', Ne.symm hk, Ne.symm hk']

theorem partnerIn_replicate (n k : Nat) : partnerIn (Array.replicate n none) k = none := by
  rw [partnerIn, Array.getElem?_replicate]
  split <;> rfl

namespace Nested

theorem lt (h : s.Nested tokens i) {a b : Nat} (hab : partnerIn s.partners a = some b) : a < i := by
  by_contra hge
  rw [h.fresh a (Nat.le_of_not_lt hge)] at hab
  cases hab

theorem level_push (h : s.Nested tokens i) (v : Nat) {k : Nat} (hk : k < i) :
    level (s.nesting.push v) k = level s.nesting k := by
  have := h.size
  simp only [level, Array.getD_eq_getD_getElem?]
  rw [Array.getElem?_push, if_neg (by omega)]

theorem level_push_self (h : s.Nested tokens i) (v : Nat) : level (s.nesting.push v) i = v := by
  have := h.size
  simp only [level, Array.getD_eq_getD_getElem?]
  rw [Array.getElem?_push, if_pos h.size.symm]
  rfl

theorem index_lt (h : s.Nested tokens i) : ∀ frame ∈ s.stack, frame.index < i :=
  fun frame hframe => (h.waits frame hframe).1

/-- The frame of a brace is the one that a brace opened. -/
theorem isBrace_of_mark (h : s.Nested tokens i) {frame : Frame} (hframe : frame ∈ s.stack)
    (hbrace : tokenIs tokens (·.isMark '{') frame.index) : frame.isBrace := by
  obtain ⟨-, -, hmark, c, hc⟩ := h.waits frame hframe
  obtain ⟨t, ht, hmark⟩ := tokenIs_iff.mp hmark
  rw [tokenIs_of_getElem? ht] at hbrace
  obtain ⟨hpair, hiff⟩ := closer?_eq_some hc
  rw [isMark_unique hmark hbrace] at hpair
  exact hiff.mpr (by simpa [brackets] using hpair)

theorem mark_of_isBrace (h : s.Nested tokens i) {frame : Frame} (hframe : frame ∈ s.stack)
    (hbrace : frame.isBrace) : tokenIs tokens (·.isMark '{') frame.index := by
  obtain ⟨-, -, hmark, c, hc⟩ := h.waits frame hframe
  obtain ⟨hpair, hiff⟩ := closer?_eq_some hc
  have hopener : ∀ pair ∈ brackets, pair.2 = '}' → pair.1 = '{' := by decide
  rwa [← hopener _ hpair (hiff.mp hbrace)]

/-- What is paired or open by now stays so. -/
theorem openers_mono (h : s.Nested tokens i)
    (hstack : ∀ frame ∈ s.stack, (∃ f ∈ s'.stack, f.index = frame.index) ∨
      ∃ a b, partnerIn s'.partners a = some b ∧ a ≤ frame.index ∧ frame.index < b)
    (hpartners : ∀ a b, partnerIn s.partners a = some b → partnerIn s'.partners a = some b)
    {k : Nat} (hk : k < i) (hopens : OpensAt tokens k) :
    (∃ frame ∈ s'.stack, frame.index = k) ∨
      ∃ a b, partnerIn s'.partners a = some b ∧ a ≤ k ∧ k < b := by
  rcases h.openers k hk hopens with ⟨frame, hframe, rfl⟩ | ⟨a, b, hab, hak, hkb⟩
  · exact hstack frame hframe
  · exact .inr ⟨a, b, hpartners a b hab, hak, hkb⟩

/-- A token that neither opens nor closes a bracket. -/
theorem keep (h : s.Nested tokens i) (ht : tokens[i]? = some t)
    (hopen : ∀ pair ∈ brackets, t.isMark pair.1 = false) (hstack : s'.stack = s.stack)
    (hpartners : s'.partners = s.partners) (hnesting : s'.nesting = s.nesting.push s.stack.length) :
    s'.Nested tokens (i + 1) := by
  have hnot : ∀ k, OpensAt tokens k → k ≠ i := by
    rintro k ⟨pair, hpair, hk⟩ rfl
    rw [tokenIs_of_getElem? ht, hopen pair hpair] at hk
    cases hk
  have hlevel : ∀ k < i, level s'.nesting k = level s.nesting k := by
    rw [hnesting]
    exact fun k => h.level_push _
  constructor
  case room =>
    rw [hpartners]
    exact h.room
  case size => rw [hnesting, Array.size_push, h.size]
  case fresh =>
    rw [hpartners]
    exact fun k hk => h.fresh k (by omega)
  case waits =>
    rw [hpartners, hstack]
    exact fun frame hframe => ⟨Nat.lt_succ_of_lt (h.index_lt frame hframe), (h.waits frame hframe).2⟩
  case sorted =>
    rw [hstack]
    exact h.sorted
  case holds =>
    rw [hstack]
    refine h.holds.holds_succ h.index_lt hlevel ?_
    rw [hnesting, h.level_push_self]
  case symm =>
    rw [hpartners]
    exact h.symm
  case spans =>
    rw [hpartners]
    exact fun a b hab hlt => (h.spans a b hab hlt).congr hlevel (h.lt (h.symm a b hab)) hlt
  case openers =>
    intro k hk hopens
    have := hnot k hopens
    rw [hstack, hpartners]
    exact h.openers k (by omega) hopens
  case braces =>
    intro k hk hbrace
    have := hnot k ⟨('{', '}'), by decide, hbrace⟩
    rw [hstack, hpartners]
    exact h.braces k (by omega) hbrace

/-- A token that opens a bracket. -/
theorem opened (h : s.Nested tokens i) (ht : tokens[i]? = some t) {frame : Frame}
    (hindex : frame.index = i) (hmark : t.isMark frame.mark) (hcloser : ∃ c, frame.closer? = some c)
    (hstack : s'.stack = frame :: s.stack) (hpartners : s'.partners = s.partners)
    (hnesting : s'.nesting = s.nesting.push s.stack.length) : s'.Nested tokens (i + 1) := by
  have hlevel : ∀ k < i, level s'.nesting k = level s.nesting k := by
    rw [hnesting]
    exact fun k => h.level_push _
  have hself : level s'.nesting i = s.stack.length := by
    rw [hnesting, h.level_push_self]
  constructor
  case room =>
    rw [hpartners]
    exact h.room
  case size => rw [hnesting, Array.size_push, h.size]
  case fresh =>
    rw [hpartners]
    exact fun k hk => h.fresh k (by omega)
  case waits =>
    rw [hpartners, hstack]
    intro f hf
    rcases List.mem_cons.mp hf with rfl | hf
    · refine ⟨by omega, h.fresh _ hindex.ge, ?_, hcloser⟩
      rwa [hindex, tokenIs_of_getElem? ht]
    · exact ⟨Nat.lt_succ_of_lt (h.index_lt f hf), (h.waits f hf).2⟩
  case sorted =>
    rw [hstack]
    refine List.pairwise_cons.mpr ⟨fun f hf => ?_, h.sorted⟩
    rw [hindex]
    exact h.index_lt f hf
  case holds =>
    rw [hstack]
    refine ⟨⟨by rw [hindex, hself], fun k hk hki => by omega⟩, ?_⟩
    exact h.holds.holds_succ h.index_lt hlevel hself.ge
  case symm =>
    rw [hpartners]
    exact h.symm
  case spans =>
    rw [hpartners]
    exact fun a b hab hlt => (h.spans a b hab hlt).congr hlevel (h.lt (h.symm a b hab)) hlt
  case openers =>
    intro k hk hopens
    rw [hstack, hpartners]
    rcases Nat.lt_succ_iff_lt_or_eq.mp hk with hk | rfl
    · rcases h.openers k hk hopens with ⟨f, hf, hfk⟩ | hpaired
      · exact .inl ⟨f, by simp [hf], hfk⟩
      · exact .inr hpaired
    · exact .inl ⟨frame, by simp, hindex⟩
  case braces =>
    intro k hk hbrace
    rw [hstack, hpartners]
    rcases Nat.lt_succ_iff_lt_or_eq.mp hk with hk | rfl
    · rcases h.braces k hk hbrace with ⟨f, hf, hfk⟩ | hpaired
      · exact .inl ⟨f, by simp [hf], hfk⟩
      · exact .inr hpaired
    · exact .inl ⟨frame, by simp, hindex⟩

/-- Closing an open bracket pairs it with the token at hand and leaves the rest. -/
theorem pair_eq (h : s.Nested tokens i) (hi : i < tokens.size) {frame : Frame}
    (hframe : frame ∈ s.stack) (k : Nat) : partnerIn (s.pair frame.index i).partners k =
      if k = i then some frame.index else if k = frame.index then some i
      else partnerIn s.partners k := by
  have hlt := h.index_lt frame hframe
  exact partnerIn_pair_eq s (by rw [h.room]; omega) (by rw [h.room]; exact hi) k

theorem pair_opener (h : s.Nested tokens i) (hi : i < tokens.size) {frame : Frame}
    (hframe : frame ∈ s.stack) : partnerIn (s.pair frame.index i).partners frame.index = some i := by
  rw [h.pair_eq hi hframe, if_neg (h.index_lt frame hframe).ne, if_pos rfl]

theorem pair_closer (h : s.Nested tokens i) (hi : i < tokens.size) {frame : Frame}
    (hframe : frame ∈ s.stack) : partnerIn (s.pair frame.index i).partners i = some frame.index := by
  rw [h.pair_eq hi hframe, if_pos rfl]

theorem pair_kept (h : s.Nested tokens i) (hi : i < tokens.size) {frame : Frame}
    (hframe : frame ∈ s.stack) {a b : Nat} (hab : partnerIn s.partners a = some b) :
    partnerIn (s.pair frame.index i).partners a = some b := by
  rw [h.pair_eq hi hframe, if_neg (h.lt hab).ne, if_neg, hab]
  rintro rfl
  rw [(h.waits frame hframe).2.1] at hab
  cases hab

/-- A closing mark stands as deep as the frames below its bracket. -/
theorem level_closed (h : s.Nested tokens i) (v n : Nat) :
    (∀ k < i, level ((s.nesting.push v).setIfInBounds i n) k = level s.nesting k) ∧
      level ((s.nesting.push v).setIfInBounds i n) i = n := by
  constructor
  · intro k hk
    rw [level, Array.getD_eq_getD_getElem?, Array.getElem?_setIfInBounds_ne hk.ne',
      ← Array.getD_eq_getD_getElem?]
    exact h.level_push v hk
  · rw [level, Array.getD_eq_getD_getElem?, Array.getElem?_setIfInBounds_self_of_lt]
    · rfl
    · rw [Array.size_push, h.size]
      exact Nat.lt_succ_self i

/-- A token that closes a bracket and drops what is open inside. -/
theorem closed (h : s.Nested tokens i) (ht : tokens[i]? = some t) {above below : List Frame}
    {frame : Frame} (hold : s.stack = above ++ frame :: below)
    (habove : ∀ f ∈ above, f.isBrace = false ∧ ¬f.ClosedBy t) (hclosed : frame.ClosedBy t)
    (hstack : s'.stack = below) (hpartners : s'.partners = (s.pair frame.index i).partners)
    (hnesting : s'.nesting = (s.nesting.push s.stack.length).setIfInBounds i below.length) :
    s'.Nested tokens (i + 1) := by
  have hframe : frame ∈ s.stack := by simp [hold]
  have hbelow : ∀ f ∈ below, f ∈ s.stack := fun f hf => by simp [hold, hf]
  have hsorted := h.sorted
  rw [hold, List.pairwise_append, List.pairwise_cons] at hsorted
  obtain ⟨-, ⟨hunder, hsorted⟩, hlater⟩ := hsorted
  have hholds := h.holds
  rw [hold] at hholds
  have hholds := hholds.of_append
  have hlt := h.index_lt frame hframe
  have hi : i < tokens.size := (Array.getElem?_eq_some_iff.mp ht).1
  have hpaired : partnerIn s'.partners frame.index = some i := by
    rw [hpartners]
    exact h.pair_opener hi hframe
  have hkept : ∀ a b, partnerIn s.partners a = some b → partnerIn s'.partners a = some b := by
    rw [hpartners]
    exact fun a b => h.pair_kept hi hframe
  have hnew : ∀ a b, partnerIn s'.partners a = some b → partnerIn s.partners a = some b ∨
      (a = frame.index ∧ b = i) ∨ (a = i ∧ b = frame.index) := by
    rw [hpartners]
    exact fun a b => partnerIn_pair s
  obtain ⟨hlevel, hself⟩ := h.level_closed s.stack.length below.length
  rw [← hnesting] at hlevel hself
  have hnot : ∀ k, OpensAt tokens k → k ≠ i := by
    obtain ⟨c, hc, hmark⟩ := hclosed
    rintro k ⟨opener, hopener, hk⟩ rfl
    rw [tokenIs_of_getElem? ht, not_opening (closer?_eq_some hc).1 hmark opener hopener] at hk
    cases hk
  constructor
  case room => rw [hpartners, Scan.pair, Array.size_setIfInBounds, Array.size_setIfInBounds, h.room]
  case size => rw [hnesting, Array.size_setIfInBounds, Array.size_push, h.size]
  case fresh =>
    intro k hk
    rw [hpartners, h.pair_eq hi hframe, if_neg (by omega), if_neg (by omega)]
    exact h.fresh k (by omega)
  case waits =>
    rw [hstack]
    intro f hf
    obtain ⟨hfi, hfree, hf'⟩ := h.waits f (hbelow f hf)
    refine ⟨Nat.lt_succ_of_lt hfi, ?_, hf'⟩
    rwa [hpartners, h.pair_eq hi hframe, if_neg hfi.ne, if_neg (hunder f hf).ne]
  case sorted =>
    rw [hstack]
    exact hsorted
  case holds =>
    rw [hstack]
    exact hholds.2.holds_succ (fun f hf => h.index_lt f (hbelow f hf)) hlevel hself.ge
  case symm =>
    intro a b hab
    rcases hnew a b hab with hab | ⟨rfl, rfl⟩ | ⟨rfl, rfl⟩
    · exact hkept b a (h.symm a b hab)
    · rw [hpartners]
      exact h.pair_closer hi hframe
    · exact hpaired
  case spans =>
    intro a b hab hlt'
    rcases hnew a b hab with hab | ⟨rfl, rfl⟩ | ⟨rfl, rfl⟩
    · exact (h.spans a b hab hlt').congr hlevel (h.lt (h.symm a b hab)) hlt'
    · refine ⟨?_, fun k hk hki => ?_⟩
      · rw [hself, hlevel _ hlt]
        exact hholds.1.1
      · rw [hlevel k hki, hlevel _ hlt, hholds.1.1]
        exact hholds.1.2 k hk hki
    · omega
  case openers =>
    intro k hk hopens
    have := hnot k hopens
    refine h.openers_mono (fun f hf => ?_) hkept (by omega) hopens
    rw [hold] at hf
    rcases List.mem_append.mp hf with hf | hf
    · refine .inr ⟨frame.index, i, hpaired, (hlater f hf frame (by simp)).le, ?_⟩
      exact h.index_lt f (by simp [hold, hf])
    · rcases List.mem_cons.mp hf with rfl | hf
      · exact .inr ⟨f.index, i, hpaired, Nat.le_refl _, hlt⟩
      · exact .inl ⟨f, by rwa [hstack], rfl⟩
  case braces =>
    intro k hk hbrace
    have := hnot k ⟨('{', '}'), by decide, hbrace⟩
    rcases h.braces k (by omega) hbrace with ⟨f, hf, rfl⟩ | ⟨b, hb⟩
    · rw [hold] at hf
      rcases List.mem_append.mp hf with hf | hf
      · have hf' : f.isBrace := h.isBrace_of_mark (by simp [hold, hf]) hbrace
        rw [(habove f hf).1] at hf'
        cases hf'
      · rcases List.mem_cons.mp hf with rfl | hf
        · exact .inr ⟨i, hpaired⟩
        · exact .inl ⟨f, by rwa [hstack], rfl⟩
    · exact .inr ⟨b, hkept k b hb⟩

/-- One step of the scan. -/
theorem step (h : s.Nested tokens i) (ht : tokens[i]? = some t) {end_ : Text}
    (following : Nat → Option Nat) :
    (s.step tokens end_ following i t).Nested tokens (i + 1) := by
  cases @step_turn tokens end_ i t s following with
  | keep hopen hclose hstack hpartners hnesting =>
    exact h.keep ht hopen hstack hpartners hnesting
  | opened frame hindex hmark hcloser hstack hpartners hnesting =>
    exact h.opened ht hindex hmark hcloser hstack hpartners hnesting
  | closed above frame below hold habove hclosed hstack hpartners hnesting =>
    exact h.closed ht hold habove hclosed hstack hpartners hnesting

theorem start : Nested tokens { partners := Array.replicate tokens.size none } 0 where
  room := by simp
  size := rfl
  fresh := fun k _ => partnerIn_replicate tokens.size k
  waits := by simp
  sorted := List.Pairwise.nil
  holds := trivial
  symm := fun a b hab => by simp [partnerIn_replicate] at hab
  spans := fun a b hab => by simp [partnerIn_replicate] at hab
  openers := fun k hk => by omega
  braces := fun k hk => by omega

/-- What a step adds to the pairs and to the closures. -/
theorem grows (h : s.Nested tokens i) (ht : tokens[i]? = some t) {end_ : Text} {nesting : Array Nat}
    (hstep : Step tokens end_ { s with nesting } i t s') : s.Grows i s' := by
  refine ⟨fun a b hab => ?_, fun a b hab => ?_, hstep.closures⟩
  · cases hstep.turn with
    | keep hopen hclose hstack hpartners => rwa [hpartners]
    | opened frame hindex hmark hcloser hstack hpartners => rwa [hpartners]
    | closed above frame below hold habove hclosed hstack hpartners =>
      have hframe : frame ∈ s.stack := by
        rw [show s.stack = above ++ frame :: below from hold]
        simp
      rw [hpartners]
      exact h.pair_kept (Array.getElem?_eq_some_iff.mp ht).1 hframe hab
  · cases hstep.turn with
    | keep hopen hclose hstack hpartners =>
      rw [hpartners] at hab
      exact .inl hab
    | opened frame hindex hmark hcloser hstack hpartners =>
      rw [hpartners] at hab
      exact .inl hab
    | closed above frame below hold habove hclosed hstack hpartners =>
      rw [hpartners] at hab
      rcases partnerIn_pair _ hab with hab | ⟨-, rfl⟩ | ⟨rfl, -⟩
      · exact .inl hab
      · exact .inr (.inr rfl)
      · exact .inr (.inl rfl)

theorem run_partner (h : s.Nested tokens i) {end_ : Text} {following : Nat → Option Nat}
    {list : List Token} (hlist : Stands tokens i list) {a b : Nat}
    (hab : partnerIn s.partners a = some b) :
    partnerIn (run_ tokens end_ following s i list).partners a = some b := by
  refine (run_induction (P := fun s i => s.Nested tokens i ∧ partnerIn s.partners a = some b)
    (fun s i t h ht => ⟨h.1.step ht following, ?_⟩) ⟨h, hab⟩ hlist).2
  exact (h.1.grows ht (step_spec s following)).kept a b h.2

end Nested

/-- A pair has all pairs that begin or end inside it inside. -/
theorem Nested.between (h : s.Nested tokens i) {a b k m : Nat} (hab : partnerIn s.partners a = some b)
    (hkm : partnerIn s.partners k = some m) (hak : a < k) (hkb : k < b) : a < m ∧ m < b := by
  have hspans := h.spans a b hab (hak.trans hkb)
  have hmk := h.symm k m hkm
  have hdeep := hspans.2 k hak hkb
  constructor
  · by_contra hle
    rcases (Nat.le_of_not_lt hle).lt_or_eq with hlt | rfl
    · -- The pair of `m` and `k` would span `a`, which stands higher than `k`.
      have hspans' := h.spans m k hmk (hlt.trans hak)
      have := hspans'.2 a hlt hak
      have := hspans'.1
      omega
    · rw [hab] at hmk
      cases hmk
      exact hkb.false
  · by_contra hle
    rcases (Nat.le_of_not_lt hle).lt_or_eq with hlt | rfl
    · -- The pair of `k` and `m` would span `b`, which stands as high as `a`.
      have := (h.spans k m hkm (hkb.trans hlt)).2 b hkb hlt
      have := hspans.1
      omega
    · rw [h.symm a b hab] at hmk
      cases hmk
      exact hak.false

theorem scanned_nested (list : List Token) (end_ : Text) :
    (scanned list end_).Nested list.toArray list.length :=
  scanned_induction list end_ .start fun _ _ _ following h ht => h.step ht following

end Scan

end HouseStyle.Outline
