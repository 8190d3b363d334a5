import HouseStyle.Proofs.Token.Seam

/-! Nested literals. A grammar tells what a string is made of: its body goes on to the closing quote,
an interpolation to the closing parenthesis, and either may hold the other. The scan with its stack
of open strings finds the end of a string wherever the grammar has one, and nowhere else: what is
left to do for the stack is a list of parts, and each step of the scan is one rule for the first of
them. A block comment ends at the first of its markers that brings the depth back to zero. -/

namespace HouseStyle.Literal

/-! ### The grammar of strings -/

/-- The quotes that open and close a string. -/
def Quote.text : Quote → Text
  | .single => [.char '"']
  | .triple => [.char '"', .char '"', .char '"']

/-- What a string is made of: the string itself, the body that stands behind an opening quote of some
kind, and the group that stands behind an open parenthesis of an interpolation. -/
inductive Part where
  | string
  | body (quote : Quote)
  | group

/-- A part at the start of a text, and the text that is left behind it. The first rule that applies is
the only one: three quotes are one quote wherever they can be. -/
inductive Reads : Part → Text → Text → Prop
  | triple {t r : Text} (h : Reads (.body .triple) t r) : Reads .string (Quote.triple.text ++ t) r
  | single {t r : Text} (hquote : ¬Quote.triple.text <+: .char '"' :: t)
    (h : Reads (.body .single) t r) : Reads .string (.char '"' :: t) r
  | close (quote : Quote) (r : Text) : Reads (.body quote) (quote.text ++ r) r
  | enter {quote : Quote} {t s r : Text} (hgroup : Reads .group t s) (h : Reads (.body quote) s r) :
    Reads (.body quote) (.char '\\' :: .char '(' :: t) r
  | escape {quote : Quote} {c : Sym} {t r : Text} (hc : c ≠ .char '(')
    (h : Reads (.body quote) t r) : Reads (.body quote) (.char '\\' :: c :: t) r
  | skip {quote : Quote} {c : Sym} {t r : Text} (hc : c ≠ .char '\\')
    (hquote : ¬quote.text <+: c :: t) (h : Reads (.body quote) t r) : Reads (.body quote) (c :: t) r
  | leave (r : Text) : Reads .group (.char ')' :: r) r
  | nest {t s r : Text} (hgroup : Reads .group t s) (h : Reads .group s r) :
    Reads .group (.char '(' :: t) r
  | quoted {t s r : Text} (hstring : Reads .string (.char '"' :: t) s) (h : Reads .group s r) :
    Reads .group (.char '"' :: t) r
  | pass {c : Sym} {t r : Text} (hopen : c ≠ .char '(') (hclose : c ≠ .char ')')
    (hquote : c ≠ .char '"') (h : Reads .group t r) : Reads .group (c :: t) r

namespace Reads

variable {quote : Quote} {c : Sym} {t r : Text}

/-! ### One rule for each text -/

theorem not_quote (hc : c ≠ .char '"') : ¬quote.text <+: c :: t := by
  rintro ⟨rest, hrest⟩
  cases quote <;> exact hc (List.cons.inj hrest).1.symm

theorem not_triple {t : Text} (ht : ∀ rest, t ≠ .char '"' :: .char '"' :: rest) :
    ¬Quote.triple.text <+: .char '"' :: t := by
  rintro ⟨rest, hrest⟩
  exact ht rest (List.cons.inj hrest).2.symm

theorem string_triple_iff : Reads .string (.char '"' :: .char '"' :: .char '"' :: t) r ↔
    Reads (.body .triple) t r := by
  refine ⟨fun h => ?_, fun h => .triple h⟩
  cases h with
  | triple h => exact h
  | single hquote => exact absurd ⟨t, rfl⟩ hquote

theorem string_single_iff (ht : ¬Quote.triple.text <+: .char '"' :: t) :
    Reads .string (.char '"' :: t) r ↔ Reads (.body .single) t r := by
  refine ⟨fun h => ?_, fun h => .single ht h⟩
  generalize hu : Sym.char '"' :: t = u at h
  cases h with
  | triple h => exact absurd ⟨_, hu.symm⟩ ht
  | single _ h =>
    cases hu
    exact h

theorem body_close_iff : Reads (.body quote) (quote.text ++ t) r ↔ r = t := by
  refine ⟨fun h => ?_, fun h => h ▸ .close quote t⟩
  generalize hu : quote.text ++ t = u at h
  cases h with
  | close => exact (List.append_cancel_left hu).symm
  | enter => cases quote <;> cases hu
  | escape => cases quote <;> cases hu
  | skip _ hquote => exact absurd ⟨_, hu⟩ hquote

theorem body_enter_iff : Reads (.body quote) (.char '\\' :: .char '(' :: t) r ↔
    ∃ s, Reads .group t s ∧ Reads (.body quote) s r := by
  refine ⟨fun h => ?_, fun ⟨s, hgroup, h⟩ => .enter hgroup h⟩
  generalize hu : Sym.char '\\' :: Sym.char '(' :: t = u at h
  cases h with
  | close => cases quote <;> cases hu
  | enter hgroup h =>
    cases hu
    exact ⟨_, hgroup, h⟩
  | escape hc =>
    cases hu
    exact absurd rfl hc
  | skip hc =>
    cases hu
    exact absurd rfl hc

theorem body_escape_iff (hc : c ≠ .char '(') :
    Reads (.body quote) (.char '\\' :: c :: t) r ↔ Reads (.body quote) t r := by
  refine ⟨fun h => ?_, fun h => .escape hc h⟩
  generalize hu : Sym.char '\\' :: c :: t = u at h
  cases h with
  | close => cases quote <;> cases hu
  | enter =>
    cases hu
    exact absurd rfl hc
  | escape _ h =>
    cases hu
    exact h
  | skip hc =>
    cases hu
    exact absurd rfl hc

theorem body_skip_iff (hc : c ≠ .char '\\') (hquote : ¬quote.text <+: c :: t) :
    Reads (.body quote) (c :: t) r ↔ Reads (.body quote) t r := by
  refine ⟨fun h => ?_, fun h => .skip hc hquote h⟩
  generalize hu : c :: t = u at h
  cases h with
  | close => exact absurd ⟨_, hu.symm⟩ hquote
  | enter =>
    cases hu
    exact absurd rfl hc
  | escape =>
    cases hu
    exact absurd rfl hc
  | skip _ _ h =>
    cases hu
    exact h

theorem group_leave_iff : Reads .group (.char ')' :: t) r ↔ r = t := by
  refine ⟨fun h => ?_, fun h => h ▸ .leave t⟩
  cases h with
  | leave => rfl
  | pass _ hclose => exact absurd rfl hclose

theorem group_nest_iff : Reads .group (.char '(' :: t) r ↔
    ∃ s, Reads .group t s ∧ Reads .group s r := by
  refine ⟨fun h => ?_, fun ⟨s, hgroup, h⟩ => .nest hgroup h⟩
  cases h with
  | nest hgroup h => exact ⟨_, hgroup, h⟩
  | pass hopen => exact absurd rfl hopen

theorem group_quoted_iff : Reads .group (.char '"' :: t) r ↔
    ∃ s, Reads .string (.char '"' :: t) s ∧ Reads .group s r := by
  refine ⟨fun h => ?_, fun ⟨s, hstring, h⟩ => .quoted hstring h⟩
  cases h with
  | quoted hstring h => exact ⟨_, hstring, h⟩
  | pass _ _ hquote => exact absurd rfl hquote

theorem group_pass_iff (hopen : c ≠ .char '(') (hclose : c ≠ .char ')') (hquote : c ≠ .char '"') :
    Reads .group (c :: t) r ↔ Reads .group t r := by
  refine ⟨fun h => ?_, fun h => .pass hopen hclose hquote h⟩
  cases h with
  | leave => exact absurd rfl hclose
  | nest => exact absurd rfl hopen
  | quoted => exact absurd rfl hquote
  | pass _ _ _ h => exact h

/-- A backslash that nothing follows ends no body. -/
theorem not_body_escape : ¬Reads (.body quote) [.char '\\'] r := by
  intro h
  generalize hu : [Sym.char '\\'] = u at h
  cases h with
  | close => cases quote <;> cases hu
  | enter | escape => cases hu
  | skip hc =>
    cases hu
    exact absurd rfl hc

/-- No part ends without a symbol of its own. -/
theorem not_nil (part : Part) : ¬Reads part [] r := by
  intro h
  generalize hu : ([] : Text) = u at h
  cases h with
  | triple => cases hu
  | close quote => cases quote <;> cases hu
  | single | enter | escape | skip | leave | nest | quoted | pass => cases hu

end Reads

/-! ### The stack of the scan -/

/-- Parts one after the other. -/
inductive ReadsAll : List Part → Text → Text → Prop
  | nil (t : Text) : ReadsAll [] t t
  | cons {part : Part} {parts : List Part} {t s r : Text} (h : Reads part t s)
    (hrest : ReadsAll parts s r) : ReadsAll (part :: parts) t r

theorem readsAll_nil_iff {t r : Text} : ReadsAll [] t r ↔ r = t :=
  ⟨fun h => by cases h; rfl, fun h => h ▸ .nil t⟩

theorem readsAll_cons_iff {part : Part} {parts : List Part} {t r : Text} :
    ReadsAll (part :: parts) t r ↔ ∃ s, Reads part t s ∧ ReadsAll parts s r :=
  ⟨fun h => by cases h with | cons h hrest => exact ⟨_, h, hrest⟩, fun ⟨_, h, hrest⟩ => .cons h hrest⟩

/-- What an open string still needs: its open parentheses, and its body behind them. -/
def Open.parts (o : Open) : List Part := List.replicate o.parens .group ++ [.body o.quote]

/-- What a stack of open strings still needs. -/
def pending (stack : List Open) : List Part := stack.flatMap Open.parts


section Stack

variable {cur : Open} {outer : List Open} {parts parts' : List Part} {taken taken' n : Nat}
  {t t' : Text}

theorem pending_body (h : cur.parens = 0) :
    pending (cur :: outer) = .body cur.quote :: pending outer := by
  simp [pending, Open.parts, h]

theorem pending_group (h : cur.parens ≠ 0) :
    pending (cur :: outer) = .group :: pending ({ cur with parens := cur.parens - 1 } :: outer) := by
  obtain ⟨k, hk⟩ := Nat.exists_eq_succ_of_ne_zero h
  simp [pending, Open.parts, hk, List.replicate_succ]

/-- Parts at the start of a text that end `n` symbols from where the text began, `taken` symbols
before. -/
def Ends (parts : List Part) (taken : Nat) (t : Text) (n : Nat) : Prop :=
  ∃ r, ReadsAll parts t r ∧ taken + t.length = n + r.length

variable {part part' first : Part}

theorem ends_congr (h : ∀ r, ReadsAll parts t r ↔ ReadsAll parts' t' r)
    (hlength : taken + t.length = taken' + t'.length) :
    Ends parts taken t n ↔ Ends parts' taken' t' n := by
  simp only [Ends, h, hlength]

/-! The scan does one rule at a time. A rule needs no part behind what it takes, or one, or two. -/

theorem ends_of_taken (h : ∀ r, Reads part t r ↔ r = t')
    (hlength : taken + t.length = taken' + t'.length) :
    Ends (part :: parts) taken t n ↔ Ends parts taken' t' n := by
  refine ends_congr (fun r => ?_) hlength
  simp only [readsAll_cons_iff, h, exists_eq_left]

theorem ends_of_part (h : ∀ r, Reads part t r ↔ Reads part' t' r)
    (hlength : taken + t.length = taken' + t'.length) :
    Ends (part :: parts) taken t n ↔ Ends (part' :: parts) taken' t' n := by
  refine ends_congr (fun r => ?_) hlength
  simp only [readsAll_cons_iff, h]

theorem ends_of_parts (h : ∀ r, Reads part t r ↔ ∃ s, Reads first t' s ∧ Reads part' s r)
    (hlength : taken + t.length = taken' + t'.length) :
    Ends (part :: parts) taken t n ↔ Ends (first :: part' :: parts) taken' t' n := by
  refine ends_congr (fun r => ?_) hlength
  simp only [readsAll_cons_iff, h]
  constructor
  · rintro ⟨s, ⟨u, hfirst, hpart⟩, hrest⟩
    exact ⟨u, hfirst, s, hpart, hrest⟩
  · rintro ⟨u, hfirst, s, hpart, hrest⟩
    exact ⟨s, ⟨u, hfirst, hpart⟩, hrest⟩

theorem ends_nil_iff : Ends [] taken t n ↔ n = taken := by
  simp only [Ends, readsAll_nil_iff, exists_eq_left]
  omega

theorem not_ends (hbody : ∀ quote r, ¬Reads (.body quote) t r) (hgroup : ∀ r, ¬Reads .group t r) :
    ¬Ends (pending (cur :: outer)) taken t n := by
  rintro ⟨r, h, -⟩
  by_cases hparens : cur.parens = 0
  · rw [pending_body hparens, readsAll_cons_iff] at h
    obtain ⟨s, h, -⟩ := h
    exact hbody _ s h
  · rw [pending_group hparens, readsAll_cons_iff] at h
    obtain ⟨s, h, -⟩ := h
    exact hgroup s h

/-- The scan ends where what is pending on its stack ends. -/
theorem stringEnd?_eq_some_iff :
    stringEnd? cur outer taken t = some n ↔ Ends (pending (cur :: outer)) taken t n := by
  have hclosed {k : Nat} {t : Text} : some k = some n ↔ Ends (pending []) k t n := by
    rw [pending, List.flatMap_nil, ends_nil_iff, Option.some.injEq, eq_comm]
  fun_induction stringEnd? cur outer taken t with
  | case1 cur outer taken =>
    have hends : ¬Ends (pending (cur :: outer)) taken [] n :=
      not_ends (fun quote r => Reads.not_nil (.body quote)) fun r => Reads.not_nil .group
    simp [hends]
  | case2 cur outer taken =>
    have hends : ¬Ends (pending (cur :: outer)) taken [.char '\\'] n :=
      not_ends (fun quote r => Reads.not_body_escape) fun r h =>
        Reads.not_nil .group ((Reads.group_pass_iff (by decide) (by decide) (by decide)).mp h)
    simp [hends]
  | case3 cur outer taken s rest hparens ih =>
    refine ih.trans ?_
    rw [pending_body hparens]
    by_cases hs : s = .char '('
    · subst hs
      exact (ends_of_parts (fun r => Reads.body_enter_iff) (by simp; omega)).symm
    · rw [if_neg fun h => hs (Sym.is_iff.mp h), pending_body hparens]
      exact (ends_of_part (fun r => Reads.body_escape_iff hs) (by simp; omega)).symm
  | case4 cur outer taken s rest hparens ih =>
    refine ih.trans ?_
    rw [pending_group hparens]
    exact (ends_of_part (fun r => Reads.group_pass_iff (by decide) (by decide) (by decide))
      (by simp; omega)).symm
  | case5 cur taken rest hparens hquote =>
    rw [pending_body hparens, hquote, hclosed]
    exact (ends_of_taken (fun r => @Reads.body_close_iff .triple _ r)
      (by simp [Quote.text]; omega)).symm
  | case6 cur taken rest hparens frame outer hquote ih =>
    refine ih.trans ?_
    rw [pending_body hparens, hquote]
    exact (ends_of_taken (fun r => @Reads.body_close_iff .triple _ r)
      (by simp [Quote.text]; omega)).symm
  | case7 cur taken rest hparens hquote =>
    rw [pending_body hparens, hquote, hclosed]
    exact (ends_of_taken (fun r => @Reads.body_close_iff .single _ r)
      (by simp [Quote.text]; omega)).symm
  | case8 cur taken rest hparens frame outer hquote ih =>
    refine ih.trans ?_
    rw [pending_body hparens, hquote]
    exact (ends_of_taken (fun r => @Reads.body_close_iff .single _ r)
      (by simp [Quote.text]; omega)).symm
  | case9 cur outer taken rest hparens ih =>
    refine ih.trans ?_
    rw [pending_body rfl, pending_group hparens]
    refine (ends_of_parts (fun r => ?_) (by simp; omega)).symm
    rw [Reads.group_quoted_iff]
    exact exists_congr fun s => and_congr_left fun _ => Reads.string_triple_iff
  | case10 cur outer taken rest hrest hparens hquote ih =>
    refine ih.trans ?_
    rw [pending_body hparens, hquote]
    refine (ends_of_part (fun r => Reads.body_skip_iff (by decide) ?_) (by simp; omega)).symm
    exact Reads.not_triple hrest
  | case11 cur taken rest hrest hparens hquote =>
    rw [pending_body hparens, hquote, hclosed]
    exact (ends_of_taken (fun r => @Reads.body_close_iff .single _ r)
      (by simp [Quote.text]; omega)).symm
  | case12 cur taken rest hrest hparens frame outer hquote ih =>
    refine ih.trans ?_
    rw [pending_body hparens, hquote]
    exact (ends_of_taken (fun r => @Reads.body_close_iff .single _ r)
      (by simp [Quote.text]; omega)).symm
  | case13 cur outer taken rest hrest hparens ih =>
    refine ih.trans ?_
    rw [pending_body rfl, pending_group hparens]
    refine (ends_of_parts (fun r => ?_) (by simp; omega)).symm
    rw [Reads.group_quoted_iff]
    exact exists_congr fun s => and_congr_left fun _ =>
      Reads.string_single_iff (Reads.not_triple hrest)
  | case14 cur outer taken s rest hlast hescape hquotes hquote hparens ih =>
    refine ih.trans ?_
    rw [pending_body hparens]
    have hbackslash : s ≠ .char '\\' := fun hs => by
      cases rest with
      | nil => exact hlast hs rfl
      | cons c rest => exact hescape c rest hs rfl
    exact (ends_of_part (fun r => Reads.body_skip_iff hbackslash (Reads.not_quote hquote))
      (by simp; omega)).symm
  | case15 cur outer taken s rest hlast hescape hquotes hquote hparens hopen ih =>
    refine ih.trans ?_
    obtain rfl := Sym.is_iff.mp hopen
    have hpending : pending (⟨cur.quote, cur.parens + 1⟩ :: outer) =
        .group :: pending (cur :: outer) :=
      pending_group (Nat.succ_ne_zero _)
    rw [hpending, pending_group hparens]
    exact (ends_of_parts (fun r => Reads.group_nest_iff) (by simp; omega)).symm
  | case16 cur outer taken s rest hlast hescape hquotes hquote hparens hopen hclose ih =>
    refine ih.trans ?_
    obtain rfl := Sym.is_iff.mp hclose
    rw [pending_group hparens]
    exact (ends_of_taken (fun r => Reads.group_leave_iff) (by simp; omega)).symm
  | case17 cur outer taken s rest hlast hescape hquotes hquote hparens hopen hclose ih =>
    refine ih.trans ?_
    rw [pending_group hparens]
    exact (ends_of_part (fun r => Reads.group_pass_iff (fun h => hopen (Sym.is_iff.mpr h))
      (fun h => hclose (Sym.is_iff.mpr h)) hquote) (by simp; omega)).symm

end Stack

/-! ### Strings -/

section Strings

variable {part : Part} {t r r' : Text} {n : Nat}

/-- What is left behind a part is the end of the text. -/
theorem Reads.suffix (h : Reads part t r) : r <:+ t := by
  induction h with
  | triple h ih => exact ih.trans (List.suffix_append _ _)
  | single _ h ih => exact ih.trans (List.suffix_cons _ _)
  | close quote r => exact List.suffix_append _ _
  | enter _ _ ihgroup ih =>
    exact (ih.trans ihgroup).trans ((List.suffix_cons _ _).trans (List.suffix_cons _ _))
  | escape _ _ ih => exact ih.trans ((List.suffix_cons _ _).trans (List.suffix_cons _ _))
  | skip _ _ _ ih => exact ih.trans (List.suffix_cons _ _)
  | leave r => exact List.suffix_cons _ _
  | nest _ _ ihgroup ih => exact (ih.trans ihgroup).trans (List.suffix_cons _ _)
  | quoted _ _ ihstring ih => exact ih.trans ihstring
  | pass _ _ _ _ ih => exact ih.trans (List.suffix_cons _ _)

theorem string?_eq_some_iff : string? (.char '"' :: t) = some n ↔
    ∃ r, Reads .string (.char '"' :: t) r ∧ t.length + 1 = n + r.length := by
  have hends : Ends [.string] 0 (.char '"' :: t) n ↔
      ∃ r, Reads .string (.char '"' :: t) r ∧ t.length + 1 = n + r.length := by
    simp only [Ends, readsAll_cons_iff, readsAll_nil_iff, exists_eq_right', Nat.zero_add,
      List.length_cons]
  rw [← hends]
  by_cases ht : ∃ rest, t = .char '"' :: .char '"' :: rest
  · obtain ⟨rest, rfl⟩ := ht
    change stringEnd? ⟨.triple, 0⟩ [] 3 rest = some n ↔ _
    exact stringEnd?_eq_some_iff.trans
      (ends_of_part (fun r => Reads.string_triple_iff) (by simp; omega)).symm
  · have ht' : ∀ rest, t ≠ .char '"' :: .char '"' :: rest := fun rest h => ht ⟨rest, h⟩
    rw [string?, opening_eq_single ht']
    change stringEnd? ⟨.single, 0⟩ [] 1 t = some n ↔ _
    exact stringEnd?_eq_some_iff.trans
      (ends_of_part (fun r => Reads.string_single_iff (Reads.not_triple ht')) (by simp; omega)).symm

/-- A text starts with one string at most. -/
theorem Reads.unique (h : Reads .string (.char '"' :: t) r) (h' : Reads .string (.char '"' :: t) r') :
    r = r' := by
  obtain ⟨w, hw⟩ := h.suffix
  obtain ⟨w', hw'⟩ := h'.suffix
  have hlength : w.length + r.length = t.length + 1 := by
    rw [← List.length_append, hw, List.length_cons]
  have hlength' : w'.length + r'.length = t.length + 1 := by
    rw [← List.length_append, hw', List.length_cons]
  have hend := string?_eq_some_iff.mpr ⟨r, h, hlength.symm⟩
  have hend' := string?_eq_some_iff.mpr ⟨r', h', hlength'.symm⟩
  rw [hend] at hend'
  exact (List.append_inj (hw.trans hw'.symm) (Option.some.inj hend')).2

end Strings

/-! ### Block comments -/

/-- A marker that opens or closes a comment, and the offset at which it stops. -/
structure Marker where
  opens : Bool
  stop : Nat

/-- The markers of a text that begins at an offset, from left to right. None shares a symbol with the
one before it. -/
def markers (offset : Nat) : Text → List Marker
  | [] => []
  | .char '/' :: .char '*' :: rest => ⟨true, offset + 2⟩ :: markers (offset + 2) rest
  | .char '*' :: .char '/' :: rest => ⟨false, offset + 2⟩ :: markers (offset + 2) rest
  | _ :: rest => markers (offset + 1) rest

/-- What a marker does to the depth. -/
def Marker.change (m : Marker) : Int := if m.opens then 1 else -1

/-- How many more comments are opened than closed. -/
def depth : List Marker → Int
  | [] => 0
  | m :: ms => m.change + depth ms

/-- The first of some markers behind which the depth is zero stops at an offset. Before them the
depth is `d`. -/
def FirstZero (d : Int) (ms : List Marker) (stop : Nat) : Prop :=
  ∃ before last after, ms = before ++ last :: after ∧ last.stop = stop ∧
    d + depth (before ++ [last]) = 0 ∧
    ∀ first, first <+: before → first ≠ [] → d + depth first ≠ 0

section Comments

variable {ms : List Marker} {m : Marker} {t : Text} {d : Int} {n : Nat}

@[simp] theorem depth_nil : depth [] = 0 := rfl

@[simp] theorem depth_cons (m : Marker) (ms : List Marker) :
    depth (m :: ms) = m.change + depth ms := rfl

theorem not_firstZero_nil : ¬FirstZero d [] n := by
  rintro ⟨before, last, after, h, -⟩
  simp at h

theorem firstZero_cons_iff : FirstZero d (m :: ms) n ↔
    if d + m.change = 0 then m.stop = n else FirstZero (d + m.change) ms n := by
  constructor
  · rintro ⟨before, last, after, hms, hstop, hzero, hfirst⟩
    cases before with
    | nil =>
      obtain ⟨rfl, -⟩ := List.cons.inj hms
      rw [if_pos (by simpa using hzero)]
      exact hstop
    | cons b before =>
      obtain ⟨rfl, rfl⟩ := List.cons.inj hms
      have hne : d + m.change ≠ 0 := by
        simpa using hfirst [m] (List.prefix_append [m] before) (List.cons_ne_nil _ _)
      rw [if_neg hne]
      refine ⟨before, last, after, rfl, hstop, ?_, fun first hprefix hnil => ?_⟩
      · rw [List.cons_append, depth_cons] at hzero
        omega
      · have := hfirst (m :: first) (List.cons_prefix_cons.mpr ⟨rfl, hprefix⟩)
          (List.cons_ne_nil _ _)
        rw [depth_cons] at this
        omega
  · intro h
    split_ifs at h with hzero
    · refine ⟨[], m, ms, rfl, h, by simpa using hzero, fun first hprefix hnil => ?_⟩
      exact absurd (List.prefix_nil.mp hprefix) hnil
    · obtain ⟨before, last, after, rfl, hstop, hdepth, hfirst⟩ := h
      refine ⟨m :: before, last, after, rfl, hstop, ?_, fun first hprefix hnil => ?_⟩
      · rw [List.cons_append, depth_cons]
        omega
      · obtain ⟨c, first, rfl⟩ := List.exists_cons_of_ne_nil hnil
        obtain ⟨rfl, hrest⟩ := List.cons_prefix_cons.mp hprefix
        rw [depth_cons]
        by_cases hnil : first = []
        · rw [hnil, depth_nil]
          omega
        · have := hfirst first hrest hnil
          omega

/-- Inside a comment the scan ends where the depth first comes to zero. -/
theorem commentEnd?_eq_some_iff {k taken : Nat} (hk : k ≠ 0) :
    commentEnd? k taken t = some n ↔ FirstZero k (markers taken t) n := by
  fun_induction commentEnd? k taken t with
  | case1 k taken => simp [markers, not_firstZero_nil]
  | case2 k taken s => simp [markers, not_firstZero_nil]
  | case3 k taken rest ih =>
    refine (ih (Nat.succ_ne_zero _)).trans ?_
    rw [markers, firstZero_cons_iff, if_neg]
    · rfl
    · simp only [Marker.change, if_true]
      omega
  | case4 k taken rest hle =>
    obtain rfl : k = 1 := by omega
    rw [markers, firstZero_cons_iff, if_pos (by simp [Marker.change]), Option.some.injEq]
  | case5 k taken rest hlt ih =>
    refine (ih (by omega)).trans ?_
    rw [markers, firstZero_cons_iff, if_neg]
    · have hdepth : (k : Int) + Marker.change ⟨false, taken + 2⟩ = ((k - 1 : Nat) : Int) := by
        simp only [Marker.change, Bool.false_eq_true, if_false]
        omega
      rw [hdepth]
    · simp only [Marker.change, Bool.false_eq_true, if_false]
      omega
  | case6 k taken x s rest hopen hclose ih =>
    have hskip : markers taken (x :: s :: rest) = markers (taken + 1) (s :: rest) := by
      rw [markers]
      · exact fun _ hx hs => hopen hx (List.cons.inj hs).1
      · exact fun _ hx hs => hclose hx (List.cons.inj hs).1
    rw [hskip]
    exact ih hk

theorem blockComment?_eq_some_iff : blockComment? (.char '/' :: .char '*' :: t) = some n ↔
    FirstZero 0 (markers 0 (.char '/' :: .char '*' :: t)) n := by
  rw [blockComment?, commentEnd?, commentEnd?_eq_some_iff (Nat.succ_ne_zero _), markers,
    firstZero_cons_iff, if_neg (by decide)]
  rfl

end Comments

end HouseStyle.Literal

namespace HouseStyle

open Literal

/-- A lexeme has its end where the scan found one. -/
theorem Cut.upTo_eq_iff {kind : TokenKind} {all n : Nat} {found : Option Nat} :
    Cut.upTo kind all found = ⟨kind, n, false⟩ ↔ found = some n := by
  cases found with
  | none => simp [Cut.upTo]
  | some k => simp [Cut.upTo]

/-- A scan that finds no end goes on to the end of the text. -/
theorem Cut.upTo_of_forall {kind : TokenKind} {all : Nat} {found : Option Nat}
    (h : ∀ n, found ≠ some n) : Cut.upTo kind all found = ⟨kind, all, true⟩ := by
  cases found with
  | none => rfl
  | some k => exact absurd rfl (h k)

/-- Strings and block comments end where their grammar and their markers say. At a quote a lexeme has
its end if the text begins with a string, which ends with the lexeme, and there is no other string
there. At an opening marker it has its end if the depth of the markers comes back to zero, and ends
where that happens first. In any other case it lacks its end and goes on to the end of the text. -/
theorem next_nested (t : Text) :
    ((∀ n, Cut.next (.char '"' :: t) = ⟨.string, n, false⟩ ↔
        ∃ w r, .char '"' :: t = w ++ r ∧ Reads .string (.char '"' :: t) r ∧ w.length = n) ∧
      (∀ r r', Reads .string (.char '"' :: t) r → Reads .string (.char '"' :: t) r' → r = r') ∧
      ((∀ r, ¬Reads .string (.char '"' :: t) r) →
        Cut.next (.char '"' :: t) = ⟨.string, t.length + 1, true⟩)) ∧
    ((∀ n, Cut.next (.char '/' :: .char '*' :: t) = ⟨.comment, n, false⟩ ↔
        FirstZero 0 (markers 0 (.char '/' :: .char '*' :: t)) n) ∧
      ((∀ n, ¬FirstZero 0 (markers 0 (.char '/' :: .char '*' :: t)) n) →
        Cut.next (.char '/' :: .char '*' :: t) = ⟨.comment, t.length + 2, true⟩)) := by
  have hstring : Cut.next (.char '"' :: t) =
      Cut.upTo .string (t.length + 1) (string? (.char '"' :: t)) := by
    rw [Cut.next]
    rfl
  have hcomment : Cut.next (.char '/' :: .char '*' :: t) =
      Cut.upTo .comment (t.length + 2) (blockComment? (.char '/' :: .char '*' :: t)) := by
    rw [Cut.next]
    rfl
  refine ⟨⟨fun n => ?_, fun r r' => Reads.unique, fun h => ?_⟩, fun n => ?_, fun h => ?_⟩
  · rw [hstring, Cut.upTo_eq_iff, string?_eq_some_iff]
    constructor
    · rintro ⟨r, hr, hlength⟩
      obtain ⟨w, hw⟩ := hr.suffix
      refine ⟨w, r, hw.symm, hr, ?_⟩
      have := congrArg List.length hw
      rw [List.length_append, List.length_cons] at this
      omega
    · rintro ⟨w, r, hw, hr, rfl⟩
      exact ⟨r, hr, by rw [← List.length_append, ← hw, List.length_cons]⟩
  · rw [hstring]
    refine Cut.upTo_of_forall fun n hn => ?_
    obtain ⟨r, hr, -⟩ := string?_eq_some_iff.mp hn
    exact h r hr
  · rw [hcomment, Cut.upTo_eq_iff, blockComment?_eq_some_iff]
  · rw [hcomment]
    exact Cut.upTo_of_forall fun n hn => h n (blockComment?_eq_some_iff.mp hn)

/-- A string whose interpolation holds a parenthesis in a string, and a comment whose first marker is
followed by a slash. -/
example : Cut.next "\"a\\(f(\")\"))\" + b" = ⟨.string, 12, false⟩ ∧
    Cut.next "/*/ */ + b" = ⟨.comment, 6, false⟩ := by
  decide +kernel

end HouseStyle
