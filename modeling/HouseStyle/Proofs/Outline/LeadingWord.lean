import HouseStyle.Proofs.Outline.Born

/-! The leading word of a run. It is looked up while the run is collected and kept from then on,
although the run grows and more brackets are paired. What the lookup gives, and what neither of the
two takes away, holds of the leading words of all segments: they stand in their segments, and the
word of a control structure is what a lookup would find at any later time. -/

namespace HouseStyle

namespace Outline

variable {tokens : Array Token} {partners partners' : Array (Option Nat)}

/-! ### Finding the word -/

/-- What the leading word makes of a run. -/
def kindOf (t : Token) : SegmentKind :=
  if t.isKeyword controlKeywords then .controlHeader
  else if t.isKeyword declarationKeywords then .declaration
  else .statement

theorem kindOf_eq_controlHeader {t : Token} :
    kindOf t = .controlHeader ↔ t.isKeyword controlKeywords := by
  unfold kindOf
  split_ifs <;> simp_all

/-- A word is not in two lists that have none in common. -/
theorem not_isKeyword {t : Token} {words words' : List Text}
    (hapart : ∀ word ∈ words, words'.contains word = false) (h : t.isKeyword words) :
    ¬t.isKeyword words' := by
  simp only [Lexeme.isKeyword, Bool.and_eq_true, List.contains_iff_mem] at h
  rw [Lexeme.isKeyword, hapart t.text h.2, Bool.and_false]
  simp

/-- A head says what a token of the run is. -/
def Leads (tokens : Array Token) (indices : List Nat) (head : Head) : Prop :=
  ∃ i t, indices[head.lead]? = some i ∧ tokens[i]? = some t ∧ head.keyword = t.text ∧
    head.kind = kindOf t

theorem skipGroup_suffix (run : List Nat) : skipGroup tokens partners run <:+ run := by
  cases run with
  | nil => exact List.suffix_refl _
  | cons i rest =>
    simp only [skipGroup]
    split
    · split
      · exact List.dropWhile_suffix _
      · exact List.suffix_refl _
    · exact List.suffix_refl _

theorem fromHead_suffix (run : List Nat) : fromHead tokens partners run <:+ run := by
  fun_induction fromHead tokens partners run with
  | case1 => exact List.suffix_refl _
  | case2 i h => exact List.nil_suffix
  | case3 i h₁ name rest h₂ ih =>
    exact (ih.trans (skipGroup_suffix rest)).trans
      ((List.suffix_cons _ _).trans (List.suffix_cons _ _))
  | case4 i h₁ name rest h₂ ih => exact (ih.trans (skipGroup_suffix _)).trans (List.suffix_cons _ _)
  | case5 i rest h₁ h₂ ih => exact (ih.trans (skipGroup_suffix _)).trans (List.suffix_cons _ _)
  | case6 i rest h₁ h₂ h₃ ih => exact ih.trans (List.suffix_cons _ _)
  | case7 => exact List.suffix_refl _

/-- A lookup gives the first word behind attributes and modifiers. -/
theorem head?_eq_some {run : List Nat} {head : Head} :
    head? tokens partners run = some head ↔ ∃ i rest t, fromHead tokens partners run = i :: rest ∧
      tokens[i]? = some t ∧ head = ⟨kindOf t, t.text, run.length - (i :: rest).length⟩ := by
  unfold head?
  cases fromHead tokens partners run with
  | nil => simp
  | cons i rest =>
    simp only [Option.map_eq_some_iff, List.cons.injEq, eq_comm (a := head)]
    constructor
    · rintro ⟨t, ht, rfl⟩
      exact ⟨i, rest, t, ⟨rfl, rfl⟩, ht, rfl⟩
    · rintro ⟨i, rest, t, ⟨rfl, rfl⟩, ht, rfl⟩
      exact ⟨t, ht, rfl⟩

theorem leads_of_head? {run : List Nat} {head : Head} (h : head? tokens partners run = some head) :
    Leads tokens run head := by
  obtain ⟨i, rest, t, hfrom, ht, rfl⟩ := head?_eq_some.mp h
  obtain ⟨us, hrun⟩ := @fromHead_suffix tokens partners run
  rw [hfrom] at hrun
  refine ⟨i, t, ?_, ht, rfl, rfl⟩
  subst hrun
  simp

/-! ### Runs that grow -/

theorem skipGroup_append (run more : List Nat) :
    skipGroup tokens partners (run ++ more) = skipGroup tokens partners run ++ more ∨
      skipGroup tokens partners run = [] ∧ skipGroup tokens partners (run ++ more) <:+ more := by
  cases run with
  | nil => exact .inr ⟨rfl, skipGroup_suffix more⟩
  | cons i rest =>
    simp only [skipGroup, List.cons_append]
    split_ifs
    · cases partnerIn partners i with
      | none => exact .inl rfl
      | some close =>
        simp only
        rw [← List.cons_append, List.dropWhile_append]
        split_ifs with hdropped
        · exact .inr ⟨by simpa using hdropped, List.dropWhile_suffix _⟩
        · exact .inl rfl
    · exact .inl rfl

/-- The leading word is the same when the run grows, or it is found in what is new. -/
theorem fromHead_append (run more : List Nat) :
    (∃ i rest, fromHead tokens partners run = i :: rest ∧
      fromHead tokens partners (run ++ more) = i :: (rest ++ more)) ∨
    fromHead tokens partners (run ++ more) <:+ more ∧
      ∀ i ∈ (fromHead tokens partners run).head?, tokenIs tokens (·.isKeyword ["class"]) i := by
  have hskipped (rest : List Nat)
      (ih : (∃ i rest', fromHead tokens partners (skipGroup tokens partners rest) = i :: rest' ∧
          fromHead tokens partners (skipGroup tokens partners rest ++ more) = i :: (rest' ++ more)) ∨
        fromHead tokens partners (skipGroup tokens partners rest ++ more) <:+ more ∧
          ∀ i ∈ (fromHead tokens partners (skipGroup tokens partners rest)).head?,
            tokenIs tokens (·.isKeyword ["class"]) i) :
      (∃ i rest', fromHead tokens partners (skipGroup tokens partners rest) = i :: rest' ∧
          fromHead tokens partners (skipGroup tokens partners (rest ++ more)) = i :: (rest' ++ more)) ∨
        fromHead tokens partners (skipGroup tokens partners (rest ++ more)) <:+ more ∧
          ∀ i ∈ (fromHead tokens partners (skipGroup tokens partners rest)).head?,
            tokenIs tokens (·.isKeyword ["class"]) i := by
    rcases @skipGroup_append tokens partners rest more with heq | ⟨hnil, hsuffix⟩
    · rwa [heq]
    · refine .inr ⟨(fromHead_suffix _).trans hsuffix, ?_⟩
      rw [hnil]
      simp [fromHead]
  fun_induction fromHead tokens partners run with
  | case1 => exact .inr ⟨fromHead_suffix _, by simp⟩
  | case2 i h =>
    refine .inr ⟨?_, by simp⟩
    rw [List.singleton_append, fromHead.eq_def]
    simp only [h, if_true]
    cases more with
    | nil => exact List.suffix_refl _
    | cons name rest =>
      simp only
      split_ifs
      · exact ((fromHead_suffix _).trans (skipGroup_suffix _)).trans (List.suffix_cons _ _)
      · exact (fromHead_suffix _).trans (skipGroup_suffix _)
  | case3 i h₁ name rest h₂ ih =>
    have hfrom : fromHead tokens partners (i :: name :: (rest ++ more)) =
        fromHead tokens partners (skipGroup tokens partners (rest ++ more)) := by
      rw [fromHead.eq_def]
      simp only [h₁, h₂, if_true]
    rw [List.cons_append, List.cons_append, hfrom]
    exact hskipped rest ih
  | case4 i h₁ name rest h₂ ih =>
    have hfrom : fromHead tokens partners (i :: name :: (rest ++ more)) =
        fromHead tokens partners (skipGroup tokens partners (name :: (rest ++ more))) := by
      rw [fromHead.eq_def]
      simp only [h₁, h₂, if_true, if_false, Bool.false_eq_true]
    rw [List.cons_append, List.cons_append, hfrom, ← List.cons_append]
    exact hskipped (name :: rest) ih
  | case5 i rest h₁ h₂ ih =>
    have hfrom : fromHead tokens partners (i :: (rest ++ more)) =
        fromHead tokens partners (skipGroup tokens partners (rest ++ more)) := by
      rw [fromHead.eq_def]
      simp only [h₁, h₂, if_true, if_false, Bool.false_eq_true]
    rw [List.cons_append, hfrom]
    exact hskipped rest ih
  | case6 i rest h₁ h₂ h₃ ih =>
    have hmember : rest.head? = (rest ++ more).head? := by
      cases rest with
      | nil => simp at h₃
      | cons => rfl
    have hfrom : fromHead tokens partners (i :: (rest ++ more)) =
        fromHead tokens partners (rest ++ more) := by
      rw [hmember] at h₃
      rw [fromHead.eq_def]
      simp only [h₁, h₂, h₃, if_true, if_false, Bool.false_eq_true]
    rwa [List.cons_append, hfrom]
  | case7 i rest h₁ h₂ h₃ =>
    by_cases hclass : tokenIs tokens (·.isKeyword ["class"]) i &&
        ((rest ++ more).head?.map (tokenIs tokens (·.isKeyword classMembers))).getD false
    · have hfrom : fromHead tokens partners (i :: (rest ++ more)) =
          fromHead tokens partners (rest ++ more) := by
        rw [fromHead.eq_def]
        simp only [h₁, h₂, hclass, if_true, if_false, Bool.false_eq_true]
      obtain rfl : rest = [] := by
        cases rest with
        | nil => rfl
        | cons => exact absurd hclass h₃
      rw [List.cons_append, hfrom]
      refine .inr ⟨fromHead_suffix _, ?_⟩
      simpa using (Bool.and_eq_true_iff.mp hclass).1
    · refine .inl ⟨i, rest, rfl, ?_⟩
      rw [List.cons_append, fromHead.eq_def]
      simp only [h₁, h₂, hclass, if_false, Bool.false_eq_true]

/-- Whether a leading word is `class`, which is a modifier where a member follows. -/
def IsClass (head : Head) : Prop := head.kind = .declaration ∧ head.keyword = "class"

/-- A leading word that is found, and is not `class`, is found again when the run goes on. -/
theorem head?_append {run more : List Nat} {head : Head} (h : head? tokens partners run = some head)
    (hclass : ¬IsClass head) : head? tokens partners (run ++ more) = some head := by
  obtain ⟨i, rest, t, hfrom, ht, rfl⟩ := head?_eq_some.mp h
  have hlength := (@fromHead_suffix tokens partners run).length_le
  rw [hfrom] at hlength
  rcases @fromHead_append tokens partners run more with ⟨j, rest', hfrom', happend⟩ | ⟨-, hword⟩
  · obtain ⟨rfl, rfl⟩ := List.cons.inj (hfrom.symm.trans hfrom')
    refine head?_eq_some.mpr ⟨i, rest ++ more, t, happend, ht, ?_⟩
    simp only [List.length_append, List.length_cons]
    congr 1
    omega
  · have hword := hword i (by simp [hfrom])
    rw [tokenIs_of_getElem? ht] at hword
    have hnot : ¬t.isKeyword controlKeywords := not_isKeyword (by decide +kernel) hword
    simp only [Lexeme.isKeyword, Bool.and_eq_true, List.contains_iff_mem,
      List.mem_singleton] at hword
    have hdeclares : t.isKeyword declarationKeywords := by
      rw [Lexeme.isKeyword, hword.1, hword.2]
      decide +kernel
    exact absurd ⟨(if_neg hnot).trans (if_pos hdeclares), hword.2⟩ hclass

/-- Whether the word of a control structure leads a run can be told from any part of the run that
has it. -/
theorem head?_append_iff {run more : List Nat} {head : Head} (hkind : head.kind = .controlHeader) :
    head? tokens partners (run ++ more) = some head ∧ head.lead < run.length ↔
      head? tokens partners run = some head := by
  constructor
  · rintro ⟨h, hlead⟩
    obtain ⟨i, rest, t, hfrom, ht, rfl⟩ := head?_eq_some.mp h
    refine head?_eq_some.mpr ?_
    rcases @fromHead_append tokens partners run more with ⟨j, rest', hrun, happend⟩ | ⟨hsuffix, -⟩
    · rw [happend] at hfrom
      obtain ⟨rfl, rfl⟩ := List.cons.inj hfrom
      refine ⟨j, rest', t, hrun, ht, ?_⟩
      simp only [List.length_append, List.length_cons]
      congr 1
      omega
    · rw [hfrom] at hsuffix
      have := hsuffix.length_le
      simp only [List.length_append] at hlead
      omega
  · intro h
    obtain ⟨i, t, hi, -⟩ := leads_of_head? h
    refine ⟨head?_append h ?_, (List.getElem?_eq_some_iff.mp hi).1⟩
    rintro ⟨hdeclares, -⟩
    rw [hkind] at hdeclares
    cases hdeclares

/-- A group that is not skipped is in the place of the leading word. -/
theorem fromHead_of_group {i : Nat} {rest : List Nat} (h : tokenIs tokens (·.isMark '(') i) :
    fromHead tokens partners (i :: rest) = i :: rest := by
  obtain ⟨t, ht, hmark⟩ := tokenIs_iff.mp h
  have hkind : t.kind = .punctuation := by
    simp only [Lexeme.isMark, Lexeme.isPunct, Bool.and_eq_true, decide_eq_true_eq] at hmark
    exact hmark.1
  have hword (words : List Text) : tokenIs tokens (·.isKeyword words) i = false := by
    simp [tokenIs_of_getElem? ht, Lexeme.isKeyword, hkind]
  have hat : tokenIs tokens (·.isMark '@') i = false := by
    rw [tokenIs_of_getElem? ht]
    exact Scan.not_isMark hmark (by decide)
  rw [fromHead.eq_def]
  simp only [hat, hword, Bool.false_and, Bool.false_eq_true, if_false]

section

variable (hgrow : ∀ a b, partnerIn partners a = some b → partnerIn partners' a = some b)
include hgrow

theorem skipGroup_grow (run : List Nat) :
    skipGroup tokens partners' run = skipGroup tokens partners run ∨
      ∃ i rest, skipGroup tokens partners run = i :: rest ∧ tokenIs tokens (·.isMark '(') i := by
  cases run with
  | nil => exact .inl rfl
  | cons i rest =>
    simp only [skipGroup]
    split_ifs with hmark
    · cases hclose : partnerIn partners i with
      | none => exact .inr ⟨i, rest, rfl, hmark⟩
      | some close =>
        rw [hgrow i close hclose]
        exact .inl rfl
    · exact .inl rfl

/-- More pairs do not change the leading word, unless a group seemed to be it. -/
theorem fromHead_grow {run : List Nat} {i : Nat} {rest : List Nat}
    (h : fromHead tokens partners run = i :: rest) (hi : ¬tokenIs tokens (·.isMark '(') i) :
    fromHead tokens partners' run = i :: rest := by
  have hskipped {tail : List Nat} (h : fromHead tokens partners (skipGroup tokens partners tail) = i :: rest)
      (ih : fromHead tokens partners (skipGroup tokens partners tail) = i :: rest →
        fromHead tokens partners' (skipGroup tokens partners tail) = i :: rest) :
      fromHead tokens partners' (skipGroup tokens partners' tail) = i :: rest := by
    rcases @skipGroup_grow tokens partners partners' hgrow tail with heq | ⟨j, rest', heq, hmark⟩
    · rw [heq]
      exact ih h
    · rw [heq, fromHead_of_group hmark] at h
      exact absurd ((List.cons.inj h).1 ▸ hmark) hi
  fun_induction fromHead tokens partners run with
  | case1 => cases h
  | case2 => cases h
  | case3 j h₁ name tail h₂ ih =>
    rw [fromHead.eq_def]
    simp only [h₁, h₂, if_true]
    exact hskipped h ih
  | case4 j h₁ name tail h₂ ih =>
    rw [fromHead.eq_def]
    simp only [h₁, h₂, if_true, if_false, Bool.false_eq_true]
    exact hskipped h ih
  | case5 j tail h₁ h₂ ih =>
    rw [fromHead.eq_def]
    simp only [h₁, h₂, if_true, if_false, Bool.false_eq_true]
    exact hskipped h ih
  | case6 j tail h₁ h₂ h₃ ih =>
    rw [fromHead.eq_def]
    simp only [h₁, h₂, h₃, if_true, if_false, Bool.false_eq_true]
    exact ih h
  | case7 j tail h₁ h₂ h₃ =>
    rw [fromHead.eq_def]
    simp only [h₁, h₂, h₃, if_false, Bool.false_eq_true]
    exact h

end

/-! ### What is skipped -/

/-- A word is no bracket. -/
theorem isBracket_of_kind {t : Token} (h : t.kind ≠ .punctuation) : isBracket t = false := by
  simp [isBracket, Lexeme.isMark, Lexeme.isPunct, h]

theorem isBracket_of_isMark {t : Token} {c : Char} (h : t.isMark c)
    (hc : ∀ pair ∈ brackets, c ≠ pair.1 ∧ c ≠ pair.2) : isBracket t = false := by
  rw [isBracket, List.any_eq_false]
  intro pair hpair
  simp [Scan.not_isMark h (hc pair hpair).1, Scan.not_isMark h (hc pair hpair).2]

theorem skipGroup_skips {run : List Nat} (hsorted : run.Pairwise (· < ·)) {x : Nat} (hx : x ∈ run)
    (hskipped : x ∉ skipGroup tokens partners run) :
    ∃ i close, partnerIn partners i = some close ∧ i ≤ x ∧ x ≤ close ∧
      ∀ k ∈ skipGroup tokens partners run, close < k := by
  cases run with
  | nil => simp at hx
  | cons i rest =>
    simp only [skipGroup] at hskipped ⊢
    split_ifs at hskipped ⊢
    · cases hclose : partnerIn partners i with
      | none =>
        rw [hclose] at hskipped
        exact absurd hx hskipped
      | some close =>
        rw [hclose] at hskipped
        have hcut := List.takeWhile_append_dropWhile (p := fun k => decide (k ≤ close)) (l := i :: rest)
        simp only at hskipped ⊢
        refine ⟨i, close, hclose, ?_, ?_, fun k hk => ?_⟩
        · rcases List.mem_cons.mp hx with rfl | hx
          · exact Nat.le_refl _
          · exact (List.rel_of_pairwise_cons hsorted hx).le
        · rw [← hcut] at hx
          have := (List.mem_append.mp hx).resolve_right hskipped
          simpa using List.all_eq_true.mp List.all_takeWhile x this
        · have hfirst := List.head?_dropWhile_not (fun k => decide (k ≤ close)) (i :: rest)
          have hsorted' := hsorted.sublist (List.dropWhile_sublist fun k => decide (k ≤ close))
          cases hdropped : (i :: rest).dropWhile fun k => decide (k ≤ close) with
          | nil => simp [hdropped] at hk
          | cons first behind =>
            rw [hdropped] at hk hfirst hsorted'
            have hfirst : close < first := by simpa using hfirst
            rcases List.mem_cons.mp hk with rfl | hk
            · exact hfirst
            · exact hfirst.trans (List.rel_of_pairwise_cons hsorted' hk)
    · exact absurd hx hskipped

/-- A bracket before the leading word is in a group that is over before the word. -/
theorem fromHead_skips {run : List Nat} (hsorted : run.Pairwise (· < ·)) {x : Nat} (hx : x ∈ run)
    (hbracket : tokenIs tokens isBracket x) (hskipped : x ∉ fromHead tokens partners run) :
    ∃ i close, partnerIn partners i = some close ∧ i ≤ x ∧ x ≤ close ∧
      ∀ k ∈ fromHead tokens partners run, close < k := by
  obtain ⟨t, ht, hbracket⟩ := tokenIs_iff.mp hbracket
  have hmark (h : tokenIs tokens (·.isMark '@') x) : False := by
    rw [tokenIs_of_getElem? ht] at h
    rw [isBracket_of_isMark h (by decide)] at hbracket
    cases hbracket
  have hkind (h : t.kind ≠ .punctuation) : False := by
    rw [isBracket_of_kind h] at hbracket
    cases hbracket
  have hword {words : List Text} (h : tokenIs tokens (·.isKeyword words) x) : False := by
    rw [tokenIs_of_getElem? ht] at h
    simp only [Lexeme.isKeyword, Bool.and_eq_true, decide_eq_true_eq] at h
    exact hkind (by simp [h.1])
  have hgroup {rest : List Nat} (hsorted : rest.Pairwise (· < ·)) (hx : x ∈ rest)
      (hskipped : x ∉ fromHead tokens partners (skipGroup tokens partners rest))
      (ih : (skipGroup tokens partners rest).Pairwise (· < ·) → x ∈ skipGroup tokens partners rest →
        x ∉ fromHead tokens partners (skipGroup tokens partners rest) →
        ∃ i close, partnerIn partners i = some close ∧ i ≤ x ∧ x ≤ close ∧
          ∀ k ∈ fromHead tokens partners (skipGroup tokens partners rest), close < k) :
      ∃ i close, partnerIn partners i = some close ∧ i ≤ x ∧ x ≤ close ∧
        ∀ k ∈ fromHead tokens partners (skipGroup tokens partners rest), close < k := by
    by_cases hin : x ∈ skipGroup tokens partners rest
    · exact ih (hsorted.sublist (skipGroup_suffix rest).sublist) hin hskipped
    · obtain ⟨i, close, hpair, hle, hle', hbehind⟩ := skipGroup_skips hsorted hx hin
      exact ⟨i, close, hpair, hle, hle', fun k hk => hbehind k ((fromHead_suffix _).subset hk)⟩
  fun_induction fromHead tokens partners run with
  | case1 => simp at hx
  | case2 i h =>
    obtain rfl : x = i := by simpa using hx
    exact (hmark h).elim
  | case3 i h₁ name rest h₂ ih =>
    rcases List.mem_cons.mp hx with rfl | hx
    · exact (hmark h₁).elim
    rcases List.mem_cons.mp hx with rfl | hx
    · rw [tokenIs_of_getElem? ht] at h₂
      exact (hkind (by simp_all)).elim
    · exact hgroup hsorted.of_cons.of_cons hx hskipped ih
  | case4 i h₁ name rest h₂ ih =>
    rcases List.mem_cons.mp hx with rfl | hx
    · exact (hmark h₁).elim
    · exact hgroup hsorted.of_cons hx hskipped ih
  | case5 i rest h₁ h₂ ih =>
    rcases List.mem_cons.mp hx with rfl | hx
    · exact (hword h₂).elim
    · exact hgroup hsorted.of_cons hx hskipped ih
  | case6 i rest h₁ h₂ h₃ ih =>
    rcases List.mem_cons.mp hx with rfl | hx
    · exact (hword (Bool.and_eq_true_iff.mp h₃).1).elim
    · exact ih hsorted.of_cons hx hskipped
  | case7 => exact absurd hx hskipped

/-! ### What lasts -/

/-- A property of leading words that a lookup gives, and that stays when the run grows and when
brackets are paired. -/
structure Lasting (tokens : Array Token) (P : Array (Option Nat) → List Nat → Head → Prop) :
    Prop where
  found : ∀ {partners indices head}, head? tokens partners indices = some head →
    P partners indices head
  push : ∀ {partners indices head} (i : Nat), P partners indices head →
    P partners (indices ++ [i]) head
  grow : ∀ {partners partners' indices head},
    (∀ a b, partnerIn partners a = some b → partnerIn partners' a = some b) →
    P partners indices head → P partners' indices head

end Outline

open Outline

section

variable (P : Array (Option Nat) → List Nat → Head → Prop) (partners : Array (Option Nat))

/-- The leading word of a run, if it is known, has a property. -/
def Outline.Run.Led (run : Run) : Prop := ∀ head ∈ run.head, P partners run.indices.toList head

/-- The run that a closure interrupts is not given up. -/
def Outline.Frame.Led : Frame → Prop
  | .closure _ resume _ => resume.Led P partners
  | _ => True

/-- A segment has no leading word or one with a property. -/
def Segment.Led (seg : Segment) : Prop :=
  seg.toHead = noHead ∨ P partners seg.indices seg.toHead

/-- All leading words that are known have a property. -/
structure Outline.Scan.Led (s : Scan) : Prop where
  run : s.run.Led P partners
  frames : ∀ frame ∈ s.stack, frame.Led P partners
  segments : ∀ seg ∈ s.segments, seg.Led P partners

end

namespace Outline

variable {tokens : Array Token} {partners partners' : Array (Option Nat)}
  {P : Array (Option Nat) → List Nat → Head → Prop} {run : Run} {i : Nat}

theorem Run.Led.of_head (h : run.head = none) : run.Led P partners := by
  simp [Run.Led, h]

namespace Lasting

variable (hP : Lasting tokens P)
include hP

theorem push_run (h : run.Led P partners) (i : Nat) : (run.push i).Led P partners := by
  intro head hhead
  rw [Run.push, Array.toList_push]
  exact hP.push i (h head hhead)

theorem classify (h : run.Led P partners) :
    (Scan.classify tokens partners run).1.Led P partners ∧
      ((Scan.classify tokens partners run).2 = noHead ∨
        P partners run.indices.toList (Scan.classify tokens partners run).2) := by
  unfold Scan.classify
  split
  · next head hhead => exact ⟨h, .inr (h head hhead)⟩
  · split
    · next head hhead =>
      refine ⟨fun found hfound => ?_, .inr (hP.found hhead)⟩
      obtain rfl := Option.some.inj hfound
      exact hP.found hhead
    · exact ⟨h, .inl rfl⟩

theorem toSegment (h : run.Led P partners) (ending : Scan.Ending) :
    (Scan.toSegment tokens partners run ending).Led P partners :=
  (hP.classify h).2

end Lasting

namespace Scan

variable {s s' : Scan} {t : Token} {end_ : Text}

namespace Led

theorem with_run (h : s.Led P partners) (hrun : run.Led P partners) :
    Led P partners { s with run } :=
  { h with run := hrun }

theorem grow (hP : Lasting tokens P)
    (hgrow : ∀ a b, partnerIn partners a = some b → partnerIn partners' a = some b)
    (h : s.Led P partners) : s.Led P partners' := by
  refine ⟨fun head hhead => hP.grow hgrow (h.run head hhead), fun frame hframe => ?_,
    fun seg hseg => (h.segments seg hseg).imp_right (hP.grow hgrow)⟩
  have := h.frames frame hframe
  cases frame with
  | group | block => trivial
  | closure k resume depth => exact fun head hhead => hP.grow hgrow (this head hhead)

section

variable (hP : Lasting tokens P) (h : s.Led P s.partners)
include hP h

theorem push (i : Nat) : Led P s.partners { s with run := s.run.push i } :=
  h.with_run (hP.push_run h.run i)

theorem close (ending : Ending) : (s.close tokens ending).Led P s.partners := by
  refine ⟨?_, by simpa using h.frames, fun seg hseg => ?_⟩
  · unfold Scan.close
    split
    · exact h.run
    · exact .of_head rfl
  · rw [close_segments] at hseg
    split at hseg
    · exact h.segments seg hseg
    · rcases List.mem_cons.mp hseg with rfl | hseg
      · exact hP.toSegment h.run ending
      · exact h.segments seg hseg

theorem newline (following : Option Nat) : (s.newline tokens following i).Led P s.partners := by
  have hlooked : (continues tokens s following).1.Led P s.partners := by
    rcases continues_run s following with hrun | hrun <;> rw [hrun]
    · exact h.run
    · exact (hP.classify h.run).1
  unfold Scan.newline
  split
  · simp only
    split
    · exact h.with_run hlooked
    · exact close (s := { s with run := (continues tokens s following).1 }) hP
        (h.with_run hlooked) _
  · exact h

theorem closeGroup (mark : Char) : (s.closeGroup mark i).Led P s.partners := by
  unfold Scan.closeGroup
  split
  · next hfound =>
    obtain ⟨-, hsub⟩ := groupOpener?_spec hfound
    exact { push hP h i with frames := fun frame hframe => h.frames frame (hsub hframe) }
  · exact push hP h i

theorem openBrace : (s.openBrace tokens i).Led P s.partners := by
  have hlooked (found : Run × Head)
      (hfound : found = if s.groupDepth = 0 ∧ !s.run.isEmpty then classify tokens s.partners s.run
        else (s.run, noHead)) : found.1.Led P s.partners := by
    subst hfound
    split
    · exact (hP.classify h.run).1
    · exact h.run
  unfold Scan.openBrace
  generalize hfound : (if s.groupDepth = 0 ∧ !s.run.isEmpty then classify tokens s.partners s.run
    else (s.run, noHead)) = found
  have hrun := hlooked found hfound.symm
  simp only
  split
  · refine ⟨.of_head rfl, ?_, ?_⟩
    · exact List.forall_mem_cons.mpr ⟨trivial, h.frames⟩
    · simp only
      split
      · exact h.segments
      · exact List.forall_mem_cons.mpr ⟨hP.toSegment hrun _, h.segments⟩
  · exact ⟨.of_head rfl, List.forall_mem_cons.mpr ⟨hP.push_run hrun i, h.frames⟩, h.segments⟩

theorem closeBrace : (s.closeBrace tokens i).Led P s.partners := by
  unfold Scan.closeBrace
  split
  · exact push hP h i
  · next frame below hfound =>
    obtain ⟨hframe, -, hsub⟩ := braceOpener?_spec hfound
    have hclosed := close hP h { boundary := some i }
    have hbelow : ∀ f ∈ below, f.Led P s.partners := fun f hf => h.frames f (hsub hf)
    simp only
    split
    · exact ⟨hP.push_run (h.frames _ hframe) i, hbelow, hclosed.segments⟩
    · exact ⟨.of_head rfl, hbelow, hclosed.segments⟩

theorem terminator : (s.terminator tokens i).Led P s.partners := by
  have hrun := (hP.classify h.run).1
  unfold Scan.terminator
  simp only
  split
  · exact h.with_run (hP.push_run hrun i)
  · exact close (s := { s with run := (classify tokens s.partners s.run).1 }) hP
      (h.with_run hrun) _

theorem significant (t : Token) : (s.significant tokens end_ t i).Led P s.partners := by
  have hpush := push hP h i
  unfold Scan.significant
  split_ifs
  · exact { hpush with frames := List.forall_mem_cons.mpr ⟨trivial, h.frames⟩ }
  · exact { hpush with frames := List.forall_mem_cons.mpr ⟨trivial, h.frames⟩ }
  · exact closeGroup hP h _
  · exact closeGroup hP h _
  · exact openBrace hP h
  · exact closeBrace hP h
  · exact terminator hP h
  · exact close (s := { s with run := s.run.push i }) hP hpush _
  · exact h.with_run hpush.run

end

/-- One step of the scan. -/
theorem step (hP : Lasting tokens P) (h : s.Led P s.partners) (hn : s.Nested tokens i)
    (ht : tokens[i]? = some t) (following : Nat → Option Nat) :
    (s.step tokens end_ following i t).Led P (s.step tokens end_ following i t).partners := by
  refine grow hP (hn.grows ht (@step_spec tokens end_ i t s following)).kept ?_
  let noted : Scan := { s with nesting := s.nesting.push s.stack.length }
  have hnoted : noted.Led P noted.partners := { h with }
  unfold Scan.step
  simp only
  split_ifs
  · exact newline hP hnoted _
  · exact hnoted
  · exact significant hP hnoted t

theorem start : Led P partners { partners } := ⟨.of_head rfl, by simp, by simp⟩

end Led

theorem before_led {list : List Token} {k : Nat} (hP : Lasting list.toArray P)
    (hk : k ≤ list.length) :
    (before list end_ k).Led P (before list end_ k).partners :=
  (before_induction (P := fun s i => s.Nested list.toArray i ∧ s.Led P s.partners) list end_
    ⟨.start, .start⟩
    (fun _ _ _ following h ht => ⟨h.1.step ht following, h.2.step hP h.1 ht following⟩) hk).2

end Scan

/-! ### Words that last -/

/-- The leading word stands in its run. -/
theorem lasting_leads (tokens : Array Token) :
    Lasting tokens fun _ indices head => Leads tokens indices head where
  found := leads_of_head?
  push := by
    rintro - indices head i ⟨k, t, hk, h⟩
    refine ⟨k, t, ?_, h⟩
    rwa [List.getElem?_append_left (List.getElem?_eq_some_iff.mp hk).1]
  grow := fun _ h => h

/-- The word of a control structure is what a lookup would find at any later time. -/
theorem lasting_control (tokens : Array Token) :
    Lasting tokens fun partners indices head =>
      head.kind = .controlHeader → head? tokens partners indices = some head where
  found := fun h _ => h
  push := fun i h hkind => ((head?_append_iff hkind).mpr (h hkind)).1
  grow := by
    rintro partners partners' indices head hgrow h hkind
    obtain ⟨i, rest, t, hfrom, ht, rfl⟩ := head?_eq_some.mp (h hkind)
    refine head?_eq_some.mpr ⟨i, rest, t, fromHead_grow hgrow hfrom fun hmark => ?_, ht, rfl⟩
    rw [tokenIs_of_getElem? ht] at hmark
    have hword := kindOf_eq_controlHeader.mp hkind
    simp_all [Lexeme.isMark, Lexeme.isPunct, Lexeme.isKeyword]

theorem ofTokens_led {list : List Token} {end_ : Text} (hP : Lasting list.toArray P) {seg : Segment}
    (hseg : seg ∈ (Outline.ofTokens list end_).segments) :
    seg.Led P (Outline.ofTokens list end_).partners := by
  have h := @Scan.before_led P end_ list list.length hP (Nat.le_refl _)
  rw [Scan.before_length] at h
  rw [ofTokens_partners]
  exact (Scan.Led.close hP h { boundary := none }).segments seg
    ((ofTokens_segments_perm list end_).mem_iff.mp hseg)

/-! ### The word that a run ends with -/

namespace Scan

variable {s : Scan} {head : Head} {end_ : Text}

/-- The leading word of the run, if it were to end here. -/
def headOf (tokens : Array Token) (s : Scan) : Head := (classify tokens s.partners s.run).2

theorem headOf_of_head (h : s.run.head = some head) : headOf tokens s = head := by
  rw [headOf, classify, h]

theorem head?_of_headOf {list : List Token} {k : Nat} (hk : k ≤ list.length)
    (hhead : headOf list.toArray (before list end_ k) = head) (hkind : head.kind = .controlHeader) :
    head? list.toArray (before list end_ k).partners (before list end_ k).run.indices.toList =
      some head := by
  have hled := (@before_led _ end_ list k (lasting_control list.toArray) hk).run
  cases hfound : (before list end_ k).run.head with
  | some found =>
    obtain rfl := (headOf_of_head hfound).symm.trans hhead
    exact hled found hfound hkind
  | none =>
    rw [headOf, classify, hfound] at hhead
    cases hlooked : head? list.toArray (before list end_ k).partners
        (before list end_ k).run.indices.toList with
    | some found =>
      rw [hlooked] at hhead
      exact congrArg some hhead
    | none =>
      rw [hlooked] at hhead
      subst hhead
      cases hkind

theorem headOf_eq (hcached : ∀ found ∈ s.run.head, found = head)
    (hfound : head? tokens s.partners s.run.indices.toList = some head) : headOf tokens s = head := by
  cases hhead : s.run.head with
  | some found =>
    rw [headOf_of_head hhead]
    exact hcached found hhead
  | none => rw [headOf, classify, hhead, hfound]

theorem headOf_congr {r : Scan} (h : r.bare = s.bare) : headOf tokens r = headOf tokens s := by
  change headOf tokens r.bare = headOf tokens s.bare
  rw [h]

end Scan

end Outline
end HouseStyle
