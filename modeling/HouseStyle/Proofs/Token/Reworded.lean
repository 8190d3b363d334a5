import HouseStyle.Proofs.Token.Scanners

/-! Comments in other words. Words of symbols that neither end a line nor open or close a comment
may be replaced: the comment ends where it did. -/

namespace HouseStyle

/-- Symbols that neither end a line nor open or close a comment or a name. -/
def Sym.isInert (s : Sym) : Bool := !(s.isBreak || s.is '/' || s.is '*' || s.is '\x60')

/-- Texts that differ in words of inert symbols. -/
inductive Reworded : Text → Text → Prop
  | nil : Reworded [] []
  | keep (s : Sym) {t t' : Text} (h : Reworded t t') : Reworded (s :: t) (s :: t')
  | word {w w' t t' : Text} (hw : w ≠ []) (hw' : w' ≠ []) (hinert : ∀ s ∈ w, s.isInert)
    (hinert' : ∀ s ∈ w', s.isInert) (h : Reworded t t') : Reworded (w ++ t) (w' ++ t')

namespace Reworded

variable {t t' : Text}

theorem refl (t : Text) : Reworded t t := by
  induction t with
  | nil => exact .nil
  | cons s t ih => exact .keep s ih

theorem eq_nil_iff (h : Reworded t t') : t = [] ↔ t' = [] := by
  cases h with
  | nil => simp
  | keep s h => simp
  | word hw hw' _ _ _ => simp [hw, hw']

theorem ne_of_isInert {s : Sym} (h : s.isInert) {c : Char} (hc : (Sym.char c).isInert = false) :
    s ≠ .char c := by
  rintro rfl
  rw [hc] at h
  cases h

/-- What follows a symbol in a reworded text: the reworded rest, or inert symbols. -/
theorem cons_cases {s : Sym} (h : Reworded (s :: t) t') :
    (∃ r, t' = s :: r ∧ Reworded t r) ∨
      (s.isInert ∧ ∃ w' r, t' = w' ++ r ∧ w' ≠ [] ∧ (∀ c ∈ w', c.isInert) ∧
        (Reworded t r ∨ Reworded t t')) := by
  generalize hst : s :: t = u at h
  cases h with
  | nil => cases hst
  | keep c h =>
    cases hst
    exact .inl ⟨_, rfl, h⟩
  | @word w w' r r' hw hw' hinert hinert' h =>
    obtain ⟨c, w, rfl⟩ := List.exists_cons_of_ne_nil hw
    rw [List.cons_append, List.cons.injEq] at hst
    obtain ⟨rfl, rfl⟩ := hst
    refine .inr ⟨hinert s (by simp), w', r', rfl, hw', hinert', ?_⟩
    by_cases hnil : w = []
    · subst hnil
      exact .inl h
    · exact .inr (.word hnil hw' (fun c hc => hinert c (by simp [hc])) hinert' h)

theorem of_not_isInert {s : Sym} (hs : s.isInert = false) (h : Reworded (s :: t) t') :
    ∃ r, t' = s :: r ∧ Reworded t r := by
  rcases h.cons_cases with hkeep | ⟨hinert, -⟩
  · exact hkeep
  · rw [hs] at hinert
    cases hinert

theorem head_of_not_isInert {s c : Sym} (h : Reworded (s :: t) (c :: t')) (hc : c.isInert = false) :
    s = c := by
  rcases h.cons_cases with ⟨r, hr, -⟩ | ⟨-, w', r, hr, hw', hinert, -⟩
  · rw [List.cons.injEq] at hr
    exact hr.1.symm
  · obtain ⟨d, w', rfl⟩ := List.exists_cons_of_ne_nil hw'
    rw [List.cons_append, List.cons.injEq] at hr
    rw [hr.1, hinert d (by simp)] at hc
    cases hc

theorem all_not_isBreak (h : Reworded t t') (ht : ∀ s ∈ t, s.isBreak = false) :
    ∀ s ∈ t', s.isBreak = false := by
  induction h with
  | nil => exact ht
  | keep s h ih =>
    intro c hc
    rcases List.mem_cons.mp hc with rfl | hc
    · exact ht c (by simp)
    · exact ih (fun c hc => ht c (by simp [hc])) c hc
  | word hw hw' hinert hinert' h ih =>
    intro c hc
    rcases List.mem_append.mp hc with hc | hc
    · have := hinert' c hc
      simp only [Sym.isInert, Bool.not_eq_true', Bool.or_eq_false_iff] at this
      exact this.1.1.1
    · exact ih (fun c hc => ht c (by simp [hc])) c hc

end Reworded

namespace Literal

/-- An inert symbol neither opens nor closes a comment. -/
theorem commentEnd?_inert {s : Sym} (h : s.isInert) (depth taken : Nat) (t : Text) :
    commentEnd? depth taken (s :: t) = commentEnd? depth (taken + 1) t := by
  have hslash := Reworded.ne_of_isInert h (c := '/') (by decide)
  have hstar := Reworded.ne_of_isInert h (c := '*') (by decide)
  cases t with
  | nil => simp [commentEnd?]
  | cons c t =>
    rw [commentEnd?]
    · exact fun hs => absurd hs hslash
    · exact fun hs => absurd hs hstar

theorem commentEnd?_inerts {w : Text} (h : ∀ s ∈ w, s.isInert) (depth taken : Nat) (t : Text) :
    commentEnd? depth taken (w ++ t) = commentEnd? depth (taken + w.length) t := by
  induction w generalizing taken with
  | nil => rfl
  | cons s w ih =>
    rw [List.cons_append, commentEnd?_inert (h s (by simp)), ih fun c hc => h c (by simp [hc]),
      List.length_cons]
    congr 1
    omega

/-- A block comment in other words closes where it did, that is at the end of the text or not at
all. -/
theorem commentEnd?_reworded {depth taken : Nat} {t : Text}
    (h : ∀ n, commentEnd? depth taken t = some n → n = taken + t.length) {t' : Text}
    (ht : Reworded t t') (taken' : Nat) : commentEnd? depth taken' t' =
      (commentEnd? depth taken t).map fun _ => taken' + t'.length := by
  fun_induction commentEnd? depth taken t generalizing t' taken' with
  | case1 depth taken =>
    rw [ht.eq_nil_iff.mp rfl]
    rfl
  | case2 depth taken s =>
    rcases ht.cons_cases with ⟨r, rfl, hr⟩ | ⟨-, w', r, rfl, hw', hinert, hr | hr⟩
    · rw [hr.eq_nil_iff.mp rfl]
      rfl
    · rw [hr.eq_nil_iff.mp rfl, commentEnd?_inerts hinert]
      rfl
    · exact absurd (List.append_eq_nil_iff.mp (hr.eq_nil_iff.mp rfl)).1 hw'
  | case3 depth taken rest ih =>
    obtain ⟨r, rfl, hslash⟩ := ht.of_not_isInert (by decide)
    obtain ⟨r, rfl, hr⟩ := hslash.of_not_isInert (by decide)
    rw [commentEnd?, ih (fun n hn => ?_) hr]
    · simp only [List.length_cons]
      congr 1
      funext
      omega
    · have := h n hn
      simp only [List.length_cons] at this
      omega
  | case4 depth taken rest hdepth =>
    obtain ⟨r, rfl, hslash⟩ := ht.of_not_isInert (by decide)
    obtain ⟨r, rfl, hr⟩ := hslash.of_not_isInert (by decide)
    have hlength := h _ rfl
    simp only [List.length_cons] at hlength
    have hrest : rest = [] := List.eq_nil_of_length_eq_zero (by omega)
    rw [hr.eq_nil_iff.mp hrest]
    simp [commentEnd?, hdepth]
  | case5 depth taken rest hdepth ih =>
    obtain ⟨r, rfl, hslash⟩ := ht.of_not_isInert (by decide)
    obtain ⟨r, rfl, hr⟩ := hslash.of_not_isInert (by decide)
    rw [commentEnd?, if_neg hdepth, ih (fun n hn => ?_) hr]
    · simp only [List.length_cons]
      congr 1
      funext
      omega
    · have := h n hn
      simp only [List.length_cons] at this
      omega
  | case6 depth taken x s rest h1 h2 ih =>
    have hlength (n : Nat) (hn : commentEnd? depth (taken + 1) (s :: rest) = some n) :
        n = taken + 1 + (s :: rest).length := by
      have := h n hn
      simp only [List.length_cons] at this ⊢
      omega
    rcases ht.cons_cases with ⟨r, rfl, hr⟩ | ⟨-, w', r, rfl, hw', hinert, hr | hr⟩
    · obtain ⟨c, r, rfl⟩ := List.exists_cons_of_ne_nil fun hnil => by cases hr.eq_nil_iff.mpr hnil
      have hhead (d : Char) (hd : (Sym.char d).isInert = false) (hc : c = .char d) :
          s = .char d := by
        subst hc
        exact hr.head_of_not_isInert hd
      rw [commentEnd?, ih hlength hr]
      · simp only [List.length_cons]
        congr 1
        funext
        omega
      · exact fun hx hc => h1 hx (hhead '*' (by decide) hc)
      · exact fun hx hc => h2 hx (hhead '/' (by decide) hc)
    · rw [commentEnd?_inerts hinert, ih hlength hr]
      simp only [List.length_append]
      congr 1
      funext
      omega
    · exact ih hlength hr taken'

end Literal

end HouseStyle
