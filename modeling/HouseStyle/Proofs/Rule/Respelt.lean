import HouseStyle.Proofs.Rule.Settled

/-! The last fix of a marker, made. The words in front of it stay as they are, its own word settles, and
the words behind it need no fix, wherever they stand then. -/

namespace HouseStyle

namespace Rule.Markers

variable {markers : List Text} {w u t x x' : Text} {base base' offset offset' : Nat}
  {before before' : Option Sym}

/-! ### Word by word -/

theorem remark?_no_fix {m m' : Match} (h : ∀ r ∈ (remark? base m).toList, r.fix = none)
    (hword : m'.word = m.word) (hcolon : m'.colon = m.colon) :
    ∀ r ∈ (remark? base' m').toList, r.fix = none := by
  intro r hr
  simp only [Option.mem_toList, remark?, hword, hcolon] at h hr
  split_ifs at h hr with hdone hupper hcolon
  · cases hr
    rfl
  · exact absurd (h _ rfl) (Option.some_ne_none _)
  · exact absurd (h _ rfl) (Option.some_ne_none _)

section

variable (hwords : AreWords markers)
include hwords

/-- Where the words of a text need no fix, they need none elsewhere. -/
theorem Settles.no_fix (h : Settles markers x x') (hbefore : onWord x.head? → onWord before = false)
    (hbefore' : onWord x.head? → onWord before' = false)
    (hnone : ∀ r ∈ remarksFrom markers base offset before x, r.fix = none) :
    ∀ r ∈ remarksFrom markers base' offset' before' x, r.fix = none := by
  induction h generalizing offset offset' before before' with
  | nil => simp [remarksFrom_nil hwords]
  | plain hs h ih =>
    rw [remarksFrom_plain hwords hs] at hnone ⊢
    have hs : onWord (some _) = false := hs
    exact ih (fun _ => hs) (fun _ => hs) hnone
  | @word w t t' hne hw ht h ih =>
    have hhead := onWord_head? hne hw t
    have hafter {s : Option Sym} : onWord t.head? → onWord s = false := fun hword => by
      rw [ht] at hword
      cases hword
    rw [remarksFrom_word hwords (hbefore hhead) hne hw ht, List.forall_mem_append] at hnone
    rw [remarksFrom_word hwords (hbefore' hhead) hne hw ht, List.forall_mem_append]
    refine ⟨?_, ih hafter hafter hnone.2⟩
    split_ifs at hnone ⊢ with hnamed
    · exact remark?_no_fix hnone.1 rfl rfl
    · exact hnone.1

/-- Words that end in front of a text are found there as they are without it. -/
theorem Settles.remarksFrom_append (h : Settles markers u x')
    (hbefore : onWord u.head? → onWord before = false) (hlast : u ≠ [] → onWord u.getLast? = false)
    (t : Text) : remarksFrom markers base offset before (u ++ t) =
      remarksFrom markers base offset before u ++
        remarksFrom markers base (offset + u.length) (u.getLast?.or before) t := by
  induction h generalizing offset before with
  | nil => simp [remarksFrom_nil hwords]
  | @plain s u u' hs h ih =>
    have hrest := @ih (offset + 1) (some s) (fun _ => hs) (fun hne => by
      have := hlast (List.cons_ne_nil s u)
      rwa [List.getLast?_cons_of_ne_nil hne] at this)
    rw [List.cons_append, remarksFrom_plain hwords hs, remarksFrom_plain hwords hs, hrest,
      List.length_cons, List.getLast?_cons]
    congr 2
    · omega
    · cases u.getLast? <;> rfl
  | @word w u u' hne hw hu h ih =>
    have hune : u ≠ [] := by
      rintro rfl
      have := hlast (by simpa using hne)
      rw [List.append_nil, onWord_getLast? hne hw] at this
      cases this
    have hhead : (u ++ t).head? = u.head? := by
      obtain ⟨s, v, rfl⟩ := List.exists_cons_of_ne_nil hune
      rfl
    have hafter : onWord u.head? → onWord w.getLast? = false := fun hword => by
      rw [hu] at hword
      cases hword
    have hlast' : onWord u.getLast? = false := by
      have := hlast (by simp [hne])
      rwa [List.getLast?_append_of_ne_nil _ hune] at this
    have hword := hbefore (onWord_head? hne hw u)
    rw [List.append_assoc, remarksFrom_word hwords hword hne hw (hhead ▸ hu),
      remarksFrom_word hwords hword hne hw hu, ih hafter (fun _ => hlast'), hhead, List.append_assoc,
      List.length_append, List.getLast?_append_of_ne_nil _ hune]
    congr 3
    · omega
    · rw [List.getLast?_eq_some_getLast hune]
      rfl

/-- A match is a whole word of the text. -/
theorem Settles.exists_word (h : Settles markers x x') {m : Match}
    (hbefore : onWord x.head? → onWord before = false)
    (hm : m ∈ matchesFrom markers offset before 0 x) : ∃ u w t, x = u ++ w ++ t ∧
      (u ≠ [] → onWord u.getLast? = false) ∧ w ≠ [] ∧ (∀ s ∈ w, s.isWord) ∧
      onWord t.head? = false ∧ names markers w ∧
      m = ⟨offset + u.length, w, t.head? = some (.char ':')⟩ := by
  induction h generalizing offset before with
  | nil =>
    rw [matchesFrom, matchesAt_eq_nil hwords fun hword => by cases hword] at hm
    cases hm
  | @plain s t t' hs h ih =>
    rw [matchesFrom_plain hwords hs] at hm
    have hs : onWord (some s) = false := hs
    obtain ⟨u, w, v, rfl, hlast, hne, hw, hv, hnamed, rfl⟩ := ih (fun _ => hs) hm
    refine ⟨s :: u, w, v, rfl, fun _ => ?_, hne, hw, hv, hnamed, ?_⟩
    · cases u with
      | nil => exact hs
      | cons c u =>
        rw [List.getLast?_cons_of_ne_nil (List.cons_ne_nil c u)]
        exact hlast (List.cons_ne_nil c u)
    · rw [List.length_cons]
      congr 1
      omega
  | @word w t t' hne hw ht h ih =>
    rw [matchesFrom_word hwords (hbefore (onWord_head? hne hw t)) hne hw ht] at hm
    rcases List.mem_append.mp hm with hm | hm
    · split_ifs at hm with hnamed
      · exact ⟨[], w, t, rfl, fun h => absurd rfl h, hne, hw, ht, hnamed, List.mem_singleton.mp hm⟩
      · cases hm
    · obtain ⟨u, v, t'', rfl, hlast, hvne, hv, ht'', hnamed, rfl⟩ := ih (fun hword => by
        rw [ht] at hword
        cases hword) hm
      have hune : u ≠ [] := by
        rintro rfl
        rw [List.nil_append, onWord_head? hvne hv] at ht
        cases ht
      refine ⟨w ++ u, v, t'', by simp, fun _ => ?_, hvne, hv, ht'', hnamed, ?_⟩
      · rw [List.getLast?_append_of_ne_nil _ hune]
        exact hlast hune
      · rw [List.length_append]
        congr 1
        omega

/-- The last fix of a text settles its word, and leaves the others as they are. -/
theorem exists_settled_word {r : Remark} {e : Fix} (hr : r ∈ remarksFrom markers base 0 none x)
    (he : r.fix = some e)
    (hlast : ∀ r' ∈ remarksFrom markers base 0 none x, ∀ fix, r'.fix = some fix → fix ≠ e →
      e.span.Follows fix.span) :
    ∃ u w t, x = u ++ w ++ t ∧ e.span.start = base + u.length ∧
      e.span.stop = base + u.length + w.length ∧ w ≠ [] ∧ (∀ s ∈ w, s.isWord) ∧
      (e.insertion ≠ [] ∧ ∀ s ∈ e.insertion, s.isInert) ∧
      ∀ fix, (∃ r ∈ remarksFrom markers base 0 none (u ++ e.insertion ++ t), r.fix = some fix) ↔
        (∃ r ∈ remarksFrom markers base 0 none x, r.fix = some fix) ∧ fix ≠ e := by
  obtain ⟨m, hm, hremark⟩ := List.mem_filterMap.mp hr
  obtain ⟨x', hx⟩ := exists_settles markers x
  obtain ⟨u, w, t, rfl, hu, hne, hw, ht, hnamed, rfl⟩ := hx.exists_word hwords (fun _ => rfl) hm
  obtain ⟨u', hsettles⟩ := exists_settles markers u
  obtain ⟨t', htsettles⟩ := exists_settles markers t
  have hbefore : onWord (u.getLast?.or none) = false := by
    rw [Option.or_none]
    cases u with
    | nil => rfl
    | cons s u => exact hu (List.cons_ne_nil s u)
  have hinert : ∀ s ∈ w, s.isInert := fun s hs => Sym.isInert_of_isWord (hw s hs)
  obtain ⟨fix, hfix, hstart, hstop, hinsertion⟩ := (@remark?_fix _ base _ hnamed).resolve_left
    fun hnone => by
      have := hnone.1
      rw [hremark, Option.bind_some, he] at this
      cases this
  rw [hremark, Option.bind_some, he] at hfix
  obtain rfl := Option.some.inj hfix
  simp only [Nat.zero_add] at hstart hstop
  have hnew : e.insertion ≠ [] ∧ ∀ s ∈ e.insertion, s.isInert := by
    rw [hinsertion]
    rcases settled_cases markers w (t.head? = some (.char ':')) with
      heq | ⟨-, -, heq⟩ | ⟨-, -, -, heq⟩ <;> rw [heq]
    · exact ⟨hne, hinert⟩
    · exact Text.upper_isInert hne hinert
    · refine ⟨by simp [hne], fun s hs => ?_⟩
      rcases List.mem_append.mp hs with hs | hs
      · exact hinert s hs
      · rw [List.mem_singleton.mp hs]
        decide
  -- The words of the text, those of the new one, and no fix behind the last one.
  have hold : remarksFrom markers base 0 none (u ++ w ++ t) = remarksFrom markers base 0 none u ++
      (r :: remarksFrom markers base (0 + u.length + w.length) w.getLast? t) := by
    rw [List.append_assoc, hsettles.remarksFrom_append hwords (fun _ => rfl) hu,
      remarksFrom_word hwords hbefore hne hw ht, if_pos hnamed, hremark]
    rfl
  obtain ⟨rs, o, b, hsettled, hdone, -⟩ := @remarksFrom_settled markers w t 0 _ hwords base base
    (0 + u.length) hbefore hne hw ht
  have hnow : remarksFrom markers base 0 none (u ++ e.insertion ++ t) =
      remarksFrom markers base 0 none u ++ (rs ++ remarksFrom markers base o b t) := by
    rw [List.append_assoc, hsettles.remarksFrom_append hwords (fun _ => rfl) hu, hinsertion, hsettled]
  have hafter {s : Option Sym} : onWord t.head? → onWord s = false := fun hword => by
    rw [ht] at hword
    cases hword
  have hrest : ∀ r ∈ remarksFrom markers base (0 + u.length + w.length) w.getLast? t, r.fix = none := by
    intro r' hr'
    by_contra hsome
    obtain ⟨fix, hfix⟩ := Option.ne_none_iff_exists'.mp hsome
    obtain ⟨hbehind, -⟩ := bounds_of_mem hwords hr' hfix
    have hpos := List.length_pos_of_ne_nil hne
    have hfollows := (hlast r' (hold ▸ List.mem_append_right _ (List.mem_cons_of_mem _ hr')) fix
      hfix (by rintro rfl; omega)).1
    omega
  have hrest' : ∀ r ∈ remarksFrom markers base o b t, r.fix = none :=
    htsettles.no_fix hwords hafter hafter hrest
  refine ⟨u, w, t, rfl, hstart, hstop, hne, hw, hnew, fun fix => ?_⟩
  rw [hold, hnow]
  constructor
  · rintro ⟨r', hr', hfix⟩
    rcases List.mem_append.mp hr' with hr' | hr'
    · refine ⟨⟨r', by simp [hr'], hfix⟩, ?_⟩
      intro heq
      have := bounds_of_mem hwords hr' hfix
      rw [heq] at this
      omega
    · rcases List.mem_append.mp hr' with hr' | hr'
      · rw [hdone r' hr'] at hfix
        cases hfix
      · rw [hrest' r' hr'] at hfix
        cases hfix
  · rintro ⟨⟨r', hr', hfix⟩, hfixne⟩
    rcases List.mem_append.mp hr' with hr' | hr'
    · exact ⟨r', by simp [hr'], hfix⟩
    · rcases List.mem_cons.mp hr' with rfl | hr'
      · exact absurd (Option.some.inj (hfix.symm.trans he)) hfixne
      · rw [hrest r' hr'] at hfix
        cases hfix

end

end Rule.Markers

end HouseStyle
