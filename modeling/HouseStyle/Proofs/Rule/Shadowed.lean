import HouseStyle.Proofs.Outline.Within
import HouseStyle.Proofs.Rule.Crowded
import HouseStyle.Rule.Members

/-! Names that shadow properties. A declaration inside the body of a member binds names, and the rule
on `self` takes for local what stands right behind `var` or `let`. The scan for the names of a
declaration finds one there or right behind a comma. So a name that no comma introduces is never
remarked on in the body; the rule does not look behind commas. -/

namespace HouseStyle

open Outline

namespace Outline

/-! ### Where bound names stand -/

/-- In a list in order one thing only stands right before another one. -/
theorem before_of_adjacent {P : Nat → Prop} {row : List Nat} (hsorted : row.Pairwise (· < ·))
    {p j : Nat} (hadj : [p, j] <:+: row)
    (h : row.head? = some j ∨ ∃ c, [c, j] <:+: row ∧ P c) : P p := by
  have hlt {c : Nat} (hadj : [c, j] <:+: row) : c < j :=
    List.rel_of_pairwise_cons (hsorted.sublist hadj.sublist) (by simp)
  have hpj := hlt hadj
  rcases h with hfirst | ⟨c, hc, hP⟩
  · obtain ⟨rest, rfl⟩ := List.head?_eq_some_iff.mp hfirst
    rcases List.mem_cons.mp (mem_of_adjacent hadj).1 with rfl | hp
    · exact absurd hpj (lt_irrefl _)
    · exact absurd hpj (List.rel_of_pairwise_cons hsorted hp).asymm
  · have hcj := hlt hc
    have := le_or_le_of_adjacent hsorted hadj (mem_of_adjacent hc).1
    have := le_or_le_of_adjacent hsorted hc (mem_of_adjacent hadj).1
    obtain rfl : c = p := by omega
    exact hP

section

variable {o : Outline} {b : Binding} {j : Nat} {row : List Nat}

/-- A name that the scan finds is the first token of the row, if a name is due there, or stands right
behind a comma. -/
theorem mem_names (hrow : ∀ i ∈ row, (o.token? i).isSome) (h : j ∈ o.names b row) :
    (o.at_ j fun t => t.kind = .identifier && t.text ≠ "_") ∧
      (b.expectsName ∧ row.head? = some j ∨ ∃ c, [c, j] <:+: row ∧ o.at_ c (·.isMark ',')) := by
  induction row generalizing b with
  | nil => cases h
  | cons i rest ih =>
    obtain ⟨t, ht⟩ := Option.isSome_iff_exists.mp (hrow i List.mem_cons_self)
    have hat (p : Token → Bool) : o.at_ i p = p t := tokenIs_of_getElem? ht
    have hrest {b' : Binding} (h : j ∈ o.names b' rest)
        (hdue : b'.expectsName → o.at_ i (·.isMark ',')) :
        (o.at_ j fun t => t.kind = .identifier && t.text ≠ "_") ∧
          (b.expectsName ∧ (i :: rest).head? = some j ∨
            ∃ c, [c, j] <:+: i :: rest ∧ o.at_ c (·.isMark ',')) := by
      obtain ⟨hname, ⟨hb, hfirst⟩ | ⟨c, hadj, hcomma⟩⟩ := ih (fun k hk => hrow k (.tail _ hk)) h
      · obtain ⟨rest, rfl⟩ := List.head?_eq_some_iff.mp hfirst
        exact ⟨hname, .inr ⟨i, ⟨[], rest, rfl⟩, hdue hb⟩⟩
      · exact ⟨hname, .inr ⟨c, List.infix_cons hadj, hcomma⟩⟩
    simp only [names, List.filterMap_cons, ht, Option.map_some, namesFrom] at h
    split_ifs at h with hbrace hdue hname hcolon hsign hopen hclose hcomma
    · cases h
    · rcases List.mem_cons.mp h with rfl | h
      · exact ⟨(hat _).trans hname, .inl ⟨hdue, rfl⟩⟩
      · exact hrest h (by simp)
    · exact hrest h (by simp)
    · exact hrest h fun hb => absurd hb hdue
    · exact hrest h fun hb => absurd hb hdue
    · exact hrest h fun hb => absurd hb hdue
    · exact hrest h fun hb => absurd hb hdue
    · rw [Bool.and_eq_true] at hcomma
      exact hrest h fun _ => (hat _).trans hcomma.1
    · exact hrest h fun hb => absurd hb hdue

end

section

variable {list : List Token} {end_ : Text} {s : Segment} {j : Nat}
  (hs : s ∈ (Outline.ofTokens list end_).segments) (hkind : s.kind = .declaration)
include hs hkind

/-- The leading word of a declaration. -/
theorem exists_lead : ∃ t, s.indices[s.lead]? = some s.leadIndex ∧
    list[s.leadIndex]? = some t ∧ t.kind = .keyword ∧ s.keyword = t.text := by
  obtain ⟨i, t, hi, ht, hkeyword, hlead⟩ : Leads list.toArray s.indices s.toHead := by
    refine (ofTokens_led (lasting_leads list.toArray) hs).resolve_left fun hnone => ?_
    rw [show s.kind = noHead.kind from congrArg Head.kind hnone] at hkind
    cases hkind
  have hindex : s.leadIndex = i := by
    rw [Segment.leadIndex, List.getD_eq_getElem?_getD]
    exact congrArg (Option.getD · 0) hi
  refine ⟨t, by rw [hindex]; exact hi, by rw [hindex, ← List.getElem?_toArray]; exact ht, ?_, hkeyword⟩
  rw [show s.kind = kindOf t from hlead, kindOf] at hkind
  split_ifs at hkind with hcontrol hword
  simp only [Lexeme.isKeyword, Bool.and_eq_true, decide_eq_true_eq] at hword
  exact hword.1

/-- A bound name stands right behind `var` or `let` or right behind a comma. -/
theorem bindingNames_spec (hj : j ∈ (Outline.ofTokens list end_).bindingNames s) :
    (["var", "let"] : List Text).contains s.keyword ∧
      (Outline.ofTokens list end_).at_ j (·.kind = .identifier) ∧
      ((Outline.ofTokens list end_).next? s.leadIndex = some j ∨
        ∃ c, (Outline.ofTokens list end_).next? c = some j ∧
          (Outline.ofTokens list end_).at_ c (·.isMark ',')) := by
  obtain ⟨t, hl, ht, hkeyword, -⟩ := exists_lead hs hkind
  have hplain : (Outline.ofTokens list end_).at_ s.leadIndex isBracket = false := by
    have hat : (Outline.ofTokens list end_).at_ s.leadIndex isBracket = isBracket t :=
      tokenIs_of_getElem? (List.getElem?_toArray.trans ht)
    rw [hat]
    exact isBracket_of_kind (by simp [hkeyword])
  have hhead : s.toHead ≠ noHead := fun hnone => by
    rw [show s.kind = noHead.kind from congrArg Head.kind hnone] at hkind
    cases hkind
  have hsuffix := lead_suffix hl
  have hsound := (ofTokens_sound list end_).segments s hs
  have hsorted := hsound.inOrder.pairwise.sublist hsuffix.sublist
  rw [bindingNames] at hj
  split_ifs at hj with hword
  · have hmem := List.mem_filter.mp (mem_of_mem_names hj)
    obtain ⟨hname, hstands⟩ := mem_names (fun i hi => by
      obtain ⟨u, hu, -⟩ := hsound.inOrder.loud i
        (hsuffix.subset (.tail _ (List.mem_filter.mp hi).1))
      exact Option.isSome_iff_exists.mpr ⟨u, hu⟩) hj
    obtain ⟨u, hu, hname⟩ := tokenIs_iff.mp hname
    simp only [Bool.and_eq_true, decide_eq_true_eq] at hname
    refine ⟨hword, tokenIs_iff.mpr ⟨u, hu, decide_eq_true hname.1⟩, ?_⟩
    have hjplain : (Outline.ofTokens list end_).at_ j isBracket = false := by
      rw [show (Outline.ofTokens list end_).at_ j isBracket = isBracket u from
        tokenIs_of_getElem? hu]
      exact isBracket_of_kind (by simp [hname.1])
    obtain ⟨p, hadj, hnext, hlevel⟩ := exists_prev_on_level hs hhead hl hplain hmem.1 hjplain
      (of_decide_eq_true hmem.2)
    rcases List.infix_cons_iff.mp hadj with hfirst | hadj
    · obtain ⟨rfl, -⟩ := List.cons_prefix_cons.mp hfirst
      exact .inl hnext
    · -- On the level of the word the token in front is the last one before the name.
      have hadj := hadj.filter fun i => (Outline.ofTokens list end_).nestingAt i =
        (Outline.ofTokens list end_).nestingAt s.leadIndex
      simp only [List.filter_cons, List.filter_nil, hlevel, of_decide_eq_true hmem.2, decide_true,
        if_true] at hadj
      exact .inr ⟨p, hnext, before_of_adjacent (hsorted.of_cons.filter _) hadj
        (hstands.imp_left And.right)⟩
  · cases hj

end

end Outline

namespace Rule.Members

variable {o : Outline} {bodyOpen bodyClose i j : Nat}

theorem mem_inside : i ∈ inside bodyOpen bodyClose ↔ bodyOpen < i ∧ i < bodyClose := by
  rw [inside, List.mem_range'_1]
  omega

/-- What stands right behind `var` or `let` in a body is local to it. -/
theorem mem_locals (hi : i ∈ inside bodyOpen bodyClose) (hword : o.at_ i (·.isKeyword ["let", "var"]))
    (hnext : o.next? i = some j) (hname : o.at_ j (·.kind = .identifier)) :
    textAt o j ∈ locals o bodyOpen bodyClose := by
  obtain ⟨t, ht, hkind⟩ := tokenIs_iff.mp hname
  refine List.mem_flatMap.mpr ⟨i, hi, ?_⟩
  have htoken : o.token? j = some t := ht
  rw [if_pos hword, hnext]
  simp [identifier?, textAt, htoken, of_decide_eq_true hkind]

/-- What is remarked on in a body is an identifier there, with one of the names. -/
theorem mem_inBody {names : List Text} {r : Remark} (hr : r ∈ inBody o bodyOpen bodyClose names) :
    ∃ i t, o.token? i = some t ∧ r.span = t.span ∧ t.text ∈ names := by
  obtain ⟨i, -, hremark⟩ := List.mem_filterMap.mp hr
  cases ht : o.token? i with
  | none => simp [ht] at hremark
  | some t =>
    simp only [ht] at hremark
    split_ifs at hremark with hfound
    obtain rfl := Option.some.inj hremark
    simp only [Bool.and_eq_true, List.contains_iff_mem] at hfound
    exact ⟨i, t, ht, rfl, hfound.1.2⟩

/-- No identifier with the text of a local is remarked on in a member. -/
theorem not_mem_locals_of_mem_inMember {names : List Text} {member : Segment} {r : Remark}
    (hopen : member.boundary = some bodyOpen) (hclose : o.partner? bodyOpen = some bodyClose)
    (hr : r ∈ inMember o names member) :
    ∃ i t, o.token? i = some t ∧ r.span = t.span ∧ t.text ∉ locals o bodyOpen bodyClose := by
  simp only [inMember, hopen, hclose] at hr
  split_ifs at hr
  · obtain ⟨i, t, ht, hspan, htext⟩ := mem_inBody hr
    obtain ⟨-, hshadowed⟩ := List.mem_filter.mp htext
    refine ⟨i, t, ht, hspan, fun hlocal => ?_⟩
    rw [List.contains_iff_mem.mpr (List.mem_append_right _ hlocal)] at hshadowed
    cases hshadowed
  · cases hr

/-- Of the names that a declaration in the body of a member binds, those behind commas apart, no
identifier is remarked on in the body, in any text: such a name stands right behind `var` or `let`. -/
theorem remarks_spare_bound (text end_ : Text) {member s : Segment} (names : List Text)
    (hs : s ∈ (Outline.ofTokens (tokenize text) end_).segments) (hkind : s.kind = .declaration)
    (hopen : member.boundary = some bodyOpen)
    (hclose : (Outline.ofTokens (tokenize text) end_).partner? bodyOpen = some bodyClose)
    (hbody : bodyOpen < s.first ∧ s.last < bodyClose)
    (hj : j ∈ (Outline.ofTokens (tokenize text) end_).bindingNames s) :
    (∃ c, (Outline.ofTokens (tokenize text) end_).next? c = some j ∧
      (Outline.ofTokens (tokenize text) end_).at_ c (·.isMark ',')) ∨
    (Outline.ofTokens (tokenize text) end_).next? s.leadIndex = some j ∧
      ∀ r ∈ inMember (Outline.ofTokens (tokenize text) end_) names member, ∀ t ∈ tokenize text,
        t.text = textAt (Outline.ofTokens (tokenize text) end_) j → r.span ≠ t.span := by
  obtain ⟨hword, hname, hnext | hcomma⟩ := bindingNames_spec hs hkind hj
  · refine .inr ⟨hnext, fun r hr t ht htext hspan => ?_⟩
    obtain ⟨u, hl, hu, hkeyword, htext'⟩ := exists_lead hs hkind
    have hsound := (ofTokens_sound (tokenize text) end_).segments s hs
    have hlead := List.mem_of_getElem? hl
    have hinside : s.leadIndex ∈ inside bodyOpen bodyClose := by
      have := hsound.first_le hlead
      have := hsound.inOrder.le_getLast hlead hsound.getLast?_eq
      exact mem_inside.mpr (by omega)
    have hlocal := mem_locals hinside
      (tokenIs_iff.mpr ⟨u, List.getElem?_toArray.trans hu, by simp_all [Lexeme.isKeyword, or_comm]⟩)
      hnext hname
    obtain ⟨i, v, hv, hspan', hfree⟩ := not_mem_locals_of_mem_inMember hopen hclose hr
    have hmem : v ∈ tokenize text := List.mem_of_getElem? (List.getElem?_toArray.symm.trans hv)
    have heq := tokenize_eq_of_start ht hmem (congrArg Span.start (hspan.symm.trans hspan'))
    exact hfree (by rwa [← heq, htext])
  · exact .inl hcomma

/-- A local that has the name of a property is used bare. -/
theorem remarks_spare_bound_local :
    let text : Text := "class C\x7bvar b=0\nfunc f()\x7blet b=1\ng(b)\x7d\x7d"
    let o := Outline.ofTokens (tokenize text) ";"
    ∃ member ∈ o.segments, ∃ s ∈ o.segments, s.kind = .declaration ∧ member.boundary = some 15 ∧
      o.partner? 15 = some 26 ∧ (15 < s.first ∧ s.last < 26) ∧ 18 ∈ o.bindingNames s ∧
      ((∃ c, o.next? c = some 18 ∧ o.at_ c (·.isMark ',')) ∨
        o.next? s.leadIndex = some 18 ∧ ∀ r ∈ inMember o ["b"] member, ∀ t ∈ tokenize text,
          t.text = textAt o 18 → r.span ≠ t.span) := by
  intro text o
  have hperm := ofTokens_segments_perm (tokenize text) ";"
  obtain ⟨member, hmember, s, hs, hkind, hopen, hclose, hbody, hj⟩ :
      ∃ member ∈ ((Scan.scanned (tokenize text) ";").close (tokenize text).toArray
          { boundary := none }).segments,
        ∃ s ∈ ((Scan.scanned (tokenize text) ";").close (tokenize text).toArray
          { boundary := none }).segments,
        s.kind = .declaration ∧ member.boundary = some 15 ∧
        o.partner? 15 = some 26 ∧ (15 < s.first ∧ s.last < 26) ∧ 18 ∈ o.bindingNames s := by
    decide +kernel
  replace hs := hperm.mem_iff.mpr hs
  exact ⟨member, hperm.mem_iff.mpr hmember, s, hs, hkind, hopen, hclose, hbody, hj,
    remarks_spare_bound text ";" ["b"] hs hkind hopen hclose hbody hj⟩

end Rule.Members

end HouseStyle
