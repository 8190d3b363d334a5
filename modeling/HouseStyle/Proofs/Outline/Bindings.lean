import HouseStyle.Token.Lexer
import HouseStyle.Proofs.Outline.LeadingWord
import HouseStyle.Proofs.Outline.Levels

/-! The names that a declaration binds. What stands behind `var` or `let` is a list of bindings with
commas between them, each a name with a type or a value or both, and the brackets of a type or of a
value are paired inside it. The scan for names passes over what is inside brackets, but it takes a
colon for the beginning of a type wherever it stands, and it stops at a brace. So a binding hides the
names behind it if it holds a closure outside its groups, or if its value leaves an angle bracket
open behind a colon. No name is missed otherwise. -/

namespace HouseStyle.Outline

/-! ### Rows with their brackets paired -/

section

variable (o : Outline)

/-- Whether every bracket of a row has its partner in the row. -/
def Paired (row : List Nat) : Prop :=
  ∀ m ∈ row, o.at_ m isBracket → ∃ h ∈ row, o.partner? m = some h

instance (row : List Nat) : Decidable (o.Paired row) :=
  inferInstanceAs (Decidable (∀ m ∈ row, o.at_ m isBracket → ∃ h ∈ row, o.partner? m = some h))

/-- The tokens of a row outside its brackets, with the brackets on the outside. -/
def outside (row : List Nat) : List Nat := row.filter fun m => ¬o.Enclosed row m

variable {o} {us vs row : List Nat} {m x : Nat}

theorem mem_of_mem_outside (h : m ∈ o.outside row) : m ∈ row := (List.mem_filter.mp h).1

theorem Paired.append (hu : o.Paired us) (hv : o.Paired vs) : o.Paired (us ++ vs) := by
  intro m hm hbracket
  rcases List.mem_append.mp hm with hm | hm
  · obtain ⟨h, hh, hpartner⟩ := hu m hm hbracket
    exact ⟨h, List.mem_append_left vs hh, hpartner⟩
  · obtain ⟨h, hh, hpartner⟩ := hv m hm hbracket
    exact ⟨h, List.mem_append_right us hh, hpartner⟩

theorem Paired.nil : o.Paired [] := by simp [Paired]

theorem Paired.cons (hx : o.at_ x isBracket = false) (h : o.Paired row) : o.Paired (x :: row) :=
  @Paired.append o [x] row (fun m hm hbracket => by
    rw [List.mem_singleton.mp hm, hx] at hbracket
    cases hbracket) h

end

section

variable {list : List Token} {end_ : Text} {us vs row : List Nat} {x : Nat}

/-- Of two rows in order, with their brackets paired in each, neither is inside the other. -/
theorem outside_append (hu : (Outline.ofTokens list end_).Paired us)
    (hsorted : (us ++ vs).Pairwise (· < ·)) :
    (Outline.ofTokens list end_).outside (us ++ vs) =
      (Outline.ofTokens list end_).outside us ++ (Outline.ofTokens list end_).outside vs := by
  have hlt := (List.pairwise_append.mp hsorted).2.2
  rw [outside, List.filter_append]
  congr 1
  · refine List.filter_congr fun m hm => ?_
    simp only [decide_eq_decide, not_iff_not]
    constructor
    · rintro ⟨g, hg, h, hgh, hgm, hmh⟩
      rcases List.mem_append.mp hg with hg | hg
      · exact ⟨g, hg, h, hgh, hgm, hmh⟩
      · exact absurd (hlt m hm g hg) hgm.asymm
    · rintro ⟨g, hg, h⟩
      exact ⟨g, List.mem_append_left vs hg, h⟩
  · refine List.filter_congr fun m hm => ?_
    simp only [decide_eq_decide, not_iff_not]
    constructor
    · rintro ⟨g, hg, h, hgh, hgm, hmh⟩
      rcases List.mem_append.mp hg with hg | hg
      · obtain ⟨h', hh', hgh'⟩ := hu g hg (isBracket_of_partner hgh)
        obtain rfl := Option.some.inj (hgh'.symm.trans hgh)
        exact absurd (hlt h' hh' m hm) hmh.asymm
      · exact ⟨g, hg, h, hgh, hgm, hmh⟩
    · rintro ⟨g, hg, h⟩
      exact ⟨g, List.mem_append_right us hg, h⟩

theorem outside_cons (hx : (Outline.ofTokens list end_).at_ x isBracket = false)
    (hsorted : (x :: row).Pairwise (· < ·)) :
    (Outline.ofTokens list end_).outside (x :: row) =
      x :: (Outline.ofTokens list end_).outside row := by
  have h := @outside_append list end_ [x] row (Paired.cons hx .nil) hsorted
  rw [List.singleton_append] at h
  rw [h]
  have hself : ¬(Outline.ofTokens list end_).Enclosed [x] x := by
    rintro ⟨g, hg, h, -, hgx, -⟩
    rw [List.mem_singleton.mp hg] at hgx
    exact hgx.false
  simp [outside, hself]

end

/-! ### Bindings -/

/-- A binding as it is written: a name, behind a colon its type and behind an equals sign its value. -/
structure Clause where
  name : Nat
  type : Option (Nat × List Nat) := none
  value : Option (Nat × List Nat) := none
  deriving DecidableEq, Repr

namespace Clause

variable (o : Outline) (c : Clause)

/-- The colon and the type. -/
def typing : List Nat := c.type.elim [] fun (colon, type) => colon :: type

/-- The equals sign and the value. -/
def setting : List Nat := c.value.elim [] fun (sign, value) => sign :: value

def indices : List Nat := c.name :: (c.typing ++ c.setting)

end Clause

section

variable (o : Outline)

/-- Whether angle brackets balance in a row, some being open before it, and commas stand inside
them. -/
def balances : Nat → List Nat → Bool
  | n, [] => n = 0
  | n, i :: row =>
    if o.at_ i (·.isMark '<') then balances (n + 1) row
    else if o.at_ i (·.isMark '>') then 0 < n && balances (n - 1) row
    else (!o.at_ i (·.isMark ',') || 0 < n) && balances n row

/-- A type has its brackets paired, angle brackets among them, and commas inside brackets only. -/
structure IsType (row : List Nat) : Prop where
  paired : o.Paired row
  noSign : ∀ m ∈ o.outside row, o.at_ m (·.isMark '=') = false
  balances : o.balances 0 (o.outside row)

/-- A value is any expression with its brackets paired and commas inside brackets only. -/
structure IsValue (row : List Nat) : Prop where
  paired : o.Paired row
  noComma : ∀ m ∈ o.outside row, o.at_ m (·.isMark ',') = false

/-- What makes a row of tokens a binding: a name other than the wildcard, and a type and a value behind
their marks. -/
structure Clause.WellFormed (c : Clause) : Prop where
  name : o.at_ c.name fun t => t.kind = .identifier && t.text ≠ "_"
  type : ∀ colon row, c.type = some (colon, row) → o.at_ colon (·.isMark ':') ∧ o.IsType row
  value : ∀ sign row, c.value = some (sign, row) → o.at_ sign (·.isMark '=') ∧ o.IsValue row

/-- Bindings with commas between them. -/
inductive Bound : List Nat → List Clause → Prop
  | last (c : Clause) (hc : c.WellFormed o) : Bound c.indices [c]
  | more (c : Clause) (hc : c.WellFormed o) (comma : Nat) (hcomma : o.at_ comma (·.isMark ','))
    {rest : List Nat} {cs : List Clause} (hrest : Bound rest cs) :
    Bound (c.indices ++ comma :: rest) (c :: cs)

/-- How many angle brackets a row leaves open for the scan for names, which counts them behind a colon
and forgets them at an equals sign. -/
def strayAngles : (counts : Bool) → Nat → List Nat → Nat
  | _, n, [] => n
  | counts, n, i :: row =>
    if o.at_ i (·.isMark ':') then strayAngles true n row
    else if o.at_ i (·.isMark '=') then strayAngles false 0 row
    else if counts && o.at_ i (·.isMark '<') then strayAngles counts (n + 1) row
    else if counts && o.at_ i (·.isMark '>') then strayAngles counts (n - 1) row
    else strayAngles counts n row

/-- A binding that hides no name behind it: it has no brace outside its groups, and its value leaves no
angle bracket open. -/
structure Clause.Clear (c : Clause) : Prop where
  noBrace : ∀ m ∈ o.outside (c.typing ++ c.setting), o.at_ m (·.isMark '{') = false
  noAngle : ∀ sign row, c.value = some (sign, row) → o.strayAngles false 0 (o.outside row) = 0

end

/-! ### The scan for names -/

section

variable (o : Outline)

/-- The names that the scan finds in a row. -/
def names (b : Binding) (row : List Nat) : List Nat :=
  namesFrom b (row.filterMap fun i => (o.token? i).map (i, ·))

variable {o} {b : Binding} {i : Nat} {row rest : List Nat}

theorem names_nil : o.names b [] = [] := rfl

/-- Where a name is due, the scan takes it. -/
theorem names_name (hi : o.at_ i fun t => t.kind = .identifier && t.text ≠ "_") :
    o.names {} (i :: row) = i :: o.names { expectsName := false } row := by
  obtain ⟨t, ht, hname⟩ := tokenIs_iff.mp hi
  have hbrace : t.isMark '{' = false := by
    simp only [Bool.and_eq_true, decide_eq_true_eq] at hname
    simp [Lexeme.isMark, Lexeme.isPunct, hname.1]
  have htoken : o.token? i = some t := ht
  simp only [names, List.filterMap_cons, htoken, Option.map_some, namesFrom, hbrace, hname,
    Bool.false_eq_true, if_false, if_true]

/-- Past a name it looks at marks only. -/
theorem names_cons (counts : Bool) (n i : Nat) (row : List Nat) :
    o.names ⟨false, counts, n⟩ (i :: row) =
      if o.at_ i (·.isMark '{') then []
      else if o.at_ i (·.isMark ':') then o.names ⟨false, true, n⟩ row
      else if o.at_ i (·.isMark '=') then o.names ⟨false, false, 0⟩ row
      else if counts && o.at_ i (·.isMark '<') then o.names ⟨false, counts, n + 1⟩ row
      else if counts && o.at_ i (·.isMark '>') then o.names ⟨false, counts, n - 1⟩ row
      else if o.at_ i (·.isMark ',') && n = 0 then o.names ⟨true, false, n⟩ row
      else o.names ⟨false, counts, n⟩ row := by
  have hat (p : Token → Bool) : o.at_ i p = ((o.token? i).map p).getD false := rfl
  simp only [names, List.filterMap_cons, hat]
  cases o.token? i with
  | none => simp
  | some t => simp only [Option.map_some, Option.getD_some, namesFrom, Bool.false_eq_true, if_false]

theorem fst_mem_of_mem_namesFrom {m : Nat} (b : Binding) (word : List (Nat × Token))
    (h : m ∈ namesFrom b word) : ∃ it ∈ word, it.1 = m := by
  induction word generalizing b with
  | nil => cases h
  | cons it word ih =>
    have hrest (b : Binding) (h : m ∈ namesFrom b word) : ∃ it' ∈ it :: word, it'.1 = m := by
      obtain ⟨it', hit, hm⟩ := ih b h
      exact ⟨it', List.mem_cons_of_mem it hit, hm⟩
    simp only [namesFrom] at h
    split_ifs at h
    · cases h
    · rcases List.mem_cons.mp h with rfl | h
      · exact ⟨it, List.mem_cons_self, rfl⟩
      · exact hrest _ h
    all_goals exact hrest _ h

/-- The scan finds names in the row alone. -/
theorem mem_of_mem_names {m : Nat} (h : m ∈ o.names b row) : m ∈ row := by
  obtain ⟨it, hit, rfl⟩ := fst_mem_of_mem_namesFrom b _ h
  obtain ⟨k, hk, htoken⟩ := List.mem_filterMap.mp hit
  obtain ⟨t, -, rfl⟩ := Option.map_eq_some_iff.mp htoken
  exact hk

/-- At most one mark stands at an index. -/
theorem at_isMark_of_ne {c d : Char} (hc : o.at_ i (·.isMark c)) (hne : c ≠ d) :
    o.at_ i (·.isMark d) = false := by
  obtain ⟨t, ht, hmark⟩ := tokenIs_iff.mp hc
  exact (tokenIs_of_getElem? ht).trans (Scan.not_isMark hmark hne)

/-- A comma ends a binding where no angle bracket counts as open. -/
theorem names_comma (hi : o.at_ i (·.isMark ',')) (counts : Bool) (n : Nat) (row : List Nat) :
    o.names ⟨false, counts, n⟩ (i :: row) =
      if n = 0 then o.names {} row else o.names ⟨false, counts, n⟩ row := by
  rw [names_cons]
  by_cases hn : n = 0 <;> simp [hi, hn, at_isMark_of_ne hi]

/-- A name is no mark. -/
theorem names_skip (hi : o.at_ i fun t => t.kind = .identifier && t.text ≠ "_") (counts : Bool)
    (n : Nat) (row : List Nat) :
    o.names ⟨false, counts, n⟩ (i :: row) = o.names ⟨false, counts, n⟩ row := by
  obtain ⟨t, ht, hname⟩ := tokenIs_iff.mp hi
  simp only [Bool.and_eq_true, decide_eq_true_eq] at hname
  have hmark (c : Char) : o.at_ i (·.isMark c) = false := by
    rw [show o.at_ i (·.isMark c) = t.isMark c from tokenIs_of_getElem? ht]
    simp [Lexeme.isMark, Lexeme.isPunct, hname.1]
  simp [names_cons, hmark]

/-! ### Types and values -/

/-- A type is read to its end, unless there is a brace in it. -/
theorem names_type {n : Nat} (hsign : ∀ m ∈ row, o.at_ m (·.isMark '=') = false)
    (hrow : o.balances n row) :
    o.names ⟨false, true, n⟩ (row ++ rest) =
      if row.any (o.at_ · (·.isMark '{')) then [] else o.names ⟨false, true, 0⟩ rest := by
  induction row generalizing n with
  | nil =>
    obtain rfl : n = 0 := by simpa [balances] using hrow
    rfl
  | cons i row ih =>
    obtain ⟨hi, hsign⟩ := List.forall_mem_cons.mp hsign
    rw [List.cons_append, names_cons, List.any_cons, hi]
    simp only [balances] at hrow
    by_cases hopen : o.at_ i (·.isMark '<')
    · rw [if_pos hopen] at hrow
      simp [hopen, at_isMark_of_ne hopen, ih hsign hrow]
    by_cases hclose : o.at_ i (·.isMark '>')
    · rw [if_neg hopen, if_pos hclose, Bool.and_eq_true] at hrow
      simp [hclose, at_isMark_of_ne hclose, ih hsign hrow.2]
    rw [if_neg hopen, if_neg hclose, Bool.and_eq_true] at hrow
    have hcomma : (o.at_ i (·.isMark ',') && decide (n = 0)) = false := by
      have := hrow.1
      cases hi : o.at_ i (·.isMark ',')
      · rfl
      · simp only [hi, Bool.not_true, Bool.false_or, decide_eq_true_eq] at this
        simpa using this.ne'
    simp [hopen, hclose, hcomma, ih hsign hrow.2]
    cases o.at_ i (·.isMark '{') <;> simp

/-- So is a value, and it leaves angle brackets open behind a colon. -/
theorem names_value (rest : List Nat) (hcomma : ∀ m ∈ row, o.at_ m (·.isMark ',') = false)
    (counts : Bool) (n : Nat) :
    ∃ counts', o.names ⟨false, counts, n⟩ (row ++ rest) =
      if row.any (o.at_ · (·.isMark '{')) then []
      else o.names ⟨false, counts', o.strayAngles counts n row⟩ rest := by
  induction row generalizing counts n with
  | nil => exact ⟨counts, rfl⟩
  | cons i row ih =>
    obtain ⟨hi, hcomma⟩ := List.forall_mem_cons.mp hcomma
    simp only [List.cons_append, names_cons, List.any_cons, hi, strayAngles, Bool.false_and]
    by_cases hbrace : o.at_ i (·.isMark '{')
    · exact ⟨counts, by simp [hbrace]⟩
    simp only [hbrace, Bool.false_or, Bool.false_eq_true, if_false]
    by_cases hcolon : o.at_ i (·.isMark ':')
    · simpa only [hcolon, if_true] using ih hcomma true n
    by_cases hsign : o.at_ i (·.isMark '=')
    · simpa only [hcolon, hsign, Bool.false_eq_true, if_false, if_true] using ih hcomma false 0
    simp only [hcolon, hsign, Bool.false_eq_true, if_false]
    by_cases hopen : counts && o.at_ i (·.isMark '<')
    · simpa only [hopen, if_true] using ih hcomma counts (n + 1)
    by_cases hclose : counts && o.at_ i (·.isMark '>')
    · simpa only [hopen, hclose, Bool.false_eq_true, if_false, if_true] using ih hcomma counts (n - 1)
    · simpa only [hopen, hclose, Bool.false_eq_true, if_false] using ih hcomma counts n

end

/-! ### Bindings and what they hide -/

section

variable {list : List Token} {end_ : Text} {c : Clause} {rest : List Nat}

/-- The angle brackets that a binding leaves open. -/
def Clause.stray (o : Outline) (c : Clause) : Nat :=
  c.value.elim 0 fun (_, value) => o.strayAngles false 0 (o.outside value)

theorem Clause.clear_iff (o : Outline) (c : Clause) :
    c.Clear o ↔ (o.outside (c.typing ++ c.setting)).any (o.at_ · (·.isMark '{')) = false ∧
      c.stray o = 0 := by
  constructor
  · rintro ⟨hbrace, hangle⟩
    refine ⟨by simpa using hbrace, ?_⟩
    cases hvalue : c.value with
    | none => simp [stray, hvalue]
    | some found => simpa [stray, hvalue] using hangle found.1 found.2 hvalue
  · rintro ⟨hbrace, hangle⟩
    refine ⟨by simpa using hbrace, fun sign row hvalue => ?_⟩
    simpa [stray, hvalue] using hangle

/-- Marks between the parts of a binding are no brackets. -/
theorem not_isBracket_of_mark {o : Outline} {i : Nat} {c : Char} (hi : o.at_ i (·.isMark c))
    (hc : ∀ pair ∈ brackets, c ≠ pair.1 ∧ c ≠ pair.2) : o.at_ i isBracket = false := by
  obtain ⟨t, ht, hmark⟩ := tokenIs_iff.mp hi
  rw [show o.at_ i isBracket = isBracket t from tokenIs_of_getElem? ht, isBracket, List.any_eq_false]
  intro pair hpair
  simp [Scan.not_isMark hmark (hc pair hpair).1, Scan.not_isMark hmark (hc pair hpair).2]

namespace Clause.WellFormed

variable (hc : c.WellFormed (Outline.ofTokens list end_))
include hc

theorem name_not_isBracket : (Outline.ofTokens list end_).at_ c.name isBracket = false := by
  obtain ⟨t, ht, hname⟩ := tokenIs_iff.mp hc.name
  rw [show (Outline.ofTokens list end_).at_ c.name isBracket = isBracket t from
    tokenIs_of_getElem? ht]
  simp only [Bool.and_eq_true, decide_eq_true_eq] at hname
  simp [isBracket, Lexeme.isMark, Lexeme.isPunct, hname.1]

theorem colon_not_isBracket {colon : Nat} {row : List Nat} (htype : c.type = some (colon, row)) :
    (Outline.ofTokens list end_).at_ colon isBracket = false :=
  not_isBracket_of_mark (hc.type colon row htype).1 (by decide)

theorem sign_not_isBracket {sign : Nat} {row : List Nat} (hvalue : c.value = some (sign, row)) :
    (Outline.ofTokens list end_).at_ sign isBracket = false :=
  not_isBracket_of_mark (hc.value sign row hvalue).1 (by decide)

theorem paired_typing : (Outline.ofTokens list end_).Paired c.typing := by
  unfold typing
  cases htype : c.type with
  | none => exact .nil
  | some found => exact .cons (hc.colon_not_isBracket htype) (hc.type _ _ htype).2.paired

theorem paired_setting : (Outline.ofTokens list end_).Paired c.setting := by
  unfold setting
  cases hvalue : c.value with
  | none => exact .nil
  | some found => exact .cons (hc.sign_not_isBracket hvalue) (hc.value _ _ hvalue).2.paired

theorem paired : (Outline.ofTokens list end_).Paired c.indices :=
  .cons hc.name_not_isBracket (hc.paired_typing.append hc.paired_setting)

theorem names_typing (rest : List Nat) (hsorted : c.typing.Pairwise (· < ·)) :
    ∃ counts, (Outline.ofTokens list end_).names { expectsName := false }
        ((Outline.ofTokens list end_).outside c.typing ++ rest) =
      if ((Outline.ofTokens list end_).outside c.typing).any
          ((Outline.ofTokens list end_).at_ · (·.isMark '{')) then []
      else (Outline.ofTokens list end_).names ⟨false, counts, 0⟩ rest := by
  unfold typing at *
  cases htype : c.type with
  | none => exact ⟨false, rfl⟩
  | some found =>
    obtain ⟨colon, row⟩ := found
    obtain ⟨hcolon, hrow⟩ := hc.type colon row htype
    rw [htype] at hsorted
    rw [Option.elim_some, outside_cons (hc.colon_not_isBracket htype) hsorted, List.cons_append,
      names_cons, names_type hrow.noSign hrow.balances]
    refine ⟨true, ?_⟩
    simp [hcolon, at_isMark_of_ne hcolon]

theorem names_setting (rest : List Nat) (hsorted : c.setting.Pairwise (· < ·)) (counts : Bool) :
    ∃ counts', (Outline.ofTokens list end_).names ⟨false, counts, 0⟩
        ((Outline.ofTokens list end_).outside c.setting ++ rest) =
      if ((Outline.ofTokens list end_).outside c.setting).any
          ((Outline.ofTokens list end_).at_ · (·.isMark '{')) then []
      else (Outline.ofTokens list end_).names
        ⟨false, counts', c.stray (Outline.ofTokens list end_)⟩ rest := by
  unfold setting stray at *
  cases hvalue : c.value with
  | none => exact ⟨counts, rfl⟩
  | some found =>
    obtain ⟨sign, row⟩ := found
    obtain ⟨hsign, hrow⟩ := hc.value sign row hvalue
    rw [hvalue] at hsorted
    rw [Option.elim_some, outside_cons (hc.sign_not_isBracket hvalue) hsorted, List.cons_append,
      names_cons]
    obtain ⟨counts', heq⟩ := names_value rest hrow.noComma false 0
    refine ⟨counts', ?_⟩
    simp [hsign, at_isMark_of_ne hsign, heq]

/-- Behind its name a binding is passed over, unless it holds a brace outside its groups. -/
theorem names_indices (rest : List Nat) (hsorted : c.indices.Pairwise (· < ·)) :
    ∃ counts, (Outline.ofTokens list end_).names {}
        ((Outline.ofTokens list end_).outside c.indices ++ rest) =
      c.name :: if ((Outline.ofTokens list end_).outside (c.typing ++ c.setting)).any
          ((Outline.ofTokens list end_).at_ · (·.isMark '{')) then []
        else (Outline.ofTokens list end_).names
          ⟨false, counts, c.stray (Outline.ofTokens list end_)⟩ rest := by
  have hparts := (List.pairwise_cons.mp hsorted).2
  obtain ⟨htyping, hsetting, -⟩ := List.pairwise_append.mp hparts
  rw [indices, outside_cons hc.name_not_isBracket hsorted, List.cons_append, names_name hc.name,
    outside_append hc.paired_typing hparts, List.append_assoc]
  obtain ⟨counts, heq⟩ := hc.names_typing
    ((Outline.ofTokens list end_).outside c.setting ++ rest) htyping
  obtain ⟨counts', heq'⟩ := hc.names_setting rest hsetting counts
  refine ⟨counts', ?_⟩
  rw [heq, heq', List.any_append]
  cases ((Outline.ofTokens list end_).outside c.typing).any
    ((Outline.ofTokens list end_).at_ · (·.isMark '{')) <;> simp

end Clause.WellFormed

namespace Bound

variable {row : List Nat} {cs : List Clause} (h : (Outline.ofTokens list end_).Bound row cs)
include h

theorem ne_nil : cs ≠ [] := by
  cases h <;> simp

theorem head : ∃ c cs' row', cs = c :: cs' ∧ row = c.name :: row' ∧
    c.WellFormed (Outline.ofTokens list end_) := by
  cases h with
  | last c hc => exact ⟨c, [], _, rfl, rfl, hc⟩
  | more c hc comma hcomma hrest => exact ⟨c, _, _, rfl, rfl, hc⟩

theorem paired : (Outline.ofTokens list end_).Paired row := by
  induction h with
  | last c hc => exact hc.paired
  | more c hc comma hcomma hrest ih =>
    exact hc.paired.append (.cons (not_isBracket_of_mark hcomma (by decide)) ih)

/-- The scan finds all names of a list of bindings if and only if none but the last hides any. -/
theorem names_eq_iff (hsorted : row.Pairwise (· < ·)) :
    (Outline.ofTokens list end_).names {} ((Outline.ofTokens list end_).outside row) =
        cs.map (·.name) ↔
      ∀ c ∈ cs.dropLast, c.Clear (Outline.ofTokens list end_) := by
  induction h with
  | last c hc =>
    obtain ⟨counts, heq⟩ := hc.names_indices [] hsorted
    rw [List.append_nil] at heq
    simp [heq, names_nil]
  | @more c hc comma hcomma rest cs hrest ih =>
    obtain ⟨hfirst, hbehind, -⟩ := List.pairwise_append.mp hsorted
    have hplain := not_isBracket_of_mark hcomma (by decide)
    obtain ⟨counts, heq⟩ := hc.names_indices
      (comma :: (Outline.ofTokens list end_).outside rest) hfirst
    rw [outside_append hc.paired hsorted, outside_cons hplain hbehind, heq, List.map_cons,
      List.cons.injEq, List.dropLast_cons_of_ne_nil hrest.ne_nil, List.forall_mem_cons,
      ← ih (List.pairwise_cons.mp hbehind).2, Clause.clear_iff]
    obtain ⟨d, cs, behind, rfl, rfl, hd⟩ := hrest.head
    have hrest' := (List.pairwise_cons.mp hbehind).2
    cases hbrace : ((Outline.ofTokens list end_).outside (c.typing ++ c.setting)).any
        ((Outline.ofTokens list end_).at_ · (·.isMark '{')) with
    | true => simp
    | false =>
      rw [names_comma hcomma]
      by_cases hstray : c.stray (Outline.ofTokens list end_) = 0
      · simp [hstray]
      · -- The scan passes over the next name and finds only what is behind it.
        rw [if_neg hstray, outside_cons hd.name_not_isBracket hrest', names_skip hd.name]
        simp only [hstray, and_false, false_and, iff_false, true_and]
        intro hfound
        have hmem : d.name ∈ ((d :: cs).map (·.name)) := List.mem_cons_self
        rw [← hfound] at hmem
        have hmem := mem_of_mem_outside (mem_of_mem_names hmem)
        exact (List.rel_of_pairwise_cons hrest' hmem).false

end Bound

/-! ### The names of a declaration -/

/-- For every declaration with `var` or `let` that is a list of bindings, the names found are those of
the bindings, in order, if and only if no binding hides a name behind it. -/
theorem bindingNames_eq_iff {s : Segment} (hs : s ∈ (Outline.ofTokens list end_).segments)
    (hword : (["var", "let"] : List Text).contains s.keyword) {cs : List Clause}
    (hbound : (Outline.ofTokens list end_).Bound (s.indices.drop (s.lead + 1)) cs) :
    (Outline.ofTokens list end_).bindingNames s = cs.map (·.name) ↔
      ∀ c ∈ cs.dropLast, c.Clear (Outline.ofTokens list end_) := by
  have hsound := (ofTokens_sound list end_).segments s hs
  have hhoused := ofTokens_housed list end_ s hs
  obtain ⟨i, t, hi, ht, hkeyword, -⟩ : Leads list.toArray s.indices s.toHead := by
    refine (ofTokens_led (lasting_leads list.toArray) hs).resolve_left fun hnone => ?_
    rw [show s.keyword = noHead.keyword from congrArg Head.keyword hnone] at hword
    exact absurd hword (by decide)
  have hlead : s.leadIndex = i := by
    rw [Segment.leadIndex, List.getD_eq_getElem?_getD]
    exact congrArg (Option.getD · 0) hi
  have hdrop : s.indices.drop s.lead = i :: s.indices.drop (s.lead + 1) := by
    obtain ⟨hlt, rfl⟩ := List.getElem?_eq_some_iff.mp hi
    exact List.drop_eq_getElem_cons hlt
  have hplain : (Outline.ofTokens list end_).at_ i isBracket = false := by
    rw [show (Outline.ofTokens list end_).at_ i isBracket = isBracket t from
      tokenIs_of_getElem? ht, isBracket, List.any_eq_false]
    rw [hkeyword] at hword
    have hwords : ∀ word ∈ (["var", "let"] : List Text), word.length ≠ 1 := by decide
    have hlong := hwords _ (List.contains_iff_mem.mp hword)
    have hmark (c : Char) : t.isMark c = false := by
      by_contra hmark
      simp only [Lexeme.isMark, Lexeme.isPunct, Bool.not_eq_false, Bool.and_eq_true,
        decide_eq_true_eq] at hmark
      exact hlong (by rw [hmark.2]; rfl)
    intro pair _
    simp [hmark]
  have hsuffix := List.drop_suffix s.lead s.indices
  rw [hdrop] at hsuffix
  have hsame : (s.indices.drop (s.lead + 1)).filter
      (fun m => (Outline.ofTokens list end_).nestingAt m =
        (Outline.ofTokens list end_).nestingAt s.leadIndex) =
      (Outline.ofTokens list end_).outside (s.indices.drop (s.lead + 1)) := by
    rw [hlead]
    refine List.filter_congr fun m hm => decide_eq_decide.mpr ?_
    exact nestingAt_row_eq_iff (hhoused.chain.suffix hsuffix)
      (fun k hk => hsound.inOrder.loud k (hsuffix.subset hk)) hplain hbound.paired hm
  have hsorted : (s.indices.drop (s.lead + 1)).Pairwise (· < ·) :=
    hsound.inOrder.pairwise.sublist (List.drop_sublist _ _)
  rw [← hbound.names_eq_iff hsorted, ← hsame, bindingNames, if_pos hword, names]

/-- The comma between the arguments of a type separates no bindings. -/
theorem bindingNames_arguments :
    let o := Outline.ofTokens (tokenize "let a: M<K,V>,b=1") ";"
    ∃ s ∈ o.segments, o.bindingNames s = [2, 12] := by
  intro o
  let c : Clause := ⟨2, some (3, [5, 6, 7, 8, 9, 10]), none⟩
  let d : Clause := ⟨12, none, some (13, [14])⟩
  obtain ⟨hrows, hcomma, hname, hcolon, hpaired, hsign, hbalances, hname', hsign', hpaired', hvalue,
      hbrace⟩ :
      (∃ s ∈ o.segments, (["var", "let"] : List Text).contains s.keyword ∧
        s.indices.drop (s.lead + 1) = c.indices ++ 11 :: d.indices) ∧
      o.at_ 11 (·.isMark ',') ∧ (o.at_ 2 fun t => t.kind = .identifier && t.text ≠ "_") ∧
      o.at_ 3 (·.isMark ':') ∧ o.Paired [5, 6, 7, 8, 9, 10] ∧
      (∀ m ∈ o.outside [5, 6, 7, 8, 9, 10], o.at_ m (·.isMark '=') = false) ∧
      o.balances 0 (o.outside [5, 6, 7, 8, 9, 10]) ∧
      (o.at_ 12 fun t => t.kind = .identifier && t.text ≠ "_") ∧ o.at_ 13 (·.isMark '=') ∧
      o.Paired [14] ∧ (∀ m ∈ o.outside [14], o.at_ m (·.isMark ',') = false) ∧
      ∀ m ∈ o.outside (c.typing ++ c.setting), o.at_ m (·.isMark '{') = false := by
    decide +kernel
  have hc : c.WellFormed o := by
    refine ⟨hname, ?_, nofun⟩
    rintro colon row ⟨⟩
    exact ⟨hcolon, hpaired, hsign, hbalances⟩
  have hd : d.WellFormed o := by
    refine ⟨hname', nofun, ?_⟩
    rintro sign row ⟨⟩
    exact ⟨hsign', hpaired', hvalue⟩
  obtain ⟨s, hs, hword, hrow⟩ := hrows
  have hbound : o.Bound (s.indices.drop (s.lead + 1)) [c, d] := by
    rw [hrow]
    exact .more c hc 11 hcomma (.last d hd)
  refine ⟨s, hs, (bindingNames_eq_iff hs hword hbound).mpr fun b hb => ?_⟩
  obtain rfl := List.mem_singleton.mp hb
  exact ⟨hbrace, nofun⟩

end

end HouseStyle.Outline
