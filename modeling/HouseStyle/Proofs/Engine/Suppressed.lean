import HouseStyle.Proofs.Token.Partition
import HouseStyle.Proofs.Token.Place
import HouseStyle.Suppression

/-! What suppression comments hide. A comment counts if the marker stands in it, and means the rules
that are listed behind the first marker. The lines of all comments are merged into one list; what a
line hides in the end does not depend on the order or the number of the comments. A comment covers
the line behind its end if no code begins on its own line: code that began on an earlier line and
ends on that of the comment is overlooked. -/

namespace HouseStyle

open Suppression

/-! ### Comments -/

namespace Text

variable {part t : Text}

theorem cutAt?_eq_none : cutAt? part t = none ↔ ¬part <:+: t := by
  induction t with
  | nil => simp [cutAt?]
  | cons s rest ih =>
    rw [cutAt?, List.infix_cons_iff, ← List.isPrefixOf_iff_prefix]
    split_ifs with h
    · simp [h]
    · simp [h, ih]

/-- A text is cut at the first occurrence. -/
theorem cutAt?_append {before : Text} (hne : part ≠ []) (h : ¬part <:+: before ++ part.dropLast) :
    cutAt? part (before ++ (part ++ t)) = some (before, t) := by
  induction before with
  | nil =>
    obtain ⟨s, rest, rfl⟩ := List.exists_cons_of_ne_nil hne
    simp [cutAt?]
  | cons s before ih =>
    have hlater : ¬part.isPrefixOf (s :: (before ++ (part ++ t))) := by
      rw [List.isPrefixOf_iff_prefix]
      intro hprefix
      have hlonger : s :: before ++ part.dropLast <+: s :: (before ++ (part ++ t)) := by
        rw [List.cons_append, List.cons_prefix_cons]
        exact ⟨rfl, (List.prefix_append_right_inj before).mpr
          ((List.dropLast_prefix part).trans (List.prefix_append part t))⟩
      refine h (List.prefix_of_prefix_length_le hprefix hlonger ?_).isInfix
      rw [List.length_append, List.length_cons, List.length_dropLast]
      omega
    rw [List.cons_append, cutAt?, if_neg hlater, ih]
    · rfl
    · exact fun hoccurs => h (hoccurs.trans (List.suffix_cons s _).isInfix)

end Text

namespace Suppression

/-- A comment suppresses something if the marker stands in it. -/
theorem isSome_ofComment? {text : Text} : (ofComment? text).isSome ↔ marker <:+: text := by
  rw [ofComment?, Option.isSome_map, Option.isSome_iff_ne_none, ne_eq, Text.cutAt?_eq_none, not_not]

/-- The names that count are those behind the first marker. -/
theorem ofComment?_append {before t : Text} (h : ¬marker <:+: before ++ marker.dropLast) :
    ofComment? (before ++ (marker ++ t)) =
      some (if namesAfter t = [] then none else some (namesAfter t)) := by
  rw [ofComment?, Text.cutAt?_append (by decide) h, Option.map_some]
  cases hnames : namesAfter t <;> simp [hnames]

/-- A rule name behind a separator, with white space before and behind that. -/
structure Entry where
  before : Text
  behind : Text
  name : Text
  before_isSpace : ∀ s ∈ before, s.isSpace
  behind_isSpace : ∀ s ∈ behind, s.isSpace
  name_ne_nil : name ≠ []
  isNameSym : ∀ s ∈ name, isNameSym s

def Entry.text (separator : Char) (e : Entry) : Text :=
  e.before ++ .char separator :: (e.behind ++ e.name)

/-- Whether no list of names goes on with a text. -/
def EndsNames (t : Text) : Prop :=
  (∀ s ∈ t.head?, isNameSym s = false) ∧ (t.dropWhile Sym.isSpace).head? ≠ some (.char ',')

theorem not_isSpace_of_isNameSym {s : Sym} (h : isNameSym s) : s.isSpace = false := by
  rw [isNameSym, Bool.or_eq_true, Sym.is_iff] at h
  rcases h with h | rfl
  · by_contra hspace
    have := Sym.isWord_of_isStop (Sym.isStop_of_isSpace (by simpa using hspace))
    rw [h] at this
    cases this
  · decide

variable {t : Text}

theorem Entry.dropWhile_text (e : Entry) {c : Char} (hc : (Sym.char c).isSpace = false) :
    (e.text c ++ t).dropWhile Sym.isSpace = .char c :: (e.behind ++ (e.name ++ t)) := by
  rw [Entry.text, List.append_assoc, List.dropWhile_append_of_pos e.before_isSpace, List.cons_append,
    List.append_assoc, List.dropWhile_cons_of_neg (by simp [hc])]

theorem Entry.dropWhile_behind (e : Entry) :
    (e.behind ++ (e.name ++ t)).dropWhile Sym.isSpace = e.name ++ t := by
  obtain ⟨s, rest, hname⟩ := List.exists_cons_of_ne_nil e.name_ne_nil
  have hs : s.isSpace = false := not_isSpace_of_isNameSym (e.isNameSym s (by simp [hname]))
  rw [List.dropWhile_append_of_pos e.behind_isSpace, hname, List.cons_append,
    List.dropWhile_cons_of_neg (by simp [hs])]

theorem Entry.takeWhile_name (e : Entry) (ht : ∀ s ∈ t.head?, Suppression.isNameSym s = false) :
    (e.name ++ t).takeWhile Suppression.isNameSym = e.name := by
  rw [List.takeWhile_append_of_pos e.isNameSym]
  cases t with
  | nil => simp
  | cons s rest => simp [ht s rfl]

/-- Neither a comma nor white space belongs to a name. -/
theorem head?_written (entries : List Entry) (ht : EndsNames t) :
    ∀ s ∈ (entries.flatMap (Entry.text ',') ++ t).head?, Suppression.isNameSym s = false := by
  cases entries with
  | nil => exact ht.1
  | cons e rest =>
    intro s hs
    cases hbefore : e.before with
    | nil =>
      obtain rfl : .char ',' = s := by simpa [Entry.text, hbefore] using hs
      decide
    | cons d ds =>
      obtain rfl : d = s := by simpa [Entry.text, hbefore] using hs
      have hspace : d.isSpace := e.before_isSpace d (by simp [hbefore])
      by_contra hname
      rw [not_isSpace_of_isNameSym (by simpa using hname)] at hspace
      cases hspace

theorem moreNames_written (entries : List Entry) (ht : EndsNames t) {fuel : Nat}
    (hfuel : entries.length ≤ fuel) :
    moreNames fuel (entries.flatMap (Entry.text ',') ++ t) = entries.map Entry.name := by
  induction entries generalizing fuel with
  | nil =>
    cases fuel with
    | zero => rfl
    | succ fuel =>
      rw [List.flatMap_nil, List.nil_append, moreNames]
      split
      · next rest heq => exact absurd (by rw [heq]; rfl) ht.2
      · rfl
  | cons e rest ih =>
    cases fuel with
    | zero => simp at hfuel
    | succ fuel =>
      have hempty : e.name.isEmpty = false := by simpa using e.name_ne_nil
      rw [List.flatMap_cons, List.append_assoc, moreNames, e.dropWhile_text (by decide)]
      simp only [e.dropWhile_behind, e.takeWhile_name (head?_written rest ht), hempty,
        Bool.false_eq_true, if_false, List.drop_left, List.map_cons,
        ih (Nat.le_of_succ_le_succ hfuel)]

theorem length_le_length_written (entries : List Entry) :
    entries.length ≤ (entries.flatMap (Entry.text ',')).length := by
  induction entries with
  | nil => simp
  | cons e rest ih =>
    rw [List.flatMap_cons, List.length_append, Entry.text, List.length_append]
    simp only [List.length_cons]
    omega

/-- A comment that lists names behind the first marker suppresses those rules. -/
theorem ofComment?_written {before : Text} (h : ¬marker <:+: before ++ marker.dropLast)
    (first : Entry) (entries : List Entry) (ht : EndsNames t) :
    ofComment? (before ++ (marker ++ (first.text ':' ++ (entries.flatMap (Entry.text ',') ++ t)))) =
      some (some (first.name :: entries.map Entry.name)) := by
  have hempty : first.name.isEmpty = false := by simpa using first.name_ne_nil
  have hfuel : entries.length ≤ (first.name ++ (entries.flatMap (Entry.text ',') ++ t)).length := by
    have := length_le_length_written entries
    simp only [List.length_append]
    omega
  have hnames : namesAfter (first.text ':' ++ (entries.flatMap (Entry.text ',') ++ t)) =
      first.name :: entries.map Entry.name := by
    rw [namesAfter, first.dropWhile_text (by decide)]
    simp only [first.dropWhile_behind, first.takeWhile_name (head?_written entries ht), hempty,
      Bool.false_eq_true, if_false, List.drop_left, moreNames_written entries ht hfuel]
  rw [ofComment?_append h, hnames, if_neg (List.cons_ne_nil _ _)]

end Suppression

/-! ### Merged lines -/

/-- Whether a comment that names these rules, or none, means a rule. -/
def Suppression.Includes (rules : Option (List Text)) (id : Text) : Prop :=
  ∀ names ∈ rules, id ∈ names

/-- A comment with the marker that names no rule, or this one among others. -/
def Token.Silences (t : Token) (id : Text) : Prop :=
  t.kind = .comment ∧ ∃ rules, ofComment? t.text = some rules ∧ Includes rules id

namespace Suppression

variable {lines : Lines} {l line : Int} {rules : Option (List Text)} {id : Text}

@[simp] theorem covers_nil : covers [] l id = false := rfl

theorem covers_cons {entry : Int × Option (List Text)} :
    covers (entry :: lines) l id ↔
      l = entry.1 ∧ Includes entry.2 id ∨ l ≠ entry.1 ∧ covers lines l id := by
  obtain ⟨first, rules⟩ := entry
  by_cases h : l = first
  · subst h
    cases rules <;> simp [covers, Includes]
  · have hne : (l == first) = false := by simpa using h
    simp [covers, List.lookup_cons, hne, h]

theorem includes_merge (a b : Option (List Text)) :
    Includes (merge a b) id ↔ Includes a id ∨ Includes b id := by
  cases a with
  | none => simp [merge, Includes]
  | some a =>
    cases b with
    | none => simp [merge, Includes]
    | some b =>
      simp only [merge, Includes, Option.mem_def, Option.some.injEq, forall_eq', List.mem_append,
        List.mem_filter, Bool.not_eq_true', List.contains_eq_mem, decide_eq_false_iff_not]
      tauto

/-- Adding rules to a line covers what was covered before, and those rules on that line. -/
theorem covers_add :
    covers (add line rules lines) l id ↔ covers lines l id ∨ l = line ∧ Includes rules id := by
  induction lines with
  | nil => simp [add, covers_cons]
  | cons entry rest ih =>
    rw [add]
    split_ifs with hfirst
    · subst hfirst
      simp only [covers_cons, includes_merge]
      tauto
    · simp only [covers_cons, ih]
      have : l = line → l ≠ entry.1 := fun hl h => hfirst (h.symm.trans hl)
      tauto

theorem covers_addComment {hasCode : Nat → Bool} {t : Token} :
    covers (addComment hasCode lines t) l id ↔ covers lines l id ∨
      (∃ rules, ofComment? t.text = some rules ∧ Includes rules id) ∧
        (l = t.line ∨ hasCode t.line = false ∧ l = t.line + t.text.breakCount + 1) := by
  unfold addComment
  cases hcomment : ofComment? t.text with
  | none => simp
  | some rules =>
    cases hcode : hasCode t.line with
    | true => simp [covers_add, and_comm]
    | false =>
      simp only [covers_add, Bool.false_eq_true, if_false, Option.some.injEq, exists_eq_left', true_and]
      tauto

theorem covers_foldl {hasCode : Nat → Bool} (comments : List Token) :
    covers (comments.foldl (addComment hasCode) lines) l id ↔ covers lines l id ∨
      ∃ t ∈ comments, (∃ rules, ofComment? t.text = some rules ∧ Includes rules id) ∧
        (l = t.line ∨ hasCode t.line = false ∧ l = t.line + t.text.breakCount + 1) := by
  induction comments generalizing lines with
  | nil => simp
  | cons t rest ih =>
    rw [List.foldl_cons, ih, covers_addComment, or_assoc]
    simp only [List.mem_cons, exists_eq_or_imp]

/-- What the comments among some tokens hide. -/
theorem hides_ofTokens (tokens : List Token) (f : Finding) :
    hides (ofTokens tokens) f ↔ ∃ t ∈ tokens, t.Silences f.ruleId ∧
      (f.line = t.line ∨ (∀ u ∈ tokens, u.isTrivia = false → u.line ≠ t.line) ∧
        f.line = t.line + t.text.breakCount + 1) := by
  simp only [hides, ofTokens, covers_foldl, covers_nil, Bool.false_eq_true, false_or, ne_eq, List.mem_filter, decide_eq_true_eq,
    List.any_eq_false, Bool.not_eq_true', Token.Silences, and_assoc, and_imp]

/-- What is hidden is a matter of which tokens there are, not of their order or number. -/
theorem hides_congr {tokens others : List Token} (h : ∀ t, t ∈ others ↔ t ∈ tokens) (f : Finding) :
    hides (ofTokens others) f = hides (ofTokens tokens) f := by
  rw [Bool.eq_iff_iff, hides_ofTokens, hides_ofTokens]
  simp only [h]

end Suppression

/-! ### Lines of a text -/

namespace Context

variable (c : Context)

/-- The line on which an offset stands. -/
def lineAt (offset : Nat) : Nat := (c.position offset).line

/-- Whether a token has a symbol on a line. -/
def Reaches (t : Token) (line : Nat) : Prop :=
  ∃ offset, t.start ≤ offset ∧ offset < t.stop ∧ c.lineAt offset = line

/-- Whether a token is alone with other trivia on the line on which it starts. -/
def Alone (t : Token) : Prop :=
  ∀ u ∈ c.tokens.toList, u.isTrivia = false → ¬c.Reaches u (c.lineAt t.start)

/-- Whether no code begins on the line on which a token starts. -/
def Clear (t : Token) : Prop :=
  ∀ u ∈ c.tokens.toList, u.isTrivia = false → c.lineAt u.start ≠ c.lineAt t.start

/-- Whether code from an earlier line reaches the line on which a token starts. -/
def Overhung (t : Token) : Prop :=
  ∃ u ∈ c.tokens.toList, u.isTrivia = false ∧ c.lineAt u.start < c.lineAt t.start ∧
    c.Reaches u (c.lineAt t.start)

theorem lineAt_mono (hstarts : c.lineStarts ≠ []) {o o' : Nat} (h : o ≤ o') :
    c.lineAt o ≤ c.lineAt o' := by
  obtain ⟨p, hp⟩ := Position.exists_ofOffset? hstarts o
  obtain ⟨q, hq⟩ := Position.exists_ofOffset? hstarts o'
  have hle : p.line ≤ q.line := Position.line_le_line (Int.ofNat_le.mpr h) hp hq
  simpa only [lineAt, position, hp, hq, Option.getD_some] using hle

/-- A line without code from an earlier one is clear of code only if there is no code on it. -/
theorem clear_iff_alone (hstarts : c.lineStarts ≠ []) {t : Token} (h : ¬c.Overhung t)
    (hne : ∀ u ∈ c.tokens.toList, u.text ≠ []) : c.Clear t ↔ c.Alone t := by
  constructor
  · rintro hclear u hu hcode ⟨o, hstart, hstop, hline⟩
    have hle : c.lineAt u.start ≤ c.lineAt t.start := hline ▸ c.lineAt_mono hstarts hstart
    have hlt : c.lineAt u.start < c.lineAt t.start := lt_of_le_of_ne hle (hclear u hu hcode)
    exact h ⟨u, hu, hcode, hlt, o, hstart, hstop, hline⟩
  · intro halone u hu hcode hline
    refine halone u hu hcode ⟨u.start, le_refl _, ?_, hline⟩
    have := List.length_pos_iff.mpr (hne u hu)
    rw [Token.stop]
    omega

section

variable {text path : Text} {lookahead terminator contextLines : Value}

theorem lineStarts_ofTokens :
    (ofTokens (tokenize text) path lookahead terminator contextLines).lineStarts =
      text.lineStarts :=
  congrArg Text.lineStarts (sourceText_tokenize text)

/-- A token starts on the line that the lexer counted. -/
theorem lineAt_start {t : Token} (ht : t ∈ tokenize text) :
    (ofTokens (tokenize text) path lookahead terminator contextLines).lineAt t.start = t.line := by
  obtain ⟨before, after, htext, hpair, hcursor⟩ := tokenize_cursor ht
  have hstart : t.start = before.length :=
    (congrArg Cursor.offset hcursor).trans (Nat.zero_add _)
  rw [lineAt, position, lineStarts_ofTokens, hstart, htext, Cursor.ofOffset?_lineStarts hpair,
    ← hcursor, Option.getD_some]

/-- A token stops as many lines below as it holds breaks. -/
theorem lineAt_stop {t : Token} (ht : t ∈ tokenize text) :
    (ofTokens (tokenize text) path lookahead terminator contextLines).lineAt t.stop =
      t.line + t.text.breakCount := by
  obtain ⟨column, hplace⟩ := tokenize_stop_line ht
  rw [lineAt, position, lineStarts_ofTokens, hplace, Option.getD_some]

end

end Context

namespace Suppression

/-- A finding of a text is suppressed if a comment that silences its rule starts on its line, or
stops on the line before it and starts where no code begins. That is the line behind a comment alone
on its line, unless code from an earlier line ends before the comment; the comment then covers the
line behind it too. -/
theorem hides_iff (text path : Text) (lookahead terminator contextLines : Value) (f : Finding) :
    let context := Context.ofTokens (tokenize text) path lookahead terminator contextLines
    let tokens := context.tokens.toList
    (hides (ofTokens tokens) f ↔ ∃ t ∈ tokens, t.Silences f.ruleId ∧
      (f.line = context.lineAt t.start ∨
        context.Clear t ∧ f.line = context.lineAt t.stop + 1)) ∧
    ((∀ t ∈ tokens, t.Silences f.ruleId → ¬context.Overhung t) →
      (hides (ofTokens tokens) f ↔ ∃ t ∈ tokens, t.Silences f.ruleId ∧
        (f.line = context.lineAt t.start ∨
          context.Alone t ∧ f.line = context.lineAt t.stop + 1))) ∧
    ∀ others, (∀ t, t ∈ others ↔ t ∈ tokens) →
      hides (ofTokens others) f = hides (ofTokens tokens) f := by
  intro context tokens
  have htokens : tokens = tokenize text := rfl
  have hclear {t : Token} (ht : t ∈ tokens) : context.Clear t ↔
      ∀ u ∈ tokens, u.isTrivia = false → u.line ≠ t.line := by
    refine forall₂_congr fun u hu => ?_
    rw [Context.lineAt_start hu, Context.lineAt_start ht]
  have hcovered : hides (ofTokens tokens) f ↔ ∃ t ∈ tokens, t.Silences f.ruleId ∧
      (f.line = context.lineAt t.start ∨
        context.Clear t ∧ f.line = context.lineAt t.stop + 1) := by
    rw [hides_ofTokens]
    refine exists_congr fun t => and_congr_right fun ht => ?_
    rw [hclear ht, Context.lineAt_start ht, Context.lineAt_stop ht, Int.natCast_add]
  refine ⟨hcovered, fun hfree => ?_, fun others h => hides_congr h f⟩
  rw [hcovered]
  refine exists_congr fun t => and_congr_right fun ht => and_congr_right fun hsilences => ?_
  have hstarts : context.lineStarts ≠ [] := List.cons_ne_nil _ _
  have hne (u : Token) (hu : u ∈ tokens) : u.text ≠ [] := (cutFrom_of_mem_tokenize hu).text_ne_nil
  rw [context.clear_iff_alone hstarts (hfree t ht hsilences) hne]

end Suppression

end HouseStyle
