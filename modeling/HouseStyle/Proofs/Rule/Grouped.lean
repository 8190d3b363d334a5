import HouseStyle.Proofs.Rule.Crowded
import Mathlib.Data.List.SplitBy
import Mathlib.Data.Finset.Card

/-! Grouping of methods. The methods of a container, in the order in which they stand, fall into runs
of neighbours with one prefix. The rule remarks on the first method of every run whose prefix an earlier
run has, so there are as many remarks as there are runs more than prefixes. -/

namespace HouseStyle

open Outline

/-! ### Members of one container -/

/-- Of two segments directly inside the same braces the one that begins first is over before the other
begins. -/
theorem Outline.last_lt_first_of_container {list : List Token} {end_ : Text} {a b : Segment}
    (ha : a ∈ (Outline.ofTokens list end_).segments) (hb : b ∈ (Outline.ofTokens list end_).segments)
    (hfirst : a.first < b.first) (hcontainer : a.container = b.container) : a.last < b.first := by
  rcases ofTokens_apart_or_between ha hb hfirst with hapart | ⟨c, p, hadj, hpair, hcb, hbp⟩
  · exact hapart
  -- Else the closure is around the second segment, and what the first one stands in opens before it.
  exfalso
  have hsa := (ofTokens_sound list end_).segments a ha
  have hsb := (ofTokens_sound list end_).segments b hb
  have hbrace : tokenIs list.toArray (·.isMark '{') c := by
    rcases (rel_of_adjacent hsa.inOrder.chain hadj).2 with hbrace | hquiet
    · exact hbrace
    · have := hquiet.le_of_loud (hsb.inOrder.loud _ hsb.first_mem) hcb
      have := hsb.first_le hsb.last_mem
      omega
  have hmem : c ∈ bracesAround list.toArray (Outline.ofTokens list end_).partners b.first b.last := by
    refine mem_bracesAround.mpr ⟨hcb, hbrace, fun q hq => ?_⟩
    obtain rfl := Option.some.inj (hpair.symm.trans hq)
    exact hbp
  obtain ⟨k, hk⟩ := Option.ne_none_iff_exists'.mp
    (fun hnone => List.ne_nil_of_mem hmem (List.getLast?_eq_none_iff.mp hnone))
  have hck : c ≤ k := by
    rw [List.getLast?_eq_some_getLast (List.ne_nil_of_mem hmem), Option.some.injEq] at hk
    exact hk ▸ ((bracesAround_pairwise _ _ _).imp le_of_lt).rel_getLast hmem
  have haround := (ofTokens_housed list end_ b hb).container.trans hk
  rw [← hcontainer, (ofTokens_housed list end_ a ha).container] at haround
  have hka := (mem_bracesAround.mp (List.mem_of_getLast? haround)).1
  have := hsa.first_le (mem_of_adjacent hadj).1
  omega

/-- The segments directly inside the same braces stand one behind the other. -/
theorem Outline.members_pairwise (list : List Token) (end_ : Text) (container : Option Nat) :
    ((Outline.ofTokens list end_).members container).Pairwise fun a b => a.last < b.first := by
  have hdistinct := (ofTokens_pairwise_first list end_).and (ofTokens_segments_nodup list end_)
  refine (hdistinct.filter _).imp_of_mem fun {a b} ha hb h => ?_
  obtain ⟨ha, hca⟩ := List.mem_filter.mp ha
  obtain ⟨hb, hcb⟩ := List.mem_filter.mp hb
  have hne : a.first ≠ b.first := fun heq =>
    ofTokens_disjoint ha hb h.2 a.first ((ofTokens_sound list end_).segments a ha).first_mem
      (heq ▸ ((ofTokens_sound list end_).segments b hb).first_mem)
  refine last_lt_first_of_container ha hb (lt_of_le_of_ne h.1 hne) ?_
  exact (of_decide_eq_true hca).trans (of_decide_eq_true hcb).symm

namespace Rule.Members

variable {names run rest : List Token} {name : Token} {seen : List Text} {previous : Option Text}
  {pre : Text}

/-! ### Remarks on a run -/

/-- The remark on a method that does not stand with the others of its prefix. -/
def separationRemark (name : Token) : Remark :=
  { span := name.span
    message :=
      "Method '" ++ name.text ++ "' is separated from the other '" ++ prefixOf name ++ "' methods."
    metadata := .record [("prefix", .text (prefixOf name))] }

theorem separated_cons : separated seen previous (name :: rest) =
    (if previous ≠ some (prefixOf name) ∧ prefixOf name ∈ seen then [separationRemark name] else []) ++
      separated (prefixOf name :: seen) (some (prefixOf name)) rest := by
  simp only [separated, Bool.and_eq_true, decide_eq_true_eq, List.contains_iff_mem]
  split_ifs <;> rfl

/-- It matters only which prefixes came up. -/
theorem separated_congr {seen' : List Text} (h : ∀ pre, pre ∈ seen ↔ pre ∈ seen') :
    separated seen previous names = separated seen' previous names := by
  induction names generalizing seen seen' previous with
  | nil => rfl
  | cons name rest ih =>
    have hrest := @ih (prefixOf name :: seen) (some (prefixOf name)) (prefixOf name :: seen')
      fun pre => by simp [h]
    simp only [separated_cons, hrest, h]

/-- Nothing is said of the methods that go on with a run. -/
theorem separated_run (hrun : ∀ other ∈ run, prefixOf other = pre) (hpre : pre ∈ seen) :
    separated seen (some pre) (run ++ rest) = separated seen (some pre) rest := by
  induction run with
  | nil => rfl
  | cons name run ih =>
    obtain ⟨hname, hrun⟩ := List.forall_mem_cons.mp hrun
    rw [List.cons_append, separated_cons, hname, if_neg (by simp), List.nil_append]
    refine (separated_congr fun other => ?_).trans (ih hrun)
    simp only [List.mem_cons, or_iff_right_iff_imp]
    rintro rfl
    exact hpre

/-! ### Runs -/

/-- The longest runs of methods with one prefix. -/
def runs (names : List Token) : List (List Token) :=
  names.splitBy fun a b => decide (prefixOf a = prefixOf b)

/-- Runs of methods with one prefix each, none of which goes on in the next run. -/
structure AreRuns (groups : List (List Token)) : Prop where
  ne_nil : ∀ run ∈ groups, run ≠ []
  alike : ∀ run ∈ groups, ∀ a ∈ run, ∀ b ∈ run, prefixOf a = prefixOf b
  apart : groups.IsChain fun run next => ∀ a ∈ run, ∀ b ∈ next, prefixOf a ≠ prefixOf b

theorem areRuns_runs (names : List Token) : AreRuns (runs names) := by
  have halike : ∀ run ∈ runs names, ∀ a ∈ run, ∀ b ∈ run, prefixOf a = prefixOf b := by
    intro run hrun a ha b hb
    have hchain : (run.map prefixOf).IsChain (· = ·) :=
      List.isChain_map_of_isChain prefixOf (fun _ _ => of_decide_eq_true)
        (List.isChain_of_mem_splitBy hrun)
    exact (List.isChain_iff_pairwise.mp hchain).forall_of_forall (fun _ _ => rfl)
      (List.mem_map_of_mem ha) (List.mem_map_of_mem hb)
  refine ⟨fun run hrun => List.ne_nil_of_mem_splitBy hrun, halike, ?_⟩
  refine (List.isChain_getLast_head_splitBy _ names).imp_of_mem_imp ?_
  rintro run next hrun hnext ⟨hne, hne', hends⟩ a ha b hb hab
  have hlast := halike run hrun _ (List.getLast_mem hne) a ha
  have hhead := halike next hnext b hb _ (List.head_mem hne')
  exact of_decide_eq_false hends (hlast.trans (hab.trans hhead))

namespace AreRuns

variable {groups : List (List Token)}

theorem tail (h : AreRuns (run :: groups)) : AreRuns groups :=
  ⟨fun other hother => h.ne_nil other (.tail _ hother),
    fun other hother => h.alike other (.tail _ hother), h.apart.tail⟩

theorem prefixOf_eq (h : AreRuns ((name :: run) :: groups)) :
    ∀ other ∈ run, prefixOf other = prefixOf name :=
  fun other hother =>
    h.alike _ List.mem_cons_self other (.tail _ hother) name List.mem_cons_self

theorem prefixOf_ne (h : AreRuns ((name :: run) :: groups)) :
    ∀ next ∈ groups.head?, ∀ other ∈ next, prefixOf name ≠ prefixOf other :=
  fun next hnext other hother =>
    (List.isChain_cons.mp h.apart).1 next hnext name List.mem_cons_self other hother

/-- A run brings one prefix. -/
theorem mem_prefixes (h : AreRuns ((name :: run) :: groups)) (done : List (List Token)) :
    pre ∈ (done ++ [name :: run]).flatten.map prefixOf ↔
      pre = prefixOf name ∨ pre ∈ done.flatten.map prefixOf := by
  have hrun : pre ∈ run.map prefixOf → pre = prefixOf name := by
    intro hpre
    obtain ⟨other, hother, rfl⟩ := List.mem_map.mp hpre
    exact h.prefixOf_eq other hother
  rw [List.flatten_append, List.flatten_singleton, List.map_append, List.mem_append, List.map_cons,
    List.mem_cons]
  tauto

end AreRuns

/-! ### Runs that are resumed -/

/-- The first methods of the runs behind those that are done, where the prefix is one of theirs or
came up in between. -/
def resumedAfter (done groups : List (List Token)) : List Token :=
  (groups.zipIdx done.length).filterMap fun (run, k) => run.head?.filter fun name =>
    ((done ++ groups).take k).any fun earlier => earlier.any fun other => prefixOf other = prefixOf name

/-- The first methods of the runs whose prefix an earlier run has. -/
def resumed (groups : List (List Token)) : List Token :=
  groups.zipIdx.filterMap fun (run, k) => run.head?.filter fun name =>
    (groups.take k).any fun earlier => earlier.any fun other => prefixOf other = prefixOf name

section

variable {done groups : List (List Token)}

theorem resumedAfter_cons : resumedAfter done ((name :: run) :: groups) =
    (if prefixOf name ∈ done.flatten.map prefixOf then [name] else []) ++
      resumedAfter (done ++ [name :: run]) groups := by
  have hany : (done.any fun earlier => earlier.any fun other => prefixOf other = prefixOf name) =
      decide (prefixOf name ∈ done.flatten.map prefixOf) := by
    rw [Bool.eq_iff_iff]
    simp only [List.any_eq_true, decide_eq_true_eq, List.mem_map, List.mem_flatten]
    tauto
  have hrest : resumedAfter (done ++ [name :: run]) groups =
      (groups.zipIdx (done.length + 1)).filterMap fun (run', k) => run'.head?.filter fun name' =>
        ((done ++ (name :: run) :: groups).take k).any fun earlier =>
          earlier.any fun other => prefixOf other = prefixOf name' := by
    rw [resumedAfter, List.append_assoc, List.singleton_append, List.length_append,
      List.length_singleton]
  rw [hrest, resumedAfter, List.zipIdx_cons, List.filterMap_cons]
  simp only [List.head?_cons, Option.filter_some, List.take_left, hany, decide_eq_true_eq]
  split_ifs <;> rfl

/-- Behind the runs that are done, remarks stand on the first methods of those that are resumed. -/
theorem separated_flatten (hruns : AreRuns groups)
    (hseen : ∀ pre, pre ∈ seen ↔ pre ∈ done.flatten.map prefixOf)
    (hprevious : ∀ run ∈ groups.head?, ∀ name ∈ run, previous ≠ some (prefixOf name)) :
    separated seen previous groups.flatten = (resumedAfter done groups).map separationRemark := by
  induction groups generalizing done seen previous with
  | nil => rfl
  | cons run groups ih =>
    obtain ⟨name, run, rfl⟩ := List.exists_cons_of_ne_nil (hruns.ne_nil run List.mem_cons_self)
    have hfirst := hprevious _ rfl name List.mem_cons_self
    have hrest := @ih (prefixOf name :: seen) (some (prefixOf name)) (done ++ [name :: run]) hruns.tail
      (fun pre => by rw [hruns.mem_prefixes, List.mem_cons, hseen])
      (fun next hnext other hother hsame =>
        hruns.prefixOf_ne next hnext other hother (Option.some.inj hsame))
    rw [List.flatten_cons, List.cons_append, separated_cons,
      separated_run hruns.prefixOf_eq List.mem_cons_self, hrest, resumedAfter_cons, List.map_append]
    simp only [hfirst, hseen, ne_eq, not_false_eq_true, true_and]
    split_ifs <;> rfl

/-- Every run is resumed or brings a new prefix. -/
theorem length_resumedAfter (hruns : AreRuns groups) :
    (resumedAfter done groups).length + ((done ++ groups).flatten.map prefixOf).toFinset.card =
      groups.length + (done.flatten.map prefixOf).toFinset.card := by
  induction groups generalizing done with
  | nil => simp [resumedAfter]
  | cons run groups ih =>
    obtain ⟨name, run, rfl⟩ := List.exists_cons_of_ne_nil (hruns.ne_nil run List.mem_cons_self)
    have hrest := @ih (done ++ [name :: run]) hruns.tail
    have hprefixes : ((done ++ [name :: run]).flatten.map prefixOf).toFinset =
        insert (prefixOf name) (done.flatten.map prefixOf).toFinset := by
      ext pre
      rw [List.mem_toFinset, hruns.mem_prefixes, Finset.mem_insert, List.mem_toFinset]
    rw [List.append_assoc, List.singleton_append, hprefixes] at hrest
    rw [resumedAfter_cons, List.length_append, List.length_cons]
    by_cases hmem : prefixOf name ∈ done.flatten.map prefixOf
    · rw [Finset.insert_eq_of_mem (List.mem_toFinset.mpr hmem)] at hrest
      rw [if_pos hmem, List.length_singleton]
      omega
    · rw [Finset.card_insert_of_notMem (mt List.mem_toFinset.mp hmem)] at hrest
      rw [if_neg hmem, List.length_nil]
      omega

end

/-! ### Methods that stand together -/

/-- Whether between methods with one prefix there are only methods with that prefix. -/
def Together (names : List Token) : Prop :=
  ∀ a c b, [a, c, b].Sublist names → prefixOf a = prefixOf b → prefixOf c = prefixOf a

theorem pair_sublist_cons {a b : Token} :
    [a, b].Sublist (name :: rest) ↔ [a, b].Sublist rest ∨ a = name ∧ b ∈ rest := by
  simp [List.sublist_cons_iff]

theorem together_cons : Together (name :: rest) ↔
    (∀ b ∈ rest, prefixOf b = prefixOf name → ∀ c, [c, b].Sublist rest → prefixOf c = prefixOf b) ∧
      Together rest := by
  constructor
  · intro h
    refine ⟨fun b _ hb c hc => ?_, fun a c b hsub => h a c b (hsub.cons _)⟩
    exact (h name c b (hc.cons_cons _) hb.symm).trans hb.symm
  · rintro ⟨hname, hrest⟩ a c b hsub hab
    cases hsub with
    | cons _ hsub => exact hrest a c b hsub hab
    | cons_cons _ hsub =>
      have hb := hsub.subset (List.mem_cons_of_mem _ List.mem_cons_self)
      exact (hname b hb hab.symm c hsub).trans hab.symm

/-- Nothing is remarked on where the methods stand together and those whose prefix came up go on with
the run at hand. -/
theorem separated_eq_nil_iff : separated seen previous names = [] ↔
    (∀ b ∈ names, prefixOf b ∈ seen → previous = some (prefixOf b) ∧
      ∀ c, [c, b].Sublist names → prefixOf c = prefixOf b) ∧ Together names := by
  induction names generalizing seen previous with
  | nil => simp [separated, Together]
  | cons name rest ih =>
    have hone : (if previous ≠ some (prefixOf name) ∧ prefixOf name ∈ seen then [separationRemark name]
        else []) = [] ↔ (prefixOf name ∈ seen → previous = some (prefixOf name)) := by
      split_ifs <;> grind
    rw [separated_cons, List.append_eq_nil_iff, ih, hone, together_cons]
    constructor
    · rintro ⟨hname, hrest, htogether⟩
      refine ⟨fun b hb hseen => ?_, fun b hb hsame => ?_, htogether⟩
      · have hsame : prefixOf name = prefixOf b := by
          rcases List.mem_cons.mp hb with rfl | hb
          · rfl
          · exact Option.some.inj (hrest b hb (.tail _ hseen)).1
        refine ⟨hsame ▸ hname (hsame ▸ hseen), fun c hc => ?_⟩
        rcases pair_sublist_cons.mp hc with hc | ⟨rfl, -⟩
        · exact (hrest b (hc.subset (by simp)) (.tail _ hseen)).2 c hc
        · exact hsame
      · exact (hrest b hb (by rw [hsame]; exact List.mem_cons_self)).2
    · rintro ⟨hall, hname, htogether⟩
      refine ⟨fun hseen => (hall name List.mem_cons_self hseen).1, fun b hb hseen => ?_, htogether⟩
      rcases List.mem_cons.mp hseen with hsame | hseen
      · exact ⟨congrArg some hsame.symm, hname b hb hsame⟩
      · obtain ⟨-, hall⟩ := hall b (.tail _ hb) hseen
        exact ⟨congrArg some (hall name (pair_sublist_cons.mpr (.inr ⟨rfl, hb⟩))),
          fun c hc => hall c (hc.cons _)⟩

theorem separated_eq (names : List Token) :
    separated [] none names = (resumed (runs names)).map separationRemark := by
  have hflatten := @separated_flatten [] none [] (runs names) (areRuns_runs names) (by simp) (by simp)
  rwa [runs, List.flatten_splitBy] at hflatten

theorem length_resumed (names : List Token) :
    (resumed (runs names)).length + (names.map prefixOf).toFinset.card = (runs names).length := by
  have hlength := @length_resumedAfter [] (runs names) (areRuns_runs names)
  rw [List.nil_append, runs, List.flatten_splitBy] at hlength
  exact hlength

theorem resumed_eq_nil_iff : resumed (runs names) = [] ↔ Together names := by
  rw [← List.map_eq_nil_iff (f := separationRemark), ← separated_eq, separated_eq_nil_iff]
  simp

/-! ### What the rule finds -/

/-- The methods among the members of a container, by their names. -/
def methods (o : Outline) (container : Option Nat) : List Token :=
  (o.members container).filterMap (methodName? o)

theorem methods_pairwise (text end_ : Text) (container : Option Nat) :
    (methods (Outline.ofTokens (tokenize text) end_) container).Pairwise
      fun a b => a.start < b.start := by
  have hplace {s : Segment} {name : Token}
      (h : methodName? (Outline.ofTokens (tokenize text) end_) s = some name) :
      ∃ k ∈ s.indices, (tokenize text)[k]? = some name := by
    unfold methodName? at h
    split_ifs at h
    obtain ⟨k, hk, hname⟩ := Option.bind_eq_some_iff.mp h
    exact ⟨k, List.mem_of_getElem? hk, (List.getElem?_toArray ..).symm.trans hname⟩
  refine List.pairwise_filterMap.mpr ((members_pairwise (tokenize text) end_ container).imp_of_mem ?_)
  intro s s' hs hs' hlt name hn name' hn'
  obtain ⟨k, hk, hname⟩ := hplace hn
  obtain ⟨k', hk', hname'⟩ := hplace hn'
  have hsound := (ofTokens_sound (tokenize text) end_).segments
  have hkk : k < k' :=
    ((hsound s (List.mem_of_mem_filter hs)).inOrder.le_getLast hk
      (hsound s (List.mem_of_mem_filter hs)).getLast?_eq).trans_lt
      (hlt.trans_le ((hsound s' (List.mem_of_mem_filter hs')).first_le hk'))
  exact tokenize_start_lt hname hname' hkk

end Members

/-- What a rule finds in parts, if it remarks on them one after the other. -/
theorem findings_of_flatMap {α : Type} {c : Context} {n : Int} {rule : Rule} {parts : List α}
    {remarks : α → List Remark} (hlines : c.contextLines = .int n)
    (h : rule.kind.remarks rule.options c = .ok (parts.flatMap remarks)) :
    ∃ find : Remark → Finding, (∀ r, rule.finding c r = .ok (find r)) ∧
      rule.findings c = .ok (parts.flatMap fun part => (remarks part).map find) := by
  choose find hfind using finding_ok hlines rule
  refine ⟨find, hfind, ?_⟩
  rw [Rule.findings, h, ← List.map_flatMap]
  exact mapM_eq_map hfind _

namespace Members

/-- In any text, in every container there are as many findings as there are runs of methods with one
prefix more than there are prefixes. They stand on the first methods of the runs whose prefix an earlier
run has, so there are none just where methods with one prefix stand together. -/
theorem findings_grouped (text filePath terminator : Text) (lookahead contextLines : Int)
    (options : Options) (severity : Option Severity) :
    let context := Context.ofTokens (tokenize text) filePath (.int lookahead) (.text terminator)
      (.int contextLines)
    let rule := methodGrouping.create options severity
    ∃ found : Option Nat → List Finding,
      rule.findings context =
        .ok ((none :: (typeBodies context.outline).map some).flatMap found) ∧
      ∀ container,
        let names := methods context.outline container
        names.Pairwise (fun a b => a.start < b.start) ∧
        (runs names).flatten = names ∧ AreRuns (runs names) ∧
        (found container).length + (names.map prefixOf).toFinset.card = (runs names).length ∧
        List.Forall₂ (fun name f => f.span = name.span ∧ f.location = context.location name.span ∧
          f.fix = none) (resumed (runs names)) (found container) ∧
        (found container = [] ↔ Together names) := by
  intro context rule
  obtain ⟨find, hfind, hfindings⟩ := @findings_of_flatMap _ context contextLines rule _
    (inContainer context.outline) rfl rfl
  have hfound (container : Option Nat) : (inContainer context.outline container).map find =
      (resumed (runs (methods context.outline container))).map (find ∘ separationRemark) := by
    rw [← List.map_map, ← separated_eq]
    rfl
  refine ⟨_, hfindings, fun container => ⟨methods_pairwise text terminator container,
    List.flatten_splitBy _ _, areRuns_runs _, ?_, ?_, ?_⟩⟩
  · rw [hfound, List.length_map]
    exact length_resumed _
  · rw [hfound, List.forall₂_map_right_iff]
    exact List.forall₂_same.mpr fun name _ => finding_place (hfind (separationRemark name))
  · rw [hfound, List.map_eq_nil_iff]
    exact resumed_eq_nil_iff

end Rule.Members

end HouseStyle
