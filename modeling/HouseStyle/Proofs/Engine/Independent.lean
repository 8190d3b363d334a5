import HouseStyle.Proofs.Engine.Checked
import HouseStyle.Proofs.Report.Order
import HouseStyle.Proofs.Workers.Pool

/-! Rules side by side. Rules with different ids do not meddle with one another: what a rule finds
among others is what it finds alone, a rule that fails leaves its failure and nothing else, and
neither the order of the rules nor the number of workers shows in the findings. -/

namespace HouseStyle

/-! ### Traversals that fail -/

section

variable {ε α β : Type} {f : α → Except ε β} {e : ε}

/-- A traversal fails at the first item that fails. -/
theorem exists_of_mapM_error {xs : List α} (h : xs.mapM f = .error e) :
    ∃ before x after ys, xs = before ++ x :: after ∧ before.mapM f = .ok ys ∧ f x = .error e := by
  induction xs with
  | nil => cases h
  | cons x xs ih =>
    rw [List.mapM_cons] at h
    cases hx : f x with
    | error e' =>
      rw [hx] at h
      cases h
      exact ⟨[], x, xs, [], rfl, rfl, hx⟩
    | ok y =>
      cases hrest : xs.mapM f with
      | ok ys =>
        rw [hx, hrest] at h
        cases h
      | error e' =>
        rw [hx, hrest] at h
        cases h
        obtain ⟨before, x', after, ys, rfl, hbefore, he⟩ := ih hrest
        refine ⟨x :: before, x', after, y :: ys, rfl, ?_, he⟩
        rw [List.mapM_cons, hx, hbefore]
        rfl

theorem mapM_error {before after : List α} {x : α} {ys : List β} (hbefore : before.mapM f = .ok ys)
    (hx : f x = .error e) : (before ++ x :: after).mapM f = .error e := by
  rw [List.mapM_append, hbefore, List.mapM_cons, hx]
  rfl

end

namespace Rule

/-! ### Rules that fail -/

/-- A rule fails on a file after it has yielded some findings. Where it fails before its remarks are
complete, these may be any. -/
inductive Raises (rule : Rule) (context : Context) : List Finding → RuleFailure → Prop
  | remarks {yielded : List Finding} {failure : RuleFailure}
    (h : rule.kind.remarks rule.options context = .error failure) :
    Raises rule context yielded failure
  | finding {before after : List Remark} {remark : Remark} {yielded : List Finding}
    {failure : RuleFailure}
    (hremarks : rule.kind.remarks rule.options context = .ok (before ++ remark :: after))
    (hyielded : before.mapM (rule.finding context) = .ok yielded)
    (h : rule.finding context remark = .error failure) : Raises rule context yielded failure

variable {context : Context} {rule : Rule} {rules : List Rule} {failure : RuleFailure}

/-- A rule that fails has no findings, whatever it has yielded before. -/
theorem findings_eq_error_iff :
    rule.findings context = .error failure ↔ ∃ yielded, rule.Raises context yielded failure := by
  unfold findings
  constructor
  · intro h
    cases hremarks : rule.kind.remarks rule.options context with
    | error e =>
      rw [hremarks] at h
      cases h
      exact ⟨[], .remarks hremarks⟩
    | ok remarks =>
      rw [hremarks] at h
      obtain ⟨before, remark, after, yielded, rfl, hyielded, h⟩ := exists_of_mapM_error h
      exact ⟨yielded, .finding hremarks hyielded h⟩
  · rintro ⟨yielded, h | ⟨hremarks, hyielded, h⟩⟩
    · rw [h]
      rfl
    · rw [hremarks]
      exact mapM_error hyielded h

theorem findings_ruleId {found : List Finding} (h : rule.findings context = .ok found) :
    ∀ f ∈ found, f.ruleId = rule.id := by
  intro f hf
  obtain ⟨remarks, -, h⟩ := bind_eq_ok.mp h
  obtain ⟨remark, -, h⟩ := mem_of_mapM h hf
  exact finding_ruleId h

/-! ### One rule at a time -/

/-- What a rule finds, and how it failed, if it did. -/
def alone (context : Context) (rule : Rule) : List Finding × List Failed := outcomes context [rule]

theorem alone_eq : alone context rule =
    match rule.findings context with
    | .ok found => (found, [])
    | .error failure => ([], [⟨rule.id, context.filePath, failure⟩]) := by
  cases h : rule.findings context <;> simp [alone, outcomes, h]

theorem outcomes_eq (context : Context) (rules : List Rule) :
    outcomes context rules =
      (rules.flatMap fun rule => (alone context rule).1,
        rules.flatMap fun rule => (alone context rule).2) := by
  induction rules with
  | nil => rfl
  | cons rule rules ih =>
    rw [outcomes, ih]
    simp only [List.flatMap_cons, alone_eq]
    cases rule.findings context <;> simp

theorem alone_ruleId : ∀ f ∈ (alone context rule).1, f.ruleId = rule.id := by
  intro f hf
  rw [alone_eq] at hf
  cases h : rule.findings context with
  | ok found =>
    rw [h] at hf
    exact findings_ruleId h f hf
  | error failure =>
    rw [h] at hf
    cases hf

theorem alone_failed : ∀ f ∈ (alone context rule).2, f.ruleId = rule.id := by
  intro f hf
  rw [alone_eq] at hf
  cases h : rule.findings context with
  | ok found =>
    rw [h] at hf
    cases hf
  | error failure =>
    rw [h] at hf
    rw [List.mem_singleton.mp hf]

/-- Of what some rules give, that which has an id is given by the rules of that id. -/
theorem filter_flatMap_id {α : Type} {given : Rule → List α} {key : α → Text}
    (h : ∀ rule, ∀ a ∈ given rule, key a = rule.id) (id : Text) :
    (rules.flatMap given).filter (key · = id) = (rules.filter (·.id = id)).flatMap given := by
  induction rules with
  | nil => rfl
  | cons rule rules ih =>
    rw [List.flatMap_cons, List.filter_append, ih, List.filter_cons]
    split_ifs with hid
    · rw [List.flatMap_cons, List.filter_eq_self.mpr fun a ha => by simpa [h rule a ha] using hid]
    · rw [List.filter_eq_nil_iff.mpr fun a ha => by simpa [h rule a ha] using hid, List.nil_append]

theorem filter_id_eq (hids : (rules.map Rule.id).Nodup) (hrule : rule ∈ rules) :
    rules.filter (·.id = rule.id) = [rule] := by
  induction rules with
  | nil => cases hrule
  | cons r rules ih =>
    obtain ⟨hnew, hids⟩ := List.nodup_cons.mp hids
    rcases List.mem_cons.mp hrule with rfl | hrule
    · have hnone : rules.filter (·.id = rule.id) = [] := by
        refine List.filter_eq_nil_iff.mpr fun r hr => ?_
        have hne : r.id ≠ rule.id := fun h => hnew (h ▸ List.mem_map_of_mem hr)
        simpa using hne
      rw [List.filter_cons_of_pos (by simp), hnone]
    · have hne : r.id ≠ rule.id := fun h => hnew (h ▸ List.mem_map_of_mem hrule)
      rw [List.filter_cons_of_neg (by simpa using hne), ih hids hrule]

/-- Of rules with different ids, the order does not show among those of one id. -/
theorem filter_id_perm {rules' : List Rule} (hids : (rules.map Rule.id).Nodup)
    (h : rules'.Perm rules) (id : Text) :
    rules'.filter (·.id = id) = rules.filter (·.id = id) := by
  have hperm := h.filter (·.id = id)
  by_cases hid : ∃ rule ∈ rules, rule.id = id
  · obtain ⟨rule, hrule, rfl⟩ := hid
    rw [filter_id_eq hids hrule] at hperm ⊢
    exact hperm.eq_singleton
  · have hnone : rules.filter (·.id = id) = [] :=
      List.filter_eq_nil_iff.mpr fun rule hrule => by simpa using fun h => hid ⟨rule, hrule, h⟩
    rw [hnone] at hperm ⊢
    exact hperm.eq_nil

/-! ### Runs -/

/-- What the rules gave, put together in their order. -/
def gathered (context : Context) :
    List (Rule × Except RuleFailure (List Finding)) → List Finding × List Failed
  | [] => ([], [])
  | (rule, result) :: rest =>
    let (found, failed) := gathered context rest
    match result with
    | .ok here => (here ++ found, failed)
    | .error failure => (found, ⟨rule.id, context.filePath, failure⟩ :: failed)

/-- What a run of rules can give. Only with several rules and several workers is there a pool; its
results are looked up in the order of the rules. -/
inductive Ran (workers : Int) (context : Context) (rules : List Rule) :
    List Finding × List Failed → Prop
  | loop (h : rules.length ≤ 1 ∨ workers ≤ 1) : Ran workers context rules (runAll context rules)
  | pool {finished : List (Fin rules.length × Except RuleFailure (List Finding))}
    {found : List Finding} {failed : List Failed}
    (hrules : 1 < rules.length) (hworkers : 1 < workers)
    (h : Pool.Completes workers.toNat (fun i => rules[i].findings context)
      (List.finRange rules.length) finished)
    (hgathered : gathered context ((List.finRange rules.length).filterMap fun i =>
      (finished.lookup i).map fun result => (rules[i], result)) = (found, failed)) :
    Ran workers context rules (Finding.sort found, failed)

theorem gathered_findings (context : Context) (rules : List Rule) :
    gathered context (rules.map fun rule => (rule, rule.findings context)) =
      outcomes context rules := by
  induction rules with
  | nil => rfl
  | cons rule rules ih => cases h : rule.findings context <;> simp [gathered, outcomes, ih, h]

/-- The number of workers makes no difference. -/
theorem Ran.eq_runAll {workers : Int} {result : List Finding × List Failed}
    (h : Ran workers context rules result) : result = runAll context rules := by
  cases h with
  | loop => rfl
  | @pool finished found failed _ _ hfinished hgathered =>
    have hlookup (i : Fin rules.length) : finished.lookup i = some (rules[i].findings context) :=
      Pool.lookup_of_perm hfinished.perm (List.mem_finRange i)
    have hresults : (List.finRange rules.length).filterMap (fun i =>
        (finished.lookup i).map fun result => (rules[i], result)) =
          rules.map fun rule => (rule, rule.findings context) := by
      simp only [hlookup, Option.map_some]
      rw [List.filterMap_eq_map']
      conv_rhs => rw [← List.map_getElem_finRange rules, List.map_map]
      rfl
    rw [hresults, gathered_findings] at hgathered
    rw [runAll, hgathered]

theorem exists_ran (workers : Int) (context : Context) (rules : List Rule) :
    ∃ result, Ran workers context rules result := by
  by_cases h : rules.length ≤ 1 ∨ workers ≤ 1
  · exact ⟨_, .loop h⟩
  · obtain ⟨hrules, hworkers⟩ := not_or.mp h
    have hpos : 0 < workers.toNat := by omega
    obtain ⟨finished, hfinished⟩ := Pool.exists_completes hpos (List.finRange rules.length)
    exact ⟨_, .pool (by omega) (by omega) hfinished rfl⟩

/-! ### Rules with different ids -/

/-- What rules find does not depend on who runs them. What a rule finds and how it fails is what it
gives alone. A rule that fails leaves one failure and no finding, whatever it has yielded before. In
another order the same rules give the same findings and the same failures. -/
theorem ran_independent (context : Context) {rules : List Rule} (hids : (rules.map Rule.id).Nodup)
    (workers : Int) :
    (∃ result, Ran workers context rules result) ∧
    ∀ result, Ran workers context rules result →
      result = runAll context rules ∧
      (∀ f ∈ result.1, ∃ rule ∈ rules, f.ruleId = rule.id) ∧
      (∀ rule ∈ rules, result.1.filter (·.ruleId = rule.id) = (runAll context [rule]).1) ∧
      result.2 = rules.flatMap (fun rule => (runAll context [rule]).2) ∧
      (∀ rule ∈ rules, ∀ yielded failure, rule.Raises context yielded failure →
        result.1.filter (·.ruleId = rule.id) = [] ∧
        result.2.filter (·.ruleId = rule.id) = [⟨rule.id, context.filePath, failure⟩]) ∧
      ∀ rules' : List Rule, rules'.Perm rules → ∀ workers' result', Ran workers' context rules' result' →
        result'.1 = result.1 ∧ result'.2.Perm result.2 := by
  refine ⟨exists_ran workers context rules, fun result h => ?_⟩
  obtain rfl := h.eq_runAll
  have hfound (rule : Rule) (hrule : rule ∈ rules) :
      (outcomes context rules).1.filter (·.ruleId = rule.id) = (alone context rule).1 := by
    rw [outcomes_eq, filter_flatMap_id fun _ => alone_ruleId, filter_id_eq hids hrule,
      List.flatMap_singleton]
  have hfailed (rule : Rule) (hrule : rule ∈ rules) :
      (outcomes context rules).2.filter (·.ruleId = rule.id) = (alone context rule).2 := by
    rw [outcomes_eq, filter_flatMap_id fun _ => alone_failed, filter_id_eq hids hrule,
      List.flatMap_singleton]
  refine ⟨rfl, fun f hf => ?_, fun rule hrule => ?_, ?_, ?_, ?_⟩
  · obtain ⟨rule, hrule, found, hfindings, hf⟩ := exists_of_mem_outcomes (Finding.mem_sort.mp hf)
    exact ⟨rule, hrule, findings_ruleId hfindings f hf⟩
  · exact (Finding.filter_sort _ _).trans (congrArg _ (hfound rule hrule))
  · exact congrArg Prod.snd (outcomes_eq context rules)
  · intro rule hrule yielded failure hraises
    have hfindings := findings_eq_error_iff.mpr ⟨yielded, hraises⟩
    have halone : alone context rule = ([], [⟨rule.id, context.filePath, failure⟩]) := by
      rw [alone_eq, hfindings]
    refine ⟨?_, (hfailed rule hrule).trans (by rw [halone])⟩
    rw [runAll, Finding.filter_sort, hfound rule hrule, halone]
    exact List.mergeSort_nil
  · intro rules' hperm workers' result' h'
    obtain rfl := h'.eq_runAll
    constructor
    · refine Finding.sort_eq_of_filter_ruleId fun id => ?_
      rw [outcomes_eq, outcomes_eq, filter_flatMap_id fun _ => alone_ruleId,
        filter_flatMap_id fun _ => alone_ruleId, filter_id_perm hids hperm]
    · rw [runAll, runAll, outcomes_eq, outcomes_eq]
      exact hperm.flatMap_right _

/-- A rule that always raises, run by four workers beside one that comes with the checker. -/
theorem ran_independent_raising :
    let context := Context.ofTokens (tokenize "x!\n") "a.swift"
    let raising : Rule := RuleKind.create {
      label := "raising"
      metadata := { (default : RuleMetadata) with id := "raising" }
      remarks := fun _ _ => .error (.raised "boom") }
    let unwrap := Declarations.forceUnwrap.create
    ([raising, unwrap].map Rule.id).Nodup ∧ ∀ result, Ran 4 context [raising, unwrap] result →
      result.1.filter (·.ruleId = unwrap.id) = (runAll context [unwrap]).1 ∧
      result.1.filter (·.ruleId = raising.id) = [] ∧
      result.2.filter (·.ruleId = raising.id) = [⟨"raising", "a.swift", .raised "boom"⟩] ∧
      ∀ result', Ran 1 context [unwrap, raising] result' → result'.1 = result.1 := by
  intro context raising unwrap
  have hids : ([raising, unwrap].map Rule.id).Nodup := by decide
  obtain ⟨-, hran⟩ := ran_independent context hids 4
  refine ⟨hids, fun result hresult => ?_⟩
  obtain ⟨-, -, hsingle, -, hraises, hperm⟩ := hran result hresult
  obtain ⟨hnone, hone⟩ := hraises raising (by simp) [] (.raised "boom") (.remarks rfl)
  refine ⟨hsingle unwrap (by simp), hnone, hone, fun result' hresult' => ?_⟩
  exact (hperm [unwrap, raising] (.swap _ _ _) 1 result' hresult').1

end Rule

end HouseStyle
