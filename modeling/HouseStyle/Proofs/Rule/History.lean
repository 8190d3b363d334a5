import HouseStyle.Rule.Registry
import HouseStyle.Proofs.Text.Order
import Mathlib.Data.List.Basic

/-! What a registry holds after any calls to it, failed ones among them. Its two tables go in step: a
call that fails changes neither of them, and every other call sets both under one id. The id stays
with the kind that had it first, since a call for another kind fails. -/

namespace HouseStyle.Registry

/-! ### Tables -/

section

variable {α β : Type}

theorem lookup_put (id : Text) (value : α) (table : List (Text × α)) (other : Text) :
    (put id value table).lookup other = if other = id then some value else table.lookup other := by
  have hcons (k : Text) (v : α) (rest : List (Text × α)) :
      ((k, v) :: rest).lookup other = if other = k then some v else rest.lookup other := by
    rw [List.lookup_cons]
    by_cases h : other = k
    · simp [h]
    · simp [h, beq_false_of_ne h]
  induction table with
  | nil => rw [put, hcons]
  | cons entry rest ih =>
    obtain ⟨k, old⟩ := entry
    rw [put]
    split_ifs with hk hother hother
    · rw [hcons, hk, if_pos hother]
    · rw [hcons, hcons, hk, if_neg hother, if_neg hother]
    · rw [hcons, ih, if_neg fun h => hk (h.symm.trans hother), if_pos hother]
    · rw [hcons, hcons, ih, if_neg hother]

theorem map_fst_put (id : Text) (value : α) (table : List (Text × α)) :
    (put id value table).map Prod.fst =
      if id ∈ table.map Prod.fst then table.map Prod.fst else table.map Prod.fst ++ [id] := by
  induction table with
  | nil => rfl
  | cons entry rest ih =>
    obtain ⟨k, old⟩ := entry
    rw [put]
    by_cases hk : k = id
    · simp [hk]
    · rw [if_neg hk, List.map_cons, ih]
      simp only [List.map_cons, List.mem_cons, Ne.symm hk, false_or]
      split_ifs <;> rfl

theorem nodup_put {table : List (Text × α)} (h : (table.map Prod.fst).Nodup) (id : Text) (value : α) :
    ((put id value table).map Prod.fst).Nodup := by
  rw [map_fst_put]
  split_ifs with hid
  · exact h
  · refine List.nodup_append.mpr ⟨h, by simp, fun k hk k' hk' heq => hid ?_⟩
    rwa [← List.mem_singleton.mp hk', ← heq]

/-- A table with every value mapped. -/
def mapValues (f : α → β) (table : List (Text × α)) : List (Text × β) :=
  table.map fun (id, value) => (id, f value)

theorem put_mapValues (f : α → β) (id : Text) (value : α) (table : List (Text × α)) :
    put id (f value) (mapValues f table) = mapValues f (put id value table) := by
  induction table with
  | nil => rfl
  | cons entry rest ih =>
    obtain ⟨k, old⟩ := entry
    by_cases hk : k = id
    · simp [mapValues, put, hk]
    · simpa [mapValues, put, hk] using ih

theorem lookup_mapValues (f : α → β) (table : List (Text × α)) (id : Text) :
    (mapValues f table).lookup id = (table.lookup id).map f := by
  induction table with
  | nil => rfl
  | cons entry rest ih =>
    rw [mapValues, List.map_cons, List.lookup_cons, List.lookup_cons]
    split
    · rfl
    · exact ih

theorem map_fst_mapValues (f : α → β) (table : List (Text × α)) :
    (mapValues f table).map Prod.fst = table.map Prod.fst := by
  rw [mapValues, List.map_map]
  rfl

theorem lookup_isSome_iff_mem {table : List (Text × α)} {id : Text} :
    (table.lookup id).isSome ↔ id ∈ table.map Prod.fst := by
  rw [List.lookup_isSome_iff, List.mem_map]
  exact exists_congr fun entry => and_congr_right fun _ => by rw [beq_iff_eq, eq_comm]

end

/-! ### One call -/

variable {r : Registry} {kind : RuleKind} {history : List RuleKind}

/-- What a call for a kind gives, and the registry that it leaves. -/
def call (r : Registry) (kind : RuleKind) : Except DuplicateRule RuleKind × Registry :=
  (add kind).run r

theorem call_eq (r : Registry) (kind : RuleKind) :
    r.call kind =
      if (r.find? kind.metadata.id).any (·.label ≠ kind.label) then
        (.error ⟨kind.metadata.id⟩, r)
      else
        (.ok kind, ⟨put kind.metadata.id kind r.kinds,
          put kind.metadata.id kind.metadata r.metadata⟩) := by
  by_cases h : (r.find? kind.metadata.id).any (·.label ≠ kind.label)
  · rw [if_pos h]
    change (ite _ _ _ : ExceptT DuplicateRule (StateM Registry) RuleKind).run r = _
    rw [if_pos h]
    rfl
  · rw [if_neg h]
    change (ite _ _ _ : ExceptT DuplicateRule (StateM Registry) RuleKind).run r = _
    rw [if_neg h]
    rfl

/-- Whether the id of a kind belongs to another kind. -/
def Clashes (r : Registry) (kind : RuleKind) : Prop :=
  ∃ other, r.find? kind.metadata.id = some other ∧ other.label ≠ kind.label

/-- A call for a kind whose id belongs to another one fails, and leaves both tables as they were. -/
theorem call_of_clashes (h : r.Clashes kind) : r.call kind = (.error ⟨kind.metadata.id⟩, r) := by
  obtain ⟨other, hfound, hlabel⟩ := h
  rw [call_eq, if_pos (by simpa [hfound] using hlabel)]

/-- Any other call sets both tables under the id of its kind. -/
theorem call_of_not_clashes (h : ¬r.Clashes kind) :
    r.call kind = (.ok kind, ⟨put kind.metadata.id kind r.kinds,
      put kind.metadata.id kind.metadata r.metadata⟩) := by
  rw [call_eq, if_neg]
  intro hany
  cases hfound : r.find? kind.metadata.id with
  | none => simp [hfound] at hany
  | some other => exact h ⟨other, hfound, by simpa [hfound] using hany⟩

/-! ### Any number of calls -/

/-- The registry after calls for some kinds, one by one. -/
def callEach (r : Registry) (kinds : List RuleKind) : Registry :=
  kinds.foldl (fun r kind => (r.call kind).2) r

/-- What holds of a registry after a history of calls. -/
structure Records (r : Registry) (history : List RuleKind) : Prop where
  metadata : r.metadata = mapValues (·.metadata) r.kinds
  distinct : (r.kinds.map Prod.fst).Nodup
  known : ∀ id kind, r.find? id = some kind → kind ∈ history ∧ kind.metadata.id = id
  first : ∀ id,
    (r.find? id).map (·.label) = (history.find? (·.metadata.id = id)).map (·.label)

namespace Records

theorem start : Records {} [] := ⟨rfl, List.nodup_nil, by simp [find?], by simp [find?]⟩

/-- One more call. -/
theorem call (h : r.Records history) (kind : RuleKind) :
    (r.call kind).2.Records (history ++ [kind]) := by
  by_cases hclash : r.Clashes kind
  · rw [call_of_clashes hclash]
    refine ⟨h.metadata, h.distinct, fun id known hknown => ?_, fun id => ?_⟩
    · exact ⟨List.mem_append_left _ (h.known id known hknown).1, (h.known id known hknown).2⟩
    · rw [h.first, List.find?_append]
      cases hfirst : history.find? (·.metadata.id = id) with
      | some found => rfl
      | none =>
        have hid : kind.metadata.id ≠ id := by
          rintro rfl
          obtain ⟨other, hfound, -⟩ := hclash
          have hlabel := h.first kind.metadata.id
          rw [hfound, hfirst] at hlabel
          cases hlabel
        simp [hid]
  · rw [call_of_not_clashes hclash]
    have hfind (id : Text) : find? ⟨put kind.metadata.id kind r.kinds,
        put kind.metadata.id kind.metadata r.metadata⟩ id =
          if id = kind.metadata.id then some kind else r.find? id :=
      lookup_put kind.metadata.id kind r.kinds id
    refine ⟨?_, nodup_put h.distinct _ _, fun id known hknown => ?_, fun id => ?_⟩
    · simp only [h.metadata]
      exact put_mapValues _ _ _ _
    · rw [hfind] at hknown
      split_ifs at hknown with hid
      · obtain rfl := Option.some.inj hknown
        exact ⟨by simp, hid.symm⟩
      · obtain ⟨hmem, hid⟩ := h.known id known hknown
        exact ⟨List.mem_append_left _ hmem, hid⟩
    · rw [hfind, List.find?_append]
      split_ifs with hid
      · subst hid
        cases hfirst : history.find? (·.metadata.id = kind.metadata.id) with
        | none => simp
        | some found =>
          have hlabel := h.first kind.metadata.id
          rw [hfirst] at hlabel
          obtain ⟨other, hfound, hsame⟩ := Option.map_eq_some_iff.mp hlabel
          by_contra hne
          exact hclash ⟨other, hfound, fun heq => hne (congrArg some (heq.symm.trans hsame))⟩
      · rw [h.first, List.find?_singleton, if_neg (by simpa using Ne.symm hid), Option.or_none]

theorem callEach (h : r.Records history) (kinds : List RuleKind) :
    (r.callEach kinds).Records (history ++ kinds) := by
  induction kinds generalizing r history with
  | nil => simpa [Registry.callEach] using h
  | cons kind kinds ih => simpa [Registry.callEach] using ih (h.call kind)

theorem map_fst (h : r.Records history) : r.metadata.map Prod.fst = r.kinds.map Prod.fst := by
  rw [h.metadata, map_fst_mapValues]

theorem metadata?_eq (h : r.Records history) (id : Text) :
    r.metadata? id = (r.find? id).map (·.metadata) := by
  rw [metadata?, h.metadata, lookup_mapValues, find?]

/-- If kinds of one label are the same, an id has the very kind that came first. -/
theorem find?_eq (h : r.Records history)
    (hsame : ∀ a ∈ history, ∀ b ∈ history, a.label = b.label → a = b) (id : Text) :
    r.find? id = history.find? (·.metadata.id = id) := by
  have hlabel := h.first id
  cases hfirst : history.find? (·.metadata.id = id) with
  | none => simpa [hfirst] using hlabel
  | some first =>
    rw [hfirst] at hlabel
    obtain ⟨kind, hfound, hlabel⟩ := Option.map_eq_some_iff.mp hlabel
    rw [hfound, hsame kind (h.known id kind hfound).1 first (List.mem_of_find?_eq_some hfirst) hlabel]

end Records

/-! ### Listings -/

theorem ids_pairwise (h : (r.kinds.map Prod.fst).Nodup) :
    r.ids.Pairwise fun s t => Text.compare s t = .lt := by
  have hle : r.ids.Pairwise fun s t => (Text.compare s t).isLE := pairwise_mergeSort_of_transCmp _
  have hnodup : r.ids.Nodup := (List.mergeSort_perm _ _).nodup_iff.mpr h
  exact (hle.and hnodup).imp fun ⟨hle, hne⟩ => Text.compare_eq_lt hle hne

theorem mem_ids {id : Text} : id ∈ r.ids ↔ r.contains id :=
  (List.mergeSort_perm _ _).mem_iff.trans lookup_isSome_iff_mem.symm

theorem length_ids (r : Registry) : r.ids.length = r.count := by
  rw [ids, List.length_mergeSort, List.length_map, count]

theorem Records.map_id_allMetadata (h : r.Records history) : r.allMetadata.map (·.id) = r.ids := by
  have hid (id : Text) (hmem : id ∈ r.ids) : (r.metadata? id).map (·.id) = some id := by
    obtain ⟨kind, hfound⟩ := Option.isSome_iff_exists.mp (mem_ids.mp hmem)
    rw [h.metadata?_eq, hfound]
    exact congrArg some (h.known id kind hfound).2
  calc r.allMetadata.map (·.id)
    _ = r.ids.filterMap fun id => (r.metadata? id).map (·.id) := by
      rw [allMetadata, h.map_fst, List.map_filterMap, ids]
    _ = r.ids.filterMap some := List.filterMap_congr hid
    _ = r.ids := List.filterMap_some

theorem create_eq_none_iff {id : Text} {options : Options} {severity : Option Severity} :
    r.create id options severity = none ↔ r.contains id = false := by
  rw [create, Option.map_eq_none_iff, contains, Option.isSome_eq_false_iff, Option.isNone_iff_eq_none]

theorem create_eq_some {id : Text} {options : Options} {severity : Option Severity} {rule : Rule}
    (h : r.create id options severity = some rule) :
    r.find? id = some rule.kind ∧ rule = rule.kind.create options severity := by
  obtain ⟨kind, hfound, rfl⟩ := Option.map_eq_some_iff.mp h
  exact ⟨hfound, rfl⟩

/-! ### Histories -/

/-- The kinds that come with the checker can be taken in one by one. -/
theorem builtin_eq_callEach : builtin = callEach {} Rule.builtinKinds := rfl

/-- After any calls both tables have the same ids, and each id has the kind that a call first gave for
it, as told by labels, with the metadata of that kind. A call fails exactly if its id belongs to
another kind, and changes nothing then. The listings have each id once, in strictly increasing order,
and a rule is made of the kind that its id has, unless there is none. -/
theorem callEach_lawful (history : List RuleKind) :
    let r := callEach {} history
    (r.kinds.map Prod.fst = r.metadata.map Prod.fst ∧ (r.kinds.map Prod.fst).Nodup ∧
      ∀ id, r.metadata? id = (r.find? id).map (·.metadata)) ∧
    (∀ id, (r.find? id).map (·.label) = (history.find? (·.metadata.id = id)).map (·.label)) ∧
    (∀ id kind, r.find? id = some kind → kind ∈ history ∧ kind.metadata.id = id) ∧
    ((∀ a ∈ history, ∀ b ∈ history, a.label = b.label → a = b) →
      ∀ id, r.find? id = history.find? (·.metadata.id = id)) ∧
    (∀ kind, (r.Clashes kind → r.call kind = (.error ⟨kind.metadata.id⟩, r)) ∧
      (¬r.Clashes kind → (r.call kind).1 = .ok kind)) ∧
    r.ids.Pairwise (fun s t => Text.compare s t = .lt) ∧
    r.allMetadata.map (·.id) = r.ids ∧ r.count = r.ids.length ∧
    (∀ id, id ∈ r.ids ↔ r.contains id) ∧
    ∀ id options severity, (r.create id options severity = none ↔ r.contains id = false) ∧
      ∀ rule, r.create id options severity = some rule →
        r.find? id = some rule.kind ∧ rule = rule.kind.create options severity := by
  intro r
  have h : r.Records history := Records.start.callEach history
  refine ⟨⟨h.map_fst.symm, h.distinct, h.metadata?_eq⟩, h.first, h.known, h.find?_eq, fun kind => ?_,
    ids_pairwise h.distinct, h.map_id_allMetadata, (length_ids r).symm, fun id => mem_ids,
    fun id options severity => ⟨create_eq_none_iff, fun rule => create_eq_some⟩⟩
  exact ⟨call_of_clashes, fun hfree => by rw [call_of_not_clashes hfree]⟩

end HouseStyle.Registry
