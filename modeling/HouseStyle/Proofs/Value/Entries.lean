import HouseStyle.Fault
import HouseStyle.Value.Basic
import Mathlib.Data.List.Forall2
import Mathlib.Tactic.SplitIfs

/-! Entries and records. What is set is found in its place or at the end, so setting keeps keys apart;
and entries whose keys are apart are set as they are. The keys of a record are texts, so its entries
are found by their names. A value is deeper than all its parts, and so than the entries that are read
from it. -/

namespace HouseStyle

/-! ### Steps that can fail -/

theorem ok_bind {ε α β : Type} (a : α) (f : α → Except ε β) : (Except.ok a >>= f) = f a := rfl

/-- What two steps give that can fail is what the second gives after the first. -/
theorem bind_eq_ok {ε α β : Type} {x : Except ε α} {f : α → Except ε β} {b : β} :
    x >>= f = .ok b ↔ ∃ a, x = .ok a ∧ f a = .ok b := by
  cases x with
  | error e => simp [bind, Except.bind]
  | ok a => simp [bind, Except.bind]

/-- Steps that each give something give a list of it. -/
theorem exists_mapM_forall₂ {ε α β : Type} {f : α → Except ε β} {R : β → α → Prop} {xs : List α}
    (h : ∀ x ∈ xs, ∃ y, f x = .ok y ∧ R y x) : ∃ ys, xs.mapM f = .ok ys ∧ List.Forall₂ R ys xs := by
  induction xs with
  | nil => exact ⟨[], rfl, .nil⟩
  | cons x xs ih =>
    obtain ⟨⟨y, hy, hR⟩, hxs⟩ := List.forall_mem_cons.mp h
    obtain ⟨ys, hys, hall⟩ := ih hxs
    exact ⟨y :: ys, by rw [List.mapM_cons, hy, ok_bind, hys]; rfl, .cons hR hall⟩

theorem exists_mapM_eq_ok {ε α β : Type} {f : α → Except ε β} {xs : List α}
    (h : ∀ x ∈ xs, ∃ y, f x = .ok y) : ∃ ys, xs.mapM f = .ok ys := by
  obtain ⟨ys, hys, -⟩ := exists_mapM_forall₂ (R := fun _ _ => True) fun x hx =>
    (h x hx).imp fun _ hy => ⟨hy, trivial⟩
  exact ⟨ys, hys⟩

/-- Where each step gives something, all steps give the list of it. -/
theorem mapM_map_eq_ok {ε α β γ : Type} {f : β → Except ε γ} {g : α → β} {k : α → γ}
    (h : ∀ x, f (g x) = .ok (k x)) (xs : List α) : (xs.map g).mapM f = .ok (xs.map k) := by
  induction xs with
  | nil => rfl
  | cons x xs ih => rw [List.map_cons, List.mapM_cons, h, ok_bind, ih]; rfl

/-! ### Entries -/

namespace Entries

variable {β : Type} {key : Scalar} {value : β} {entries more : List (Scalar × β)}

/-- No entry has the key of one before it. -/
def Distinct (entries : List (Scalar × β)) : Prop :=
  entries.Pairwise fun before after => before.1.sameKey after.1 = false

theorem insert_eq_append (h : ∀ entry ∈ entries, entry.1.sameKey key = false) :
    insert key value entries = entries ++ [(key, value)] := by
  induction entries with
  | nil => rfl
  | cons entry rest ih =>
    obtain ⟨hentry, hrest⟩ := List.forall_mem_cons.mp h
    rw [insert, if_neg (by simp [hentry]), ih hrest, List.cons_append]

/-- Each key that is there after a value is set was there before, or it is the key that was set and
all others differ from it. -/
theorem map_fst_insert : (insert key value entries).map Prod.fst = entries.map Prod.fst ∨
    insert key value entries = entries ++ [(key, value)] ∧
      ∀ entry ∈ entries, entry.1.sameKey key = false := by
  by_cases h : ∀ entry ∈ entries, entry.1.sameKey key = false
  · exact .inr ⟨insert_eq_append h, h⟩
  · refine .inl ?_
    induction entries with
    | nil => simp at h
    | cons entry rest ih =>
      rw [insert]
      split_ifs with hentry
      · rfl
      · have hrest : ¬∀ other ∈ rest, other.1.sameKey key = false := fun hrest =>
          h (List.forall_mem_cons.mpr ⟨by simpa using hentry, hrest⟩)
        rw [List.map_cons, List.map_cons, ih hrest]

theorem Distinct.insert (h : Distinct entries) (key : Scalar) (value : β) :
    Distinct (insert key value entries) := by
  have hkeys {es : List (Scalar × β)} : Distinct es ↔
      (es.map Prod.fst).Pairwise fun before after => before.sameKey after = false := by
    rw [List.pairwise_map, Distinct]
  rcases map_fst_insert with hsame | ⟨happend, hnew⟩
  · rwa [hkeys, hsame, ← hkeys]
  · rw [happend]
    exact List.pairwise_append.mpr ⟨h, List.pairwise_singleton _ _, by simpa using hnew⟩

theorem Distinct.update (h : Distinct entries) (more : List (Scalar × β)) :
    Distinct (update entries more) := by
  induction more generalizing entries with
  | nil => exact h
  | cons entry rest ih => exact ih (h.insert entry.1 entry.2)

/-- Entries whose keys are apart are set as they are. -/
theorem update_eq_append (h : Distinct (entries ++ more)) : update entries more = entries ++ more := by
  induction more generalizing entries with
  | nil => exact (List.append_nil _).symm
  | cons entry rest ih =>
    have hnew : ∀ before ∈ entries, before.1.sameKey entry.1 = false := fun before hbefore =>
      (List.pairwise_append.mp h).2.2 before hbefore entry List.mem_cons_self
    have hstep : insert entry.1 entry.2 entries = entries ++ [entry] := insert_eq_append hnew
    rw [List.append_cons] at h ⊢
    rw [← ih h, ← hstep]
    rfl

/-- What holds of the keys and of the values that are set holds of all entries after it. -/
theorem forall_insert {p : Scalar → Prop} {q : β → Prop} (hkey : p key) (hvalue : q value)
    (h : ∀ entry ∈ entries, p entry.1 ∧ q entry.2) :
    ∀ entry ∈ insert key value entries, p entry.1 ∧ q entry.2 := by
  induction entries with
  | nil => simp [insert, hkey, hvalue]
  | cons entry rest ih =>
    obtain ⟨hentry, hrest⟩ := List.forall_mem_cons.mp h
    rw [insert]
    split_ifs
    · exact List.forall_mem_cons.mpr ⟨⟨hentry.1, hvalue⟩, hrest⟩
    · exact List.forall_mem_cons.mpr ⟨hentry, ih hrest⟩

theorem forall_update {p : Scalar → Prop} {q : β → Prop}
    (h : ∀ entry ∈ entries, p entry.1 ∧ q entry.2) (hmore : ∀ entry ∈ more, p entry.1 ∧ q entry.2) :
    ∀ entry ∈ update entries more, p entry.1 ∧ q entry.2 := by
  induction more generalizing entries with
  | nil => exact h
  | cons entry rest ih =>
    obtain ⟨hentry, hrest⟩ := List.forall_mem_cons.mp hmore
    exact ih (forall_insert hentry.1 hentry.2 h) hrest

theorem mem_of_lookup {v : β} (h : entries.lookup key = some v) : (key, v) ∈ entries := by
  obtain ⟨before, after, rfl, -⟩ := List.lookup_eq_some_iff.mp h
  simp

end Entries

/-! ### Records -/

/-- The entries of a record. -/
def Entries.named {β : Type} (fields : List (Text × β)) : List (Scalar × β) :=
  fields.map fun (name, value) => (.text name, value)

namespace Entries

variable {β : Type} {name : Text} {fields : List (Text × β)}

theorem lookup_named (name : Text) (fields : List (Text × β)) :
    (named fields).lookup (.text name) = fields.lookup name := by
  induction fields with
  | nil => rfl
  | cons field rest ih =>
    obtain ⟨key, value⟩ := field
    have hkey : (Scalar.text name == Scalar.text key) = (name == key) := by
      rw [Bool.eq_iff_iff, beq_iff_eq, beq_iff_eq, Scalar.text.injEq]
    rw [named, List.map_cons, List.lookup_cons, List.lookup_cons, hkey, ← named, ih]

theorem lookup_named_of_absent (h : ∀ field ∈ fields, field.1 ≠ name) :
    (named fields).lookup (.text name) = none := by
  rw [lookup_named, List.lookup_eq_none_iff]
  exact fun field hfield => by simpa using (h field hfield).symm

/-- The entries of a record but one. -/
theorem erase_named (name : Text) (fields : List (Text × β)) :
    erase (.text name) (named fields) = named (fields.filter fun field => field.1 ≠ name) := by
  simp only [erase, named, List.filter_map]
  congr 2
  funext field
  simp

theorem erase_named_of_absent (h : ∀ field ∈ fields, field.1 ≠ name) :
    erase (.text name) (named fields) = named fields := by
  rw [erase_named, List.filter_eq_self.mpr fun field hfield => by simpa using h field hfield]

theorem sameKey_text (s t : Text) : (Scalar.text s).sameKey (.text t) = decide (s = t) := by
  simp [Scalar.sameKey, Scalar.whole?]

theorem distinct_named (h : (fields.map Prod.fst).Nodup) : Distinct (named fields) := by
  rw [Distinct, named, List.pairwise_map]
  exact (List.pairwise_map.mp h).imp fun hne => by simpa [sameKey_text] using hne

end Entries

theorem Value.field?_record (name : Text) (fields : List (Text × Value)) :
    (Value.record fields).field? name = fields.lookup name :=
  Entries.lookup_named name fields

/-! ### Depth -/

/-- No more than `n` lists and mappings are inside each other. -/
def Value.Fits (v : Value) (n : Nat) : Prop := v.isDeeper n = false

/-- The values of some entries fit. -/
def Entries.Fit (entries : List (Scalar × Value)) (n : Nat) : Prop := ∀ entry ∈ entries, entry.2.Fits n

namespace Entries.Fit

variable {entries more : List (Scalar × Value)} {n : Nat}

theorem insert {key : Scalar} {value : Value} (h : Entries.Fit entries n) (hvalue : value.Fits n) :
    Entries.Fit (Entries.insert key value entries) n := fun entry hentry =>
  (Entries.forall_insert (p := fun _ => True) (q := (Value.Fits · n)) trivial hvalue
    (fun e he => ⟨trivial, h e he⟩) entry hentry).2

theorem update (h : Entries.Fit entries n) (hmore : Entries.Fit more n) :
    Entries.Fit (Entries.update entries more) n := fun entry hentry =>
  (Entries.forall_update (p := fun _ => True) (q := (Value.Fits · n))
    (fun e he => ⟨trivial, h e he⟩) (fun e he => ⟨trivial, hmore e he⟩) entry hentry).2

theorem filter (h : Entries.Fit entries n) (p : Scalar × Value → Bool) :
    Entries.Fit (entries.filter p) n := fun entry hentry => h entry (List.mem_filter.mp hentry).1

theorem of_lookup {key : Scalar} {value : Value} (h : Entries.Fit entries n)
    (hvalue : entries.lookup key = some value) : value.Fits n :=
  h _ (Entries.mem_of_lookup hvalue)

theorem getD_lookup {key : Scalar} {default : Value} (h : Entries.Fit entries n)
    (hdefault : default.Fits n) : ((entries.lookup key).getD default).Fits n := by
  cases hlookup : entries.lookup key with
  | none => exact hdefault
  | some value => exact h.of_lookup hlookup

end Entries.Fit

namespace Value

theorem anyDeeper_eq_false {items : List Value} {n : Nat} :
    anyDeeper items n = false ↔ ∀ item ∈ items, item.Fits n := by
  induction items with
  | nil => simp [anyDeeper]
  | cons item rest ih => rw [anyDeeper, Bool.or_eq_false_iff, ih, List.forall_mem_cons, Fits]

theorem anyEntryDeeper_eq_false {entries : List (Scalar × Value)} {n : Nat} :
    anyEntryDeeper entries n = false ↔ Entries.Fit entries n := by
  induction entries with
  | nil => simp [anyEntryDeeper, Entries.Fit]
  | cons entry rest ih =>
    rw [anyEntryDeeper, Bool.or_eq_false_iff, ih, Entries.Fit, Entries.Fit, List.forall_mem_cons, Fits]

@[simp] theorem fits_scalar (s : Scalar) (n : Nat) : (scalar s).Fits n := rfl

theorem fits_list {items : List Value} {n : Nat} :
    (list items).Fits (n + 1) ↔ ∀ item ∈ items, item.Fits n := anyDeeper_eq_false

theorem fits_tuple {items : List Value} {n : Nat} :
    (tuple items).Fits (n + 1) ↔ ∀ item ∈ items, item.Fits n := anyDeeper_eq_false

theorem fits_map {entries : List (Scalar × Value)} {n : Nat} :
    (map entries).Fits (n + 1) ↔ Entries.Fit entries n := anyEntryDeeper_eq_false

theorem fits_record {fields : List (Text × Value)} {n : Nat} :
    (record fields).Fits (n + 1) ↔ ∀ field ∈ fields, field.2.Fits n := by
  rw [record, fits_map, Entries.Fit, List.forall_mem_map]

mutual

theorem Fits.succ : {v : Value} → {n : Nat} → v.Fits n → v.Fits (n + 1)
  | .scalar _, _, _ => rfl
  | .set _, _, _ => rfl
  | .list items, _ + 1, h => fits_list.mpr (fits_items_succ items (fits_list.mp h))
  | .tuple items, _ + 1, h => fits_tuple.mpr (fits_items_succ items (fits_tuple.mp h))
  | .map entries, _ + 1, h => fits_map.mpr (fits_entries_succ entries (fits_map.mp h))

theorem fits_items_succ {n : Nat} : (items : List Value) → (∀ item ∈ items, item.Fits n) →
    ∀ item ∈ items, item.Fits (n + 1)
  | [], _ => by simp
  | item :: rest, h =>
    List.forall_mem_cons.mpr ⟨(h item List.mem_cons_self).succ,
      fits_items_succ rest (List.forall_mem_cons.mp h).2⟩

theorem fits_entries_succ {n : Nat} : (entries : List (Scalar × Value)) → Entries.Fit entries n →
    Entries.Fit entries (n + 1)
  | [], _ => by simp [Entries.Fit]
  | (key, value) :: rest, h =>
    List.forall_mem_cons.mpr ⟨Fits.succ (v := value) (h (key, value) List.mem_cons_self),
      fits_entries_succ rest (List.forall_mem_cons.mp h).2⟩

end

theorem Fits.opened {v : Value} {n : Nat} (h : v.Fits n) : v.opened = v := by
  cases v with
  | knot cells number => cases h
  | _ => rfl

theorem Fits.items {v : Value} {n : Nat} {items : List Value} (h : v.Fits (n + 1))
    (hitems : v.items? = some items) : ∀ item ∈ items, item.Fits n := by
  rw [items?, h.opened] at hitems
  cases v with
  | scalar s =>
    cases s <;> cases hitems <;> simp [nat]
  | list parts =>
    cases hitems
    exact fits_list.mp h
  | tuple parts =>
    cases hitems
    exact fits_tuple.mp h
  | set members =>
    cases hitems
    exact List.forall_mem_map.mpr fun _ _ => rfl
  | map entries =>
    cases hitems
    exact List.forall_mem_map.mpr fun _ _ => rfl
  | knot cells number => cases h

theorem Fits.pair {item : Value} {n place : Nat} {entry : Scalar × Value} (h : item.Fits n)
    (hpair : pair place item = .ok entry) : entry.2.Fits n := by
  unfold Value.pair at hpair
  split at hpair
  · cases hpair
  · cases hpair
    exact h.succ.items ‹_› _ (by simp)
  · cases hpair
  · cases hpair

theorem fit_pairs {items : List Value} {n place : Nat} {entries : List (Scalar × Value)}
    (h : ∀ item ∈ items, item.Fits n) (hpairs : pairs place items = .ok entries) :
    Entries.Fit entries n := by
  induction items generalizing place entries with
  | nil =>
    cases hpairs
    simp [Entries.Fit]
  | cons item rest ih =>
    obtain ⟨hitem, hrest⟩ := List.forall_mem_cons.mp h
    obtain ⟨entry, hentry, hpairs⟩ := bind_eq_ok.mp hpairs
    obtain ⟨others, hothers, hpairs⟩ := bind_eq_ok.mp hpairs
    cases hpairs
    exact List.forall_mem_cons.mpr ⟨hitem.pair hentry, ih hrest hothers⟩

/-- The entries that are read from a value are less deep than it. -/
theorem Fits.entries {v : Value} {n : Nat} {entries : List (Scalar × Value)} (h : v.Fits (n + 1))
    (hentries : v.entriesOrFault = .ok entries) : Entries.Fit entries n := by
  unfold entriesOrFault at hentries
  split at hentries
  · rename_i read hread
    cases hentries
    rw [Value.entries, h.opened] at hread
    split at hread
    · cases hread
      exact fits_map.mp h
    · split at hread
      · cases hread
      · rename_i items hitems
        obtain ⟨read, hpairs, hread⟩ := bind_eq_ok.mp hread
        cases hread
        exact Entries.Fit.update (by simp [Entries.Fit]) (fit_pairs (h.items hitems) hpairs)
  · cases hentries

end Value

end HouseStyle
