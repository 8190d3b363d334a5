import HouseStyle.Proofs.Outline.Collected
import HouseStyle.Proofs.Outline.Ended
import HouseStyle.Proofs.Outline.LeadingWord

/-! The tokens behind the keyword of a control header. While they are scanned the run has the tokens
of the header so far, and where all brackets have partners their brackets have them among them. -/

namespace HouseStyle.Outline.Scan

variable {list : List Token} {end_ : Text} {seg : Segment} {known : List Nat} {a z i j k m : Nat}

/-- The tokens from one index to another one. -/
def stretch (list : List Token) (a z : Nat) : List Token := (list.drop a).take (z + 1 - a)

theorem length_stretch (hle : a ≤ z) (hlt : z < list.length) :
    a + (stretch list a z).length = z + 1 := by
  rw [stretch, List.length_take, List.length_drop]
  omega

theorem stands_stretch (list : List Token) (a z : Nat) :
    Stands list.toArray a (stretch list a z) := by
  intro k t hk
  rw [stretch, List.getElem?_take] at hk
  split_ifs at hk
  rwa [List.getElem?_drop, ← List.getElem?_toArray] at hk

/-- What stands between two partners is a Dyck word. -/
theorem exists_dyck_between (hpaired : (Outline.ofTokens list end_).AllPaired)
    (hij : (Outline.ofTokens list end_).partner? i = some j) (hj : j < list.length) :
    ∃ pairs, Dyck (i + 1) (stretch list (i + 1) (j - 1)) pairs := by
  refine @Outline.exists_dyck _ end_ _ _ (stands_stretch list (i + 1) (j - 1)) fun x hix hx hbracket => ?_
  have hxj : x < j := by
    rw [stretch, List.length_take, List.length_drop] at hx
    omega
  obtain ⟨t, ht, hbracket⟩ := tokenIs_iff.mp hbracket
  obtain ⟨y, hxy⟩ := Option.isSome_iff_exists.mp (hpaired x t ht hbracket)
  have := partner_between hij hxy (by omega) hxj
  refine ⟨y, hxy, by omega, ?_⟩
  rw [stretch, List.length_take, List.length_drop]
  omega

/-! ### Pairs before an index -/

/-- The pairs that are known at an index are those in front of it. -/
theorem partner_before_iff (hi : i ≤ list.length) {c d : Nat} :
    partnerIn (before list end_ i).partners c = some d ↔
      (Outline.ofTokens list end_).partner? c = some d ∧ c < i ∧ d < i := by
  have hinv {i : Nat} (hi : i ≤ list.length) := (@before_invariant list end_ i hi).nested
  have hgrows {i : Nat} (hi : i < list.length) :
      (before list end_ i).Grows i (before list end_ (i + 1)) := by
    have ht := List.getElem?_eq_getElem hi
    rw [before_succ ht]
    exact (hinv hi.le).grows (List.getElem?_toArray.trans ht) (step_spec _ _)
  have hlast : (Outline.ofTokens list end_).partner? c = some d ↔
      partnerIn (before list end_ list.length).partners c = some d := by
    rw [ofTokens_partner?, before_length]
  rw [hlast]
  constructor
  · intro h
    refine ⟨?_, (hinv hi).lt h, (hinv hi).lt ((hinv hi).symm c d h)⟩
    have : ∀ j, i ≤ j → j ≤ list.length → partnerIn (before list end_ j).partners c = some d := by
      intro j hij
      induction j, hij using Nat.le_induction with
      | base => exact fun _ => h
      | succ j hij ih => exact fun hj => (hgrows hj).kept c d (ih (by omega))
    exact this _ hi (Nat.le_refl _)
  · rintro ⟨h, hc, hd⟩
    have : ∀ j, i ≤ j → j ≤ list.length → partnerIn (before list end_ j).partners c = some d →
        partnerIn (before list end_ i).partners c = some d := by
      intro j hij
      induction j, hij using Nat.le_induction with
      | base => exact fun _ h => h
      | succ j hij ih =>
        intro hj hjd
        rcases (hgrows hj).added c d hjd with hold | rfl | rfl
        · exact ih (by omega) hold
        · omega
        · omega
    exact this _ hi (Nat.le_refl _) h

/-! ### Behind the keyword -/

/-- A control header, cut behind its keyword. -/
structure Tail (list : List Token) (end_ : Text) (seg : Segment) (known : List Nat) (a z k : Nat) :
    Prop where
  made : MadeAt list end_ seg k
  group : (before list end_ k).groupDepth = 0
  indices : ∃ tail, seg.indices = known ++ tail ∧ tail.head? = some a ∧ tail.getLast? = some z
  lead : seg.lead < known.length
  words : ∀ x ∈ known.drop seg.lead, tokenIs list.toArray isBracket x = false
  kind : seg.kind = .controlHeader

namespace Tail

variable (h : Tail list end_ seg known a z k)
include h

theorem pairwise : seg.indices.Pairwise (· < ·) := by
  rw [h.made.indices_eq]
  exact (@before_invariant list end_ k h.made.le).sound.run.inOrder.pairwise

theorem mem_known_iff {x : Nat} (hx : x ∈ seg.indices) : x ∈ known ↔ x < a := by
  obtain ⟨tail, hindices, ha, -⟩ := h.indices
  have hsorted := h.pairwise
  obtain ⟨rest, rfl⟩ := List.head?_eq_some_iff.mp ha
  rw [hindices] at hsorted hx
  obtain ⟨-, htail, hlt⟩ := List.pairwise_append.mp hsorted
  constructor
  · exact fun hx => hlt x hx a List.mem_cons_self
  · intro hxa
    refine (List.mem_append.mp hx).resolve_right fun hx => ?_
    rcases List.mem_cons.mp hx with rfl | hx
    · exact hxa.false
    · exact (List.rel_of_pairwise_cons htail hx).asymm hxa

theorem known_subset : known ⊆ seg.indices := by
  obtain ⟨tail, hindices, -, -⟩ := h.indices
  rw [hindices]
  exact List.subset_append_left _ _

theorem mem_first : a ∈ seg.indices := by
  obtain ⟨tail, hindices, ha, -⟩ := h.indices
  rw [hindices]
  exact List.mem_append_right _ (List.mem_of_head? ha)

theorem filter_known : seg.indices.filter (· < a) = known := by
  obtain ⟨tail, hindices, ha, hz⟩ := h.indices
  have hmem {x : Nat} := @mem_known_iff _ _ _ _ _ _ _ h x
  rw [hindices, List.filter_append, List.filter_eq_self.mpr, List.filter_eq_nil_iff.mpr,
    List.append_nil]
  · intro x hx hxa
    have hxs : x ∈ seg.indices := by
      rw [hindices]
      exact List.mem_append_right _ hx
    have hsorted := h.pairwise
    rw [hindices] at hsorted
    have hxk := (hmem hxs).mpr (by simpa using hxa)
    exact ((List.pairwise_append.mp hsorted).2.2 x hxk x hx).false
  · intro x hx
    simpa using (hmem (h.known_subset hx)).mp hx

/-- The keyword is no bracket. -/
theorem exists_keyword :
    ∃ p, known.getLast? = some p ∧ tokenIs list.toArray isBracket p = false ∧ p < a := by
  have hlead := h.lead
  obtain ⟨p, hp⟩ : ∃ p, known.getLast? = some p := by
    rw [← Option.ne_none_iff_exists', Ne, List.getLast?_eq_none_iff]
    rintro rfl
    simp at hlead
  have hmem := List.mem_of_getLast? hp
  refine ⟨p, hp, h.words p ?_, (h.mem_known_iff (h.known_subset hmem)).mp hmem⟩
  have hdrop : (known.drop seg.lead).getLast? = some p := by
    rw [List.getLast?_drop, if_neg (by omega), hp]
  exact List.mem_of_getLast? hdrop

theorem first_mem : seg.first ∈ known := by
  obtain ⟨p, hp, -, -⟩ := h.exists_keyword
  obtain ⟨tail, hindices, -, -⟩ := h.indices
  obtain ⟨x, rest, rfl⟩ := List.exists_cons_of_ne_nil (List.ne_nil_of_mem (List.mem_of_getLast? hp))
  simp [Segment.first, hindices]

theorem first_lt : seg.first < a :=
  (h.mem_known_iff (h.known_subset h.first_mem)).mp h.first_mem

theorem last_eq : seg.last = z := by
  obtain ⟨tail, hindices, -, hz⟩ := h.indices
  rw [Segment.last, List.getLastD_eq_getLast?, hindices, List.getLast?_append, hz]
  rfl

theorem lt_end : z < k ∧ Quiet list.toArray z k := by
  have := h.made.quiet
  rwa [h.last_eq] at this

theorem first_le_last : a ≤ z := by
  obtain ⟨tail, hindices, ha, hz⟩ := h.indices
  obtain ⟨rest, rfl⟩ := List.head?_eq_some_iff.mp ha
  have hsorted := h.pairwise
  rw [hindices] at hsorted
  rcases List.mem_cons.mp (List.mem_of_getLast? hz) with rfl | hz
  · exact Nat.le_refl _
  · exact (List.rel_of_pairwise_cons (List.pairwise_append.mp hsorted).2.1 hz).le

theorem loud {x : Nat} (hx : x ∈ seg.indices) : Loud list.toArray x := by
  rw [h.made.indices_eq] at hx
  exact (@before_invariant list end_ k h.made.le).sound.run.inOrder.loud x hx

/-- As long as no closure of the tail is open, the run has the tokens of the header so far. -/
theorem run_eq (hm : a < m) (hmk : m ≤ k)
    (hframes : ∀ j resume depth, .closure j resume depth ∈ (before list end_ m).stack → j < a) :
    (before list end_ m).run.indices.toList = seg.indices.filter (· < m) := by
  have hfirst := h.first_lt
  rcases h.made.collects hmk (by omega) with hrun | ⟨j, resume, depth, hframe, hresume⟩
  · exact hrun
  · have hm' : m ≤ list.length := hmk.trans h.made.le
    obtain ⟨-, -, hsound, hlast⟩ := (@before_invariant list end_ m hm').sound.stack _ hframe
    have ha : a ∈ resume.indices.toList := by
      rw [hresume]
      simpa using ⟨h.mem_first, hm⟩
    exact absurd (hframes j resume depth hframe) (hsound.inOrder.le_getLast ha hlast).not_gt

/-- Between the keyword and the tail the run has the tokens up to the keyword. -/
theorem run_before (hknown : ∀ x ∈ known, x < m) (hma : m ≤ a) :
    (before list end_ m).run.indices.toList = known := by
  have hle := h.first_le_last
  have hlt := h.lt_end.1
  have hfilter : seg.indices.filter (· < m) = known := by
    rw [← h.filter_known]
    refine List.filter_congr fun x hx => ?_
    rw [decide_eq_decide]
    exact ⟨fun hxm => by omega, fun hxa => hknown x ((h.mem_known_iff hx).mpr hxa)⟩
  rcases h.made.collects (show m ≤ k by omega) (hknown _ h.first_mem) with
    hrun | ⟨j, resume, depth, hframe, hresume⟩
  · rw [hrun, hfilter]
  · obtain ⟨p, hp, hbracket, -⟩ := h.exists_keyword
    have hm : m ≤ list.length := by
      have := h.made.le
      omega
    obtain ⟨-, hmark, -, hlast⟩ := (@before_invariant list end_ m hm).sound.stack _ hframe
    rw [hresume, hfilter] at hlast
    obtain rfl := Option.some.inj (hp.symm.trans hlast)
    obtain ⟨t, ht, hmark⟩ := tokenIs_iff.mp hmark
    rw [tokenIs_of_getElem? ht] at hbracket
    have : isBracket t = true := List.any_eq_true.mpr ⟨('{', '}'), by decide, by simp [hmark]⟩
    rw [hbracket] at this
    cases this

theorem run_entry : (before list end_ a).run.indices.toList = known :=
  h.run_before (fun _ hx => (h.mem_known_iff (h.known_subset hx)).mp hx) (Nat.le_refl a)

/-! ### Brackets of the tail -/

/-- What is open where the header ends was open before it began. -/
theorem frames_lt : ∀ frame ∈ (before list end_ k).stack, frame.index < a := by
  refine index_lt_run h.made.le h.group ?_
  rw [← h.made.indices_eq]
  exact h.mem_first

/-- An opening mark of the tail is paired before the header ends. -/
theorem partner_le {x y : Nat} (hax : a ≤ x) (hxz : x ≤ z)
    (hxy : (Outline.ofTokens list end_).partner? x = some y) : y ≤ z := by
  have hinv := @before_invariant list end_ k h.made.le
  obtain ⟨hzk, hquiet⟩ := h.lt_end
  by_contra hlt
  have hky : k ≤ y := by
    refine hquiet.le_of_loud ?_ (by omega)
    obtain ⟨t, ht, hbracket⟩ := tokenIs_iff.mp (isBracket_of_partner (partner_symm hxy))
    obtain ⟨pair, -, hmark⟩ := List.any_eq_true.mp hbracket
    refine ⟨t, ht, ?_⟩
    rcases Bool.or_eq_true_iff.mp hmark with hmark | hmark <;> exact not_isTrivia hmark
  have hopens : OpensAt list.toArray x := by
    rcases match_of_partner hxy with ⟨-, pair, hpair, hopener, -⟩ | ⟨hlt, -⟩
    · exact ⟨pair, hpair, hopener⟩
    · omega
  rcases hinv.nested.openers x (by omega) hopens with ⟨frame, hframe, rfl⟩ | ⟨c, d, hcd, hcx, hxd⟩
  · exact absurd (h.frames_lt frame hframe) (by omega)
  · obtain ⟨hcd, hck, hdk⟩ := (partner_before_iff h.made.le).mp hcd
    have := partner_within hcd hxy hcx hxd.le
    omega

theorem head?_known :
    head? list.toArray (before list end_ k).partners known = some seg.toHead := by
  have hfound := head?_of_headOf h.made.le h.made.toHead_eq.symm h.kind
  rw [← h.made.indices_eq] at hfound
  obtain ⟨tail, hindices, -, -⟩ := h.indices
  rw [hindices] at hfound
  exact (head?_append_iff h.kind).mp ⟨hfound, h.lead⟩

/-- A bracket before the keyword is paired before the tail. -/
theorem partner_known_lt {x y : Nat} (hy : y ∈ known)
    (hxy : (Outline.ofTokens list end_).partner? x = some y) : x < a := by
  have hyx := partner_symm hxy
  obtain ⟨p, hp, -, hpa⟩ := h.exists_keyword
  obtain ⟨i, rest, t, hfrom, -, hhead⟩ := head?_eq_some.mp h.head?_known
  have hdrop : fromHead list.toArray (before list end_ k).partners known = known.drop seg.lead := by
    obtain ⟨us, hus⟩ := @fromHead_suffix list.toArray (before list end_ k).partners known
    rw [hfrom] at hus ⊢
    have hlead : seg.lead = us.length := by
      rw [show seg.lead = seg.toHead.lead from rfl, hhead, ← hus]
      simp
    rw [hlead, ← hus, List.drop_left]
  have hbracket : tokenIs list.toArray isBracket y := isBracket_of_partner (partner_symm hxy)
  have hsorted := h.pairwise
  obtain ⟨tail, hindices, -, -⟩ := h.indices
  rw [hindices] at hsorted
  obtain ⟨c, d, hcd, hcy, hyd, hbefore⟩ := @fromHead_skips _ (before list end_ k).partners _
    (List.pairwise_append.mp hsorted).1 _ hy hbracket
    fun hmem => by
      rw [hdrop] at hmem
      rw [h.words y hmem] at hbracket
      cases hbracket
  have hda : d < a := by
    refine (hbefore p ?_).trans hpa
    have hlead := h.lead
    rw [hdrop]
    refine List.mem_of_getLast? ?_
    rw [List.getLast?_drop, if_neg (by omega), hp]
  obtain ⟨hcd, -, -⟩ := (partner_before_iff h.made.le).mp hcd
  have := partner_within hcd hyx hcy hyd
  omega

/-- A closing mark of the tail is paired in the tail. -/
theorem le_partner {x y : Nat} (hax : a ≤ x) (hxz : x ≤ z)
    (hxy : (Outline.ofTokens list end_).partner? x = some y) : a ≤ y := by
  by_contra hya
  have hzk := h.lt_end.1
  have hle := h.made.le
  have hinv := @before_invariant list end_ x (by omega)
  have hgathered := @before_gathered list end_ x (by omega)
  have ht := List.getElem?_eq_getElem (show x < list.length by omega)
  have hnext := @before_succ list end_ x _ ht
  have hpartner : partnerIn (before list end_ (x + 1)).partners x = some y :=
    (partner_before_iff (by omega)).mpr ⟨hxy, by omega, by omega⟩
  have hfresh := hinv.nested.fresh x (Nat.le_refl x)
  have hrun := @run_eq _ _ _ _ _ _ _ (x + 1) h (by omega) (by omega)
  have ha : a ∈ seg.indices.filter (· < x + 1) := by
    simpa using ⟨h.mem_first, by omega⟩
  have hstep := @step_spec list.toArray end_ x list[x] (before list end_ x) (nextAfter list)
  rw [← hnext] at hstep
  generalize before list end_ (x + 1) = s' at hstep hpartner hrun
  have hclosed {above below : List Frame} {frame : Frame}
      (hstack : (before list end_ x).stack = above ++ frame :: below) (hframe : frame.index = y) :
      ∀ f ∈ below, f.index < a := by
    have hsorted := hinv.nested.sorted
    rw [hstack] at hsorted
    intro f hf
    have := List.rel_of_pairwise_cons (List.pairwise_append.mp hsorted).2.1 hf
    omega
  have hpair {frame : Frame} (hmem : frame ∈ (before list end_ x).stack)
      (heq : partnerIn ((before list end_ x).pair frame.index x).partners x = some y) :
      frame.index = y := by
    rw [hinv.nested.pair_closer (by simpa using show x < list.length by omega) hmem] at heq
    exact Option.some.inj heq
  have hkept (heq : s'.partners = (before list end_ x).partners) : False := by
    rw [heq, hfresh] at hpartner
    cases hpartner
  cases hstep with
  | pass | take | openGroup | openClosure => exact hkept rfl
  | newline | terminator | label | openBlock => exact hkept (by simp)
  | closeGroup above mark m below hstack habove hmark =>
    replace hstack : (before list end_ x).stack = above ++ .group mark m :: below := hstack
    have hm : m = y := @hpair (.group mark m) (by simp [hstack]) hpartner
    have hbelow := hclosed hstack hm
    have hmem : y ∈ (before list end_ x).run.indices.toList := by
      have hgathers := hgathered.run
      rw [hstack] at hgathers
      refine hm ▸ hgathers (.group mark m) ?_
      rw [List.takeWhile_append_of_pos (by simpa using fun f hf => (habove f hf).1),
        List.takeWhile_cons_of_pos rfl]
      simp
    have hrun := hrun fun _ _ _ hf => hbelow _ hf
    have hy : y ∈ seg.indices.filter (· < x + 1) := by
      rw [← hrun]
      simp [Run.push, hmem]
    have hyk := (h.mem_known_iff (List.mem_filter.mp hy).1).mpr (by omega)
    have := h.partner_known_lt hyk hxy
    omega
  | closeBlock above m below hstack habove hmark =>
    replace hstack : (before list end_ x).stack = above ++ .block m :: below := hstack
    have hm : m = y := @hpair (.block m) (by simp [hstack])
      (by simpa [pair, Frame.index] using hpartner)
    have hbelow := hclosed hstack hm
    have hrun := hrun fun _ _ _ hf => hbelow _ hf
    rw [← hrun] at ha
    simp [freshRun] at ha
  | closeClosure above m resume depth below hstack habove hmark =>
    replace hstack : (before list end_ x).stack = above ++ .closure m resume depth :: below := hstack
    have hm : m = y := @hpair (.closure m resume depth) (by simp [hstack])
      (by simpa [pair, Frame.index] using hpartner)
    have hbelow := hclosed hstack hm
    have hlast := (hinv.sound.stack (.closure m resume depth) (by simp [hstack])).2.2.2
    have hrun := hrun fun _ _ _ hf => hbelow _ hf
    have hy : y ∈ seg.indices.filter (· < x + 1) := by
      rw [← hrun, ← hm]
      simp [Run.push, List.mem_of_getLast? hlast]
    have hyk := (h.mem_known_iff (List.mem_filter.mp hy).1).mpr (by omega)
    have := h.partner_known_lt hyk hxy
    omega

/-- The tail is a Dyck word. -/
theorem exists_dyck (hpaired : (Outline.ofTokens list end_).AllPaired) :
    ∃ pairs, Dyck a (stretch list a z) pairs := by
  have hle := h.made.le
  have hzk := h.lt_end.1
  have hlength := length_stretch h.first_le_last (show z < list.length by omega)
  have hclosed (x : Nat) (hax : a ≤ x) (hx : x < a + (stretch list a z).length)
      (hbracket : tokenIs list.toArray isBracket x) :
      ∃ y, (Outline.ofTokens list end_).partner? x = some y ∧ a ≤ y ∧
        y < a + (stretch list a z).length := by
    obtain ⟨t, ht, hbracket⟩ := tokenIs_iff.mp hbracket
    obtain ⟨y, hxy⟩ := Option.isSome_iff_exists.mp (hpaired x t ht hbracket)
    have := h.partner_le hax (by omega) hxy
    exact ⟨y, hxy, h.le_partner hax (by omega) hxy, by omega⟩
  exact Outline.exists_dyck (stands_stretch list a z) hclosed

end Tail

end HouseStyle.Outline.Scan
