import HouseStyle.Proofs.Edit.Parens
import HouseStyle.Proofs.Outline.Respaced

/-! Parentheses taken from around the tail of a loop header, with the white space right inside them.
White space changes nothing, so what happens is what happens without the parentheses alone. -/

namespace HouseStyle

open Outline

/-- What an outline keeps when the parentheses around the tail of a header go. The code tokens are the
old ones but for the parentheses, the header is the old one without them and opens the same block, all
other segments are the old ones, and so are the braces that open closures. -/
structure Outline.Bared (o o' : Outline) (hdr hdr' : Segment) (a z : Nat) (place : Nat → Nat) :
    Prop where
  mono : StrictMono place
  code : ∀ i t, o'.token? i = some t → t.isTrivia = false → place i ≠ a ∧ place i ≠ z ∧
    ∃ u, o.token? (place i) = some u ∧ u.kind = t.kind ∧ u.text = t.text
  onto : ∀ m u, o.token? m = some u → u.isTrivia = false → m = a ∨ m = z ∨ ∃ i, place i = m
  mem : hdr' ∈ o'.segments
  indices : hdr'.indices.map place = hdr.indices.filter fun i => i ≠ a && i ≠ z
  header : hdr = { hdr'.rename place with indices := hdr.indices }
  segments : o.segments = o'.segments.map (reformed place hdr' hdr)
  partners : ∀ i j, o'.partner? i = some j → o.partner? (place i) = some (place j)
  closures : o.closures = o'.closures.map place

namespace Outline

/-! ### White space changes nothing -/

namespace Thins

variable {list list' : List Token} {end_ : Text} {f : Nat → Nat} (h : Thins list list' end_ f)
include h

theorem partner_iff {i j : Nat} (hi : i < list.length) :
    (Outline.ofTokens list' end_).partner? (f i) = some (f j) ↔
      (Outline.ofTokens list end_).partner? i = some j := by
  rw [h.agrees.partner i (List.mem_range.mpr hi)]
  constructor
  · intro hj
    obtain ⟨k, hk, hkj⟩ := Option.map_eq_some_iff.mp hj
    rw [hk, h.renames.mono.injective hkj]
  · intro hj
    rw [hj]
    rfl

theorem allPaired (hpaired : (Outline.ofTokens list' end_).AllPaired) :
    (Outline.ofTokens list end_).AllPaired := by
  intro i t ht hbracket
  have ht : list[i]? = some t := List.getElem?_toArray.symm.trans ht
  obtain ⟨t', ht', hlexeme⟩ := h.renames.exists_token ht
  have hpaired := hpaired (f i) t' (List.getElem?_toArray.trans ht') (by rwa [isBracket, hlexeme])
  rw [h.agrees.partner i (List.mem_range.mpr (List.getElem?_eq_some_iff.mp ht).1)] at hpaired
  simpa using hpaired

theorem exists_segment {seg : Segment} (hseg : seg ∈ (Outline.ofTokens list' end_).segments) :
    ∃ seg₁ ∈ (Outline.ofTokens list end_).segments, seg₁.rename f = seg := by
  rw [h.agrees.segments] at hseg
  exact List.mem_map.mp hseg

theorem quiet {p n : Nat} (hn : n < list.length) (hquiet : Quiet list.toArray p n) :
    Quiet list'.toArray (f p) (f n) := by
  have hmono := h.renames.mono
  have hn' : f n < list'.length := by
    simpa using (h.renames.lt_size_iff n).mpr (by simpa using hn)
  intro m hpm hmn
  by_cases hplace : ∃ k, f k = m
  · obtain ⟨k, rfl⟩ := hplace
    rw [h.renames.tokenIs_map (·.isTrivia)]
    exact hquiet k (hmono.lt_iff_lt.mp hpm) (hmono.lt_iff_lt.mp hmn)
  · have ht := List.getElem?_eq_getElem (show m < list'.length by omega)
    rw [tokenIs_of_getElem? (List.getElem?_toArray.trans ht)]
    exact (h.passes m _ ht (by simpa using hplace)).1

theorem carriesOn {i j : Nat} (hj : j < list.length)
    (hcarries : (Outline.ofTokens list' end_).CarriesOn (f i) (f j)) :
    (Outline.ofTokens list end_).CarriesOn i j := by
  have hmono := h.renames.mono
  have hlevel {x : Nat} (hix : i < x) (hxj : x < j)
      (hx : (Outline.ofTokens list end_).nestingAt x = (Outline.ofTokens list end_).nestingAt i + 1) :
      (Outline.ofTokens list' end_).nestingAt (f x) =
        (Outline.ofTokens list' end_).nestingAt (f i) + 1 := by
    rw [h.nestingAt_eq (by omega), h.nestingAt_eq (by omega), hx]
  constructor
  · intro x hix hxj hx
    have := hcarries.brace (f x) (hmono hix) (hmono hxj) (hlevel hix hxj hx)
    exact (h.renames.tokenIs_map (·.isMark '{') x).symm.trans this
  · intro p x n hip hpx hxn hnj hx hnewline hp hn hquiet
    have := hcarries.newline (f p) (f x) (f n) (hmono hip) (hmono hpx) (hmono hxn) (hmono hnj)
      (hlevel (by omega) (by omega) hx)
      ((h.renames.tokenIs_map (·.kind = .newline) x).trans hnewline) (h.renames.loud_iff.mpr hp)
      (h.renames.loud_iff.mpr hn) (h.quiet (by omega) hquiet)
    exact (h.renames.carriesOn_map p n).symm.trans this

end Thins

/-! ### Without the parentheses -/

section

variable {list list' inside inside' : List Token} {end_ : Text} {f g place : Nat → Nat}
  {seg hdr : Segment} {known tail : List Nat} {a z : Nat}

theorem Renaming.isBracket_map {tokens tokens' : Array Token} (h : Renaming tokens tokens' f)
    (x : Nat) : tokenIs tokens' isBracket (f x) = tokenIs tokens isBracket x :=
  h.tokenIs_map (fun l => brackets.any fun pair => l.isMark pair.1 || l.isMark pair.2) x

theorem spread_ne (haz : a ≤ z) (j : Nat) : spread a z j ≠ a ∧ spread a z j ≠ z + 2 := by
  unfold spread
  split_ifs <;> omega

theorem rename_injective (hf : f.Injective) : (Segment.rename f).Injective := by
  intro s t h
  obtain ⟨head, indices, boundary, _, _, _, container, _⟩ := s
  obtain ⟨head', indices', boundary', _, _, _, container', _⟩ := t
  simp only [Segment.rename, Segment.mk.injEq] at h ⊢
  obtain ⟨hhead, hindices, hboundary, hterminated, hopens, hlabel, hcontainer, hdepth⟩ := h
  exact ⟨hhead, hf.list_map hindices, Option.map_injective hf hboundary, hterminated, hopens, hlabel,
    Option.map_injective hf hcontainer, hdepth⟩

section

variable (hf : Thins inside list' end_ f) (hg : Thins inside' list end_ g)
  (henc : Encloses inside inside' a z) (hplace : ∀ j, place (f j) = g (spread a z j))
include hg henc

theorem place_ne (j : Nat) : g (spread a z j) ≠ g a ∧ g (spread a z j) ≠ g (z + 2) := by
  have hinjective := hg.renames.mono.injective
  exact ⟨fun heq => (spread_ne henc.le j).1 (hinjective heq),
    fun heq => (spread_ne henc.le j).2 (hinjective heq)⟩

theorem filter_place (indices : List Nat) : ((indices.map (spread a z)).map g).filter
    (fun i => i ≠ g a && i ≠ g (z + 2)) = (indices.map (spread a z)).map g := by
  rw [List.filter_eq_self]
  intro i hi
  simp only [List.map_map, List.mem_map] at hi
  obtain ⟨j, -, rfl⟩ := hi
  simpa using place_ne hg henc j

include hplace

/-- No code is lost but for the parentheses. -/
theorem exists_place {m : Nat} {u : Token} (hu : list.toArray[m]? = some u)
    (hcode : u.isTrivia = false) : m = g a ∨ m = g (z + 2) ∨ ∃ i, place i = m := by
  obtain ⟨k, rfl⟩ := hg.exists_of_loud ⟨u, hu, hcode⟩
  by_cases ha : k = a
  · exact .inl (by rw [ha])
  by_cases hz : k = z + 2
  · exact .inr (.inl (by rw [hz]))
  obtain ⟨j, rfl⟩ := exists_spread henc.le ha hz
  exact .inr (.inr ⟨f j, hplace j⟩)

include hf

/-- Code is read as it was. -/
theorem code_place {i : Nat} {t : Token} (ht : list'.toArray[i]? = some t)
    (hcode : t.isTrivia = false) : place i ≠ g a ∧ place i ≠ g (z + 2) ∧
      ∃ u, list.toArray[place i]? = some u ∧ u.kind = t.kind ∧ u.text = t.text := by
  obtain ⟨j, rfl⟩ := hf.exists_of_loud ⟨t, ht, hcode⟩
  have hsame : (list.toArray[place (f j)]?).map (·.toLexeme) =
      (list'.toArray[f j]?).map (·.toLexeme) := by
    rw [hplace, hg.renames.lexeme, henc.renames.lexeme, hf.renames.lexeme]
  rw [ht] at hsame
  obtain ⟨u, hu, hlexeme⟩ := Option.map_eq_some_iff.mp hsame
  rw [hplace] at hu ⊢
  exact ⟨(place_ne hg henc j).1, (place_ne hg henc j).2, u, hu, congrArg Lexeme.kind hlexeme,
    congrArg Lexeme.text hlexeme⟩

theorem partner_place (hpartners : ∀ j, (Outline.ofTokens inside' end_).partner? (spread a z j) =
      ((Outline.ofTokens inside end_).partner? j).map (spread a z)) {i j : Nat}
    (hij : (Outline.ofTokens list' end_).partner? i = some j) :
    (Outline.ofTokens list end_).partner? (place i) = some (place j) := by
  obtain ⟨i, rfl⟩ := hf.exists_of_partner hij
  obtain ⟨j, rfl⟩ := hf.exists_of_partner (partner_symm hij)
  have hi : i < inside.length := by
    obtain ⟨t, ht, -⟩ := tokenIs_iff.mp (isBracket_of_partner hij)
    simpa using (hf.renames.lt_size_iff i).mp (Array.getElem?_eq_some_iff.mp ht).1
  have hi' : spread a z i < inside'.length := by
    simpa using (henc.renames.lt_size_iff i).mpr (by simpa using hi)
  rw [hplace, hplace, hg.partner_iff hi', hpartners, (hf.partner_iff hi).mp hij]
  rfl

/-- Where white space stands in two lists of which one has parentheses around the tail of a header. -/
theorem bared_of_enclosed (hmono : StrictMono place)
    (hseg : seg ∈ (Outline.ofTokens inside end_).segments) (hindices : seg.indices = known ++ tail)
    (hhdr : hdr = seg.enclosed a z known tail)
    (hsegments : (Outline.ofTokens inside' end_).segments =
      (Outline.ofTokens inside end_).segments.map (reformed (spread a z) seg hdr))
    (hpartners : ∀ j, (Outline.ofTokens inside' end_).partner? (spread a z j) =
      ((Outline.ofTokens inside end_).partner? j).map (spread a z))
    (hclosures : (Outline.ofTokens inside' end_).closures =
      (Outline.ofTokens inside end_).closures.map (spread a z)) :
    (Outline.ofTokens list end_).Bared (Outline.ofTokens list' end_) (hdr.rename g) (seg.rename f)
      (g a) (g (z + 2)) place := by
  have hagree := hf.agrees
  have hagree' := hg.agrees
  have hlist (indices : List Nat) :
      (indices.map f).map place = (indices.map (spread a z)).map g := by
    simp [Function.comp_def, hplace]
  have hoption (found : Option Nat) :
      (found.map f).map place = (found.map (spread a z)).map g := by
    simp [Option.map_map, Function.comp_def, hplace]
  have hrename (s : Segment) : (s.rename f).rename place = (s.rename (spread a z)).rename g := by
    simp only [Segment.rename, hlist, hoption]
  constructor
  case mono => exact hmono
  case code => exact fun i t ht hcode => code_place hf hg henc hplace ht hcode
  case onto => exact fun m u hu hcode => exists_place hg henc hplace hu hcode
  case mem =>
    rw [hagree.segments]
    exact List.mem_map_of_mem hseg
  case indices =>
    have hkept := filter_place hg henc
    rw [hhdr]
    change (seg.indices.map f).map place = ((known.map (spread a z) ++ a :: tail.map (spread a z) ++
      [z + 2]).map g).filter _
    simp only [List.map_append, List.map_cons, List.map_nil, List.filter_append, List.filter_cons,
      List.filter_nil, hkept, hlist, hindices]
    simp
  case header =>
    rw [hrename, hhdr]
    rfl
  case segments =>
    rw [hagree.segments, hagree'.segments, hsegments, List.map_map, List.map_map]
    refine List.map_congr_left fun s _ => ?_
    simp only [Function.comp_apply, reformed,
      (rename_injective hf.renames.mono.injective).eq_iff]
    split_ifs
    · rfl
    · exact (hrename s).symm
  case partners => exact fun i j hij => partner_place hf hg henc hplace hpartners hij
  case closures => rw [hagree.closures, hagree'.closures, hclosures, hlist]

end

/-- In a list with white space the parentheses go as they do without it. -/
theorem exists_bared_of_thins (hf : Thins inside list' end_ f) (hg : Thins inside' list end_ g)
    (henc : Encloses inside inside' a z) (hmono : StrictMono place)
    (hplace : ∀ j, place (f j) = g (spread a z j)) (hfirst : Loud inside.toArray a)
    (hpaired : (Outline.ofTokens list end_).AllPaired)
    (hhdr : hdr ∈ (Outline.ofTokens list end_).segments) (hkind : hdr.kind = .controlHeader)
    (hopens : hdr.opensBlock)
    (hindices : ∃ tail, hdr.indices = known ++ tail ∧ tail.head? = some (g a) ∧
      tail.getLast? = some (g (z + 2)))
    (hlead : hdr.lead < known.length)
    (hwords : ∀ x ∈ known.drop hdr.lead, tokenIs list.toArray isBracket x = false)
    (hfor : ∃ p, known.getLast? = some p ∧ tokenIs list.toArray (·.isKeyword ["for"]) p)
    (hparens : (Outline.ofTokens list end_).partner? (g a) = some (g (z + 2)))
    (hcarries : (Outline.ofTokens list end_).CarriesOn (g a) (g (z + 2)))
    (hends : ∀ x, g a < x → x < g (z + 2) → (Outline.ofTokens list end_).nestingAt x =
      (Outline.ofTokens list end_).nestingAt (g a) + 1 →
      tokenIs list.toArray (·.isPunct end_) x = false) :
    ∃ hdr', (Outline.ofTokens list end_).Bared (Outline.ofTokens list' end_) hdr hdr' (g a)
      (g (z + 2)) place := by
  have hmono' := hg.renames.mono
  have hlength := henc.length
  have hlt := henc.lt_length
  have hle := henc.le
  obtain ⟨hdr, hmem, rfl⟩ := hg.exists_segment hhdr
  obtain ⟨tail, hrun, hhead, hlast⟩ := hindices
  obtain ⟨known, tail, hindices, rfl, rfl⟩ := List.map_eq_append_iff.mp hrun
  have hend {found : Option Nat} {x : Nat} (h : found.map g = some (g x)) : found = some x := by
    obtain ⟨y, hy, heq⟩ := Option.map_eq_some_iff.mp h
    rw [hy, hmono'.injective heq]
  rw [List.head?_map] at hhead
  rw [List.getLast?_map] at hlast
  obtain ⟨k, htail, hmade⟩ := exists_tail (hg.allPaired hpaired) hmem hkind
    ⟨tail, hindices, hend hhead, hend hlast⟩ (hlead.trans_eq (List.length_map ..)) fun x hx => by
      refine (hg.renames.isBracket_map x).symm.trans (hwords (g x) ?_)
      rw [← List.map_drop]
      exact List.mem_map_of_mem hx
  have hblock : Scan.BlockAt inside' end_ hdr k := by
    rcases hmade with hblock | ⟨hclosed, -⟩
    · exact hblock
    · exact absurd hopens (by simp [Segment.rename, hclosed])
  obtain ⟨seg, tail', hseg, hindices', henclosed, hsegments, hpartners, hclosures⟩ :=
    htail.unparenthesized henc (hg.allPaired hpaired)
      ((hg.partner_iff (by omega)).mp hparens)
      (by
        obtain ⟨p, hp, hword⟩ := hfor
        rw [List.getLast?_map] at hp
        obtain ⟨q, hq, rfl⟩ := Option.map_eq_some_iff.mp hp
        exact ⟨q, hq, (hg.renames.tokenIs_map (·.isKeyword ["for"]) q).symm.trans hword⟩)
      hfirst (hg.carriesOn (by omega) hcarries)
      (fun x hax hxz hlevel => by
        rw [← hg.renames.tokenIs_map (·.isPunct end_)]
        refine hends (g x) (hmono' hax) (hmono' hxz) ?_
        rw [hg.nestingAt_eq (by omega), hg.nestingAt_eq (by omega), hlevel])
      hblock
  exact ⟨seg.rename f, bared_of_enclosed hf hg henc hplace hmono hseg hindices' henclosed hsegments
    hpartners hclosures⟩

end

section

variable {front lead inner trail back before after : List Lexeme} {opener closer : Lexeme}
  {end_ : Text} {hdr : Segment} {known : List Nat} {z : Nat}

theorem exists_bared_of_lexemes (h : Bares front lead inner trail back before after opener closer)
    (hz : z = front.length + 1 + lead.length + inner.length + trail.length)
    {o o' : Outline}
    (ho : o = ofLexemes (front ++ [opener] ++ lead ++ inner ++ trail ++ closer :: back) end_)
    (ho' : o' = ofLexemes (front ++ before ++ inner ++ after ++ back) end_)
    (hpaired : o.AllPaired) (hhdr : hdr ∈ o.segments) (hkind : hdr.kind = .controlHeader)
    (hopens : hdr.opensBlock)
    (hindices : ∃ tail, hdr.indices = known ++ tail ∧ tail.head? = some front.length ∧
      tail.getLast? = some z)
    (hlead : hdr.lead < known.length)
    (hwords : ∀ x ∈ known.drop hdr.lead, o.at_ x isBracket = false)
    (hfor : ∃ p, known.getLast? = some p ∧ o.at_ p (·.isKeyword ["for"]))
    (hparens : o.partner? front.length = some z) (hcarries : o.CarriesOn front.length z)
    (hends : ∀ x, front.length < x → x < z → o.nestingAt x = o.nestingAt front.length + 1 →
      o.at_ x (·.isPunct end_) = false) :
    ∃ hdr' place, o.Bared o' hdr hdr' front.length z place := by
  subst ho ho'
  have hinner : 0 < inner.length := by
    obtain ⟨l, hl, -⟩ := h.last
    exact List.length_pos_of_mem (List.mem_of_getLast? hl)
  have hbefore : before.length ≤ 1 ∧ ∀ l ∈ before, l.kind = .whitespace := by
    rcases h.enters with ⟨rfl, -⟩ | ⟨rfl, -⟩ <;> simp [blank]
  have hafter : after.length ≤ 1 ∧ ∀ l ∈ after, l.kind = .whitespace := by
    rcases h.leaves with ⟨rfl, -⟩ | ⟨rfl, -⟩ <;> simp [blank]
  -- The old list without the white space in the parentheses, and the new one without blanks.
  have hthins := thins_inside (fun l hl => isTrivia_of_isSpace (h.leads l hl))
    (fun l hl => isTrivia_of_isSpace (h.trails l hl)) (List.length_append ..)
    ⟨opener, by simp, h.opens⟩ hpaired (by rw [hparens, hz]; simp)
  have hthins' := @thins_blanks front _ inner _ back end_ hbefore.2 hafter.2
  have henc := @encloses_plain front inner back _ _ h.opens h.closes h.last
  obtain ⟨g, hg⟩ : ∃ g, g = opened (front ++ [opener]).length
    ((front ++ [opener]).length + inner.length) lead.length (lead.length + trail.length) := ⟨_, rfl⟩
  obtain ⟨f, hf⟩ : ∃ f, f = opened front.length (front.length + inner.length) before.length
    (before.length + after.length) := ⟨_, rfl⟩
  obtain ⟨e, he⟩ : ∃ e, e = front.length + inner.length - 1 := ⟨_, rfl⟩
  rw [← hg] at hthins
  rw [← hf] at hthins'
  rw [← he] at henc
  rw [List.length_append, List.length_singleton] at hg
  have hopener : g front.length = front.length := by
    rw [hg]
    exact if_pos (Nat.lt_succ_self _)
  have hcloser : g (e + 2) = z := by
    rw [hg, opened, if_neg (by omega), if_neg (by omega)]
    omega
  obtain ⟨place, hplace⟩ : ∃ place, place = opened (front.length + before.length)
    (front.length + before.length + inner.length) (1 + lead.length - before.length)
    (2 + lead.length + trail.length - before.length - after.length) := ⟨_, rfl⟩
  obtain ⟨l, hl, hcode⟩ := h.first
  have hmono : StrictMono place := by
    rw [hplace]
    exact opened_strictMono _ _ (by omega)
  have hbared := exists_bared_of_thins hthins' hthins henc hmono (fun j => ?_)
    (loud_plain (l := l) ?_ hcode) hpaired hhdr hkind hopens (by rwa [hopener, hcloser]) hlead hwords
    hfor (by rwa [hopener, hcloser]) (by rwa [hopener, hcloser]) (by rwa [hopener, hcloser])
  · obtain ⟨hdr', hbared⟩ := hbared
    rw [hopener, hcloser] at hbared
    exact ⟨hdr', place, hbared⟩
  · rw [hplace, hf, hg]
    unfold opened spread
    split_ifs <;> omega
  · rw [List.append_assoc, List.getElem?_append_right (Nat.le_refl _), Nat.sub_self,
      List.getElem?_append_left hinner, ← List.head?_eq_getElem?]
    exact hl

end

/-! ### In the parentheses -/

/-- Code right inside parentheses of a segment is code of the segment. -/
theorem mem_indices_of_level {list : List Token} {end_ : Text} {seg : Segment} {a z x : Nat}
    (hseg : seg ∈ (Outline.ofTokens list end_).segments) (ha : a ∈ seg.indices) (hz : z ∈ seg.indices)
    (hopen : tokenIs list.toArray (·.isMark '(') a)
    (hparens : (Outline.ofTokens list end_).partner? a = some z) (hx : Loud list.toArray x)
    (hax : a < x) (hxz : x < z) (hlevel : (Outline.ofTokens list end_).nestingAt x =
      (Outline.ofTokens list end_).nestingAt a + 1) : x ∈ seg.indices := by
  have hsound := (ofTokens_sound list end_).segments seg hseg
  by_contra hnot
  have hfirst := hsound.first_le ha
  have hlast := hsound.inOrder.le_getLast hz hsound.getLast?_eq
  -- Else it would stand in a closure of the segment, deeper in the parentheses.
  obtain ⟨c, p, hadj, -, hpair, hcx, hxp⟩ :=
    (ofTokens_housed list end_ seg hseg).exists_closure hsound hx hnot (by omega) (by omega)
  have hbrace := (rel_of_adjacent hsound.inOrder.chain hadj).2.resolve_right fun hquiet =>
    (hquiet.le_of_loud hx hcx).not_gt hxp
  have hac : a ≤ c := (le_or_le_of_adjacent hsound.inOrder.pairwise hadj ha).resolve_right (by omega)
  have hne : a ≠ c := by
    rintro rfl
    obtain ⟨t, ht, hmark⟩ := tokenIs_iff.mp hopen
    have hbrace := (tokenIs_of_getElem? ht).symm.trans hbrace
    exact absurd (Scan.isMark_unique hmark hbrace) (by decide)
  have := nestingAt_lt_of_between hparens (show a < c by omega) (by omega)
  have := nestingAt_lt_of_between hpair hcx hxp
  omega

/-! ### Tokens that stand somewhere -/

section

variable {list list' : List Token} {end_ : Text}

theorem ofLexemes_eq (list : List Token) (end_ : Text) : ofLexemes (list.map (·.toLexeme)) end_ =
    { Outline.ofTokens list end_ with tokens := (list.map Token.plain).toArray } := by
  rw [ofLexemes, List.map_map]
  exact ofTokens_plain list end_

theorem tokenIs_map_plain {p : Token → Bool} (hp : ∀ t, p t.plain = p t) (i : Nat) :
    tokenIs (list.map Token.plain).toArray p i = tokenIs list.toArray p i := by
  rw [← List.map_toArray]
  exact congrFun (tokenIs_plain _ hp) i

theorem getElem?_map_plain {i : Nat} {t : Token} (ht : (list.map Token.plain).toArray[i]? = some t) :
    ∃ u, list.toArray[i]? = some u ∧ u.plain = t := by
  rw [List.getElem?_toArray, List.getElem?_map] at ht
  rw [List.getElem?_toArray]
  exact Option.map_eq_some_iff.mp ht

theorem carriesOn_map_plain (p n : Nat) :
    carriesOn (list.map Token.plain).toArray p n = carriesOn list.toArray p n := by
  simp only [carriesOn]
  rw [tokenIs_map_plain fun _ => rfl, tokenIs_map_plain fun _ => rfl, tokenIs_map_plain fun _ => rfl]

theorem AllPaired.of_lexemes (h : (Outline.ofTokens list end_).AllPaired) :
    (ofLexemes (list.map (·.toLexeme)) end_).AllPaired := by
  rw [ofLexemes_eq]
  intro i t ht hbracket
  obtain ⟨u, hu, rfl⟩ := getElem?_map_plain ht
  exact h i u hu hbracket

theorem CarriesOn.of_lexemes {a z : Nat} (h : (Outline.ofTokens list end_).CarriesOn a z) :
    (ofLexemes (list.map (·.toLexeme)) end_).CarriesOn a z := by
  have hloud {i : Nat} (hi : Loud (list.map Token.plain).toArray i) : Loud list.toArray i := by
    obtain ⟨t, ht, hcode⟩ := hi
    obtain ⟨u, hu, rfl⟩ := getElem?_map_plain ht
    exact ⟨u, hu, hcode⟩
  rw [ofLexemes_eq]
  refine ⟨fun x hax hxz hx => ?_, fun p x n hap hpx hxn hnz hx hnewline hp hn hquiet => ?_⟩
  · exact (tokenIs_map_plain (fun _ => rfl) x).trans (h.brace x hax hxz hx)
  · refine (carriesOn_map_plain p n).trans (h.newline p x n hap hpx hxn hnz hx ?_ (hloud hp) (hloud hn)
      fun k hpk hkn => ?_)
    · exact (tokenIs_map_plain (fun _ => rfl) x).symm.trans hnewline
    · exact (tokenIs_map_plain (fun _ => rfl) k).symm.trans (hquiet k hpk hkn)

theorem Bared.of_lexemes {hdr hdr' : Segment} {a z : Nat} {place : Nat → Nat}
    (h : (ofLexemes (list.map (·.toLexeme)) end_).Bared (ofLexemes (list'.map (·.toLexeme)) end_) hdr
      hdr' a z place) :
    (Outline.ofTokens list end_).Bared (Outline.ofTokens list' end_) hdr hdr' a z place := by
  rw [ofLexemes_eq, ofLexemes_eq] at h
  have hplain {list : List Token} {i : Nat} {t : Token}
      (ht : (Outline.ofTokens list end_).token? i = some t) :
      (list.map Token.plain).toArray[i]? = some t.plain := by
    rw [List.getElem?_toArray, List.getElem?_map,
      show list[i]? = some t from List.getElem?_toArray.symm.trans ht]
    rfl
  refine { h with code := fun i t ht hcode => ?_, onto := fun m u hu hcode => ?_ }
  · obtain ⟨ha, hz, v, hv, hkind, htext⟩ := h.code i t.plain (hplain ht) hcode
    obtain ⟨u, hu, rfl⟩ := getElem?_map_plain hv
    exact ⟨ha, hz, u, hu, hkind, htext⟩
  · exact h.onto m u.plain (hplain hu) hcode

/-- Without the parentheses around its tail, and without the white space in them, a loop header has
its other tokens, in the same places among each other, and its block. -/
theorem exists_bared {front lead inner trail back before after : List Lexeme} {opener closer : Lexeme}
    {hdr : Segment} {known : List Nat} {a z : Nat}
    (h : Bares front lead inner trail back before after opener closer)
    (hlist : list.map (·.toLexeme) =
      front ++ [opener] ++ lead ++ inner ++ trail ++ closer :: back)
    (hlist' : list'.map (·.toLexeme) = front ++ before ++ inner ++ after ++ back)
    (ha : a = front.length) (hz : z = a + 1 + lead.length + inner.length + trail.length)
    (hpaired : (Outline.ofTokens list end_).AllPaired)
    (hhdr : hdr ∈ (Outline.ofTokens list end_).segments) (hkind : hdr.kind = .controlHeader)
    (hopens : hdr.opensBlock)
    (hindices : ∃ tail, hdr.indices = known ++ tail ∧ tail.head? = some a ∧ tail.getLast? = some z)
    (hlead : hdr.lead < known.length)
    (hwords : ∀ x ∈ known.drop hdr.lead, tokenIs list.toArray isBracket x = false)
    (hfor : ∃ p, known.getLast? = some p ∧ tokenIs list.toArray (·.isKeyword ["for"]) p)
    (hparens : (Outline.ofTokens list end_).partner? a = some z)
    (hcarries : (Outline.ofTokens list end_).CarriesOn a z)
    (hends : ∀ x, a < x → x < z → (Outline.ofTokens list end_).nestingAt x =
      (Outline.ofTokens list end_).nestingAt a + 1 → tokenIs list.toArray (·.isPunct end_) x = false) :
    ∃ hdr' place, (Outline.ofTokens list end_).Bared (Outline.ofTokens list' end_) hdr hdr' a z
      place := by
  subst ha
  have hpaired' := hpaired.of_lexemes
  have hcarries' := hcarries.of_lexemes
  have hsame := ofLexemes_eq list end_
  have hwhole : ofLexemes (list.map (·.toLexeme)) end_ = _ := congrArg (ofLexemes · end_) hlist
  have hwhole' : ofLexemes (list'.map (·.toLexeme)) end_ = _ := congrArg (ofLexemes · end_) hlist'
  obtain ⟨hdr', place, hbared⟩ := exists_bared_of_lexemes h hz hwhole hwhole' hpaired'
    (show hdr ∈ _ by rwa [hsame]) hkind hopens hindices hlead
    (fun x hx => by
      rw [hsame]
      exact (tokenIs_map_plain (fun _ => rfl) x).trans (hwords x hx))
    (by
      obtain ⟨p, hp, hword⟩ := hfor
      rw [hsame]
      exact ⟨p, hp, (tokenIs_map_plain (fun _ => rfl) p).trans hword⟩)
    (by rwa [hsame]) hcarries' (fun x hax hxz hx => by
      rw [hsame] at hx ⊢
      exact (tokenIs_map_plain (fun _ => rfl) x).trans (hends x hax hxz hx))
  exact ⟨hdr', place, hbared.of_lexemes⟩

end

end Outline

end HouseStyle
