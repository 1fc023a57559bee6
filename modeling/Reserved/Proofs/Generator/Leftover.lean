import Reserved.Proofs.Generator.AnyOrder

/-!
# What the edits leave

When all edits have been made, nothing should be left for them to do. A site that is there
afterwards would begin at a kept character, since none begins in what an edit has inserted. It
was not there before, so it ends in inserted text; and of what is inserted only an entry
without its ampersand can be the end of a site. So there is one way for a site to be left: an
ampersand that stood right before the address of the entry now stands before the entry, and
the two make an address again.
-/

namespace Reserved

open Overlap

/-- Settings whose texts neither hold the beginning of a site nor go on after a return as a site
does. -/
structure GeneratorConfig.Inert (cfg : GeneratorConfig) : Prop extends cfg.Harmless where
  kindType : ∀ e : Edit, lacks e.head (cfg.kindType.toList ++ [' ']) = true
  sentinel : ∀ e : Edit, lacks e.head (cfg.sentinel.toList ++ [';']) = true
  sentinel_first : ∃ c rest, cfg.sentinel.toList ++ [';'] = c :: rest ∧ isBlank c = false ∧ c ≠ '0'

theorem standard_inert : GeneratorConfig.standard.Inert where
  kindType_amp := by decide +kernel
  kindType_return := by decide +kernel
  sentinel_amp := by decide +kernel
  sentinel_star := by decide +kernel
  kindType := by intro e; cases e <;> decide +kernel
  sentinel := by intro e; cases e <;> decide +kernel
  sentinel_first := ⟨'t', "oken::type::Ident;".toList, by decide +kernel⟩

namespace Edit

/-! ## Sites inside a site -/

/-- No site begins inside a site. -/
theorem bars_tail_source (e : Edit) (s : Shape) : Bars e.Word s.source.tail := by
  by_cases he : e = s.edit
  · have hblank : ∀ e' : Edit, e'.head.head?.any (! isBlank ·) = true := by
      intro e'
      cases e' <;> decide
    have hall : ∀ e' : Edit, ∀ l ∈ e'.literals.modifyHead List.tail,
        lacks e'.head l = true := by
      intro e'
      cases e' <;> decide
    have hlacks := lacks_spread (hblank s.edit) (hall s.edit) s.gaps
    rw [← tail_source_eq_spread] at hlacks
    rw [he]
    exact Bars.of_lacks word_begins hlacks
  · intro x hx
    exact bars_source he x (hx.trans (List.tail_suffix _))

/-- Text that an edit has made is not the end of a site, unless it is an entry. -/
theorem lacks_lead_tail {e : Edit} {s : Shape} (h : e ≠ .matchedEntry ∨ s.edit ≠ .matchedEntry) :
    lacks e.lead s.source.tail = true := by
  have hall : ∀ e e' : Edit, e ≠ .matchedEntry ∨ e' ≠ .matchedEntry →
      ∀ l ∈ e'.literals.modifyHead List.tail, lacks e.lead l = true := by
    intro e e' h
    cases e <;> cases e' <;> first | decide | exact absurd h (by decide)
  rw [tail_source_eq_spread]
  exact lacks_spread (by cases e <;> decide) (hall e s.edit h) s.gaps

/-! ## Sites inside edited text -/

/-- A return that has been edited is no return of a null pointer: where the zero would be, the
sentinel begins. -/
theorem bars_returned {sentinel : List Char} (ws : Blanks)
    (hlacks : lacks "return".toList (sentinel ++ [';']) = true)
    (hfirst : ∃ c rest, sentinel ++ [';'] = c :: rest ∧ isBlank c = false ∧ c ≠ '0') :
    Bars Edit.noMatch.Word ("return".toList ++ (ws.val ++ (sentinel ++ [';']))) := by
  have hreturn : "return".toList = 'r' :: "eturn".toList := by decide
  have heturn : lacks "return".toList "eturn".toList = true := by decide
  have hblanks : lacks "return".toList ws.val = true := by
    rw [hreturn]
    exact lacks_blanks (by decide) _ ws
  intro x hx hne w ⟨s, hs, hw⟩ rest hbegins
  rw [hreturn, List.cons_append] at hx
  rcases List.suffix_cons_iff.mp hx with rfl | hx
  · cases s with
    | returnType vs vs' => exact absurd hs Edit.noConfusion
    | matchedEntry => exact absurd hs Edit.noConfusion
    | noMatch vs vs' =>
        obtain ⟨c, cs, hc, hblank, hzero⟩ := hfirst
        obtain ⟨t, ht⟩ := hbegins
        rw [← hw, ← List.cons_append, ← hreturn] at ht
        unfold Shape.source at ht
        simp only [List.append_assoc, hc, List.cons_append] at ht
        -- both runs of blanks end where the other does
        have hzeros : PatternPart.blanks.take? (vs.val ++ '0' :: (vs'.val ++ ';' :: ([] ++ t)))
            = some (vs.val, '0' :: (vs'.val ++ ';' :: ([] ++ t))) :=
          PatternPart.take?_blanks vs rfl (by decide)
        have hsentinel : PatternPart.blanks.take? (ws.val ++ c :: (cs ++ rest))
            = some (ws.val, c :: (cs ++ rest)) := PatternPart.take?_blanks ws rfl hblank
        rw [List.append_cancel_left ht, hsentinel, Option.some_inj, Prod.mk.injEq,
          List.cons.injEq] at hzeros
        exact absurd hzeros.2.1 hzero
  · have htail : lacks Edit.noMatch.head
        ("eturn".toList ++ (ws.val ++ (sentinel ++ [';']))) = true :=
      lacks_append heturn (lacks_append hblanks hlacks)
    exact Bars.of_lacks word_begins htail x hx hne w ⟨s, hs, hw⟩ rest hbegins

/-- **No site begins in the text that an edit has made**, not even one of the same edit. -/
theorem bars_all_edited {cfg : GeneratorConfig} (hcfg : cfg.Inert) (e : Edit) (s : Shape) :
    Bars e.Word (s.edited cfg) := by
  by_cases he : e = s.edit
  · subst he
    cases s with
    | returnType ws ws' =>
        have hinline : lacks "struct".toList "inline ".toList = true := by decide
        exact Bars.of_lacks word_begins (lacks_append hinline (hcfg.kindType .returnType))
    | matchedEntry =>
        have hentry : lacks ['&'] "wordlist[key].kind".toList = true := by decide
        exact Bars.of_lacks word_begins hentry
    | noMatch ws ws' => exact bars_returned ws (hcfg.sentinel .noMatch) hcfg.sentinel_first
  · exact bars_edited hcfg.toHarmless he

end Edit

/-- **Every site of a text is a piece of it.** -/
theorem Divides.exists_site {text : List Char} {ps : List Piece} (h : Divides text ps) :
    ∀ {a b : List Char} {s : Shape}, text = a ++ (s.source ++ b) →
      ∃ before after, ps = before ++ .site s :: after ∧ before.flatMap Piece.source = a := by
  induction h with
  | nil =>
      intro a b s htext
      have hnil := (List.append_eq_nil_iff.mp (List.append_eq_nil_iff.mp htext.symm).2).1
      exact absurd hnil s.source_ne_nil
  | @kept c rest ps hkept hdiv ih =>
      intro a b s htext
      cases a with
      | nil => exact absurd ⟨b, htext.symm⟩ (hkept s)
      | cons d a =>
          obtain ⟨rfl, hrest⟩ := List.cons.inj htext
          obtain ⟨before, after, rfl, rfl⟩ := ih hrest
          exact ⟨.kept c :: before, after, rfl, rfl⟩
  | @site s' rest ps hdiv ih =>
      intro a b s htext
      cases a with
      | nil =>
          -- both divisions begin here, and there is only one
          obtain ⟨after, hafter⟩ := exists_divides b
          have hdiv' := Divides.site s hafter
          rw [← List.nil_append (s.source ++ b), ← htext] at hdiv'
          exact ⟨[], after, (Divides.site s' hdiv).unique hdiv', rfl⟩
      | cons d a =>
          rcases List.append_eq_append_iff.mp htext with ⟨x, hx, hrest⟩ | ⟨x, hsource, hrest⟩
          · obtain ⟨before, after, rfl, rfl⟩ := ih hrest
            exact ⟨.site s' :: before, after, rfl, hx.symm⟩
          · -- a site that began inside `s'` would begin in its tail
            by_cases hnil : x = []
            · subst hnil
              obtain ⟨before, after, rfl, hbefore⟩ := ih (a := []) hrest.symm
              refine ⟨.site s' :: before, after, rfl, ?_⟩
              rw [List.flatMap_cons, hbefore, List.append_nil]
              exact hsource.trans (List.append_nil _)
            · have hend : x <:+ s'.source.tail := by
                rw [hsource]
                exact List.suffix_append a x
              exact absurd ⟨b, hrest⟩
                (Edit.bars_tail_source s.edit s' x hend hnil s.source ⟨s, rfl, rfl⟩ rest)

/-! ## Sites at kept characters -/

theorem eq_matchedEntry {s : Shape} (h : s.edit = .matchedEntry) : s = .matchedEntry := by
  cases s with
  | returnType ws ws' => exact absurd h Edit.noConfusion
  | matchedEntry => rfl
  | noMatch ws ws' => exact absurd h Edit.noConfusion

theorem Piece.source_ne_nil (q : Piece) : q.source ≠ [] := by
  cases q with
  | kept c => exact List.cons_ne_nil c []
  | site s => exact s.source_ne_nil


/-- **A site that is left begins with an ampersand** that was kept, and ends in an entry that
was edited. -/
theorem site_at_kept {cfg : GeneratorConfig} {c : Char} {ps : List Piece}
    (hc : ∀ s : Shape, ¬ s.source <+: c :: ps.flatMap Piece.source) {s : Shape}
    (h : s.source <+: c :: ps.flatMap (Piece.edited cfg)) :
    s = .matchedEntry ∧ c = '&' ∧ ∃ after, ps = .site .matchedEntry :: after := by
  have hkept := hc s
  rcases List.prefix_cons_iff.mp h with hnil | ⟨x, hx, hbegins⟩
  · exact absurd hnil s.source_ne_nil
  rw [hx] at hkept
  have hall : ∀ e, e ∈ Edit.all := fun e => by cases e <;> decide
  rw [← render_all hall] at hbegins
  rcases prefix_render hbegins with h | ⟨before, s', after, v, rest, hps, -, hsplit, hv, hlead⟩
  · exact absurd (List.cons_prefix_cons.mpr ⟨rfl, h⟩) hkept
  have hend : v <:+ s.source.tail := by
    rw [hx, List.tail_cons, hsplit]
    exact List.suffix_append _ v
  by_cases hentry : s'.edit = .matchedEntry ∧ s.edit = .matchedEntry
  · obtain rfl := eq_matchedEntry hentry.1
    obtain rfl := eq_matchedEntry hentry.2
    have hsource : Shape.matchedEntry.source = '&' :: 'w' :: "ordlist[key]".toList := by decide
    rw [hsource] at hx hend
    obtain ⟨rfl, rfl⟩ := List.cons.inj hx
    -- the inserted text begins with all that follows the ampersand, so nothing stands between
    obtain rfl : v = 'w' :: "ordlist[key]".toList := by
      rcases List.suffix_cons_iff.mp hend with hwhole | hshort
      · exact hwhole
      · have hlacks : lacks Edit.matchedEntry.lead "ordlist[key]".toList = true := by decide
        exact absurd hlead (not_prefix_of_lacks hlacks hshort hv)
    obtain rfl : before = [] := by
      cases before with
      | nil => rfl
      | cons q before =>
          have hnone := List.self_eq_append_left.mp hsplit
          exact absurd (List.append_eq_nil_iff.mp hnone).1 q.source_ne_nil
    exact ⟨rfl, rfl, after, hps⟩
  · rw [Classical.not_and_iff_not_or_not] at hentry
    exact absurd hlead (not_prefix_of_lacks (Edit.lacks_lead_tail hentry) hend hv)

/-! ## Counting what is left -/

/-- Whether the next piece is the address of an entry. -/
def atEntry : List Piece → Bool
  | .site .matchedEntry :: _ => true
  | _ => false

/-- How many ampersands are kept right before the address of an entry. -/
def joined : List Piece → Nat
  | [] => 0
  | .kept c :: ps => joined ps + if c = '&' ∧ atEntry ps = true then 1 else 0
  | .site _ :: ps => joined ps

theorem atEntry_iff {ps : List Piece} :
    atEntry ps = true ↔ ∃ after, ps = .site .matchedEntry :: after := by
  constructor
  · intro h
    unfold atEntry at h
    split at h
    · exact ⟨_, rfl⟩
    · exact absurd h (by decide)
  · rintro ⟨after, rfl⟩
    rfl

/-- **A pattern finds in the edited text** nothing but the entries that an ampersand is left
before. -/
theorem count_edited {cfg : GeneratorConfig} (hcfg : cfg.Inert) (e : Edit) {text : List Char}
    {ps : List Piece} (h : Divides text ps) :
    e.pattern.count (ps.flatMap (Piece.edited cfg))
      = if e = .matchedEntry then joined ps else 0 := by
  have hbars : ∀ {w rest : List Char}, Bars e.Word w →
      e.pattern.count (w ++ rest) = e.pattern.count rest :=
    fun hw => Pattern.count_kept fun x hx hne => siteAt?_of_bars hw hx hne _
  induction h with
  | nil => cases e <;> rfl
  | @site s rest ps hdiv ih =>
      rw [List.flatMap_cons]
      exact (hbars (Edit.bars_all_edited hcfg e s)).trans ih
  | @kept c rest ps hc hdiv ih =>
      rw [hdiv.source] at hc
      show e.pattern.count ([c] ++ ps.flatMap (Piece.edited cfg)) = _
      by_cases hjoin : e = .matchedEntry ∧ c = '&' ∧ atEntry ps = true
      · -- the ampersand and the entry make an address, and nothing begins in what is left of it
        obtain ⟨rfl, rfl, hat⟩ := hjoin
        obtain ⟨after, rfl⟩ := atEntry_iff.mp hat
        have htext : ['&'] ++ (Piece.site .matchedEntry :: after).flatMap (Piece.edited cfg)
            = Shape.matchedEntry.site.whole
              ++ (".kind".toList ++ after.flatMap (Piece.edited cfg)) := by
          have hsplit : ['&'] ++ "wordlist[key].kind".toList
              = "&wordlist[key]".toList ++ ".kind".toList := by decide
          rw [List.flatMap_cons, Shape.whole_site, ← List.append_assoc, ← List.append_assoc]
          exact congrArg (· ++ after.flatMap (Piece.edited cfg)) hsplit
        have hsite : Edit.matchedEntry.pattern.siteAt? (Shape.matchedEntry.site.whole
            ++ (".kind".toList ++ after.flatMap (Piece.edited cfg)))
            = some Shape.matchedEntry.site := by
          rw [Shape.whole_site]
          exact Edit.siteAt?_source .matchedEntry _
        have hkind : lacks Edit.matchedEntry.head ".kind".toList = true := by decide
        rw [List.flatMap_cons, Piece.edited, hbars (Edit.bars_all_edited hcfg _ _)] at ih
        rw [htext, Pattern.count_site (by decide) hsite,
          hbars (Bars.of_lacks Edit.word_begins hkind), ih]
        rfl
      · have hnone : e.pattern.siteAt? (c :: ps.flatMap (Piece.edited cfg)) = none := by
          cases hsite : e.pattern.siteAt? (c :: ps.flatMap (Piece.edited cfg)) with
          | none => rfl
          | some found =>
              obtain ⟨s, rfl, hbegins⟩ := Edit.exists_of_siteAt? hsite
              obtain ⟨rfl, rfl, hentry⟩ := site_at_kept hc hbegins
              exact absurd ⟨rfl, rfl, atEntry_iff.mpr hentry⟩ hjoin
        rw [Pattern.count_kept fun x hx hne => ?_, ih]
        · by_cases he : e = .matchedEntry
          · rw [if_pos he, if_pos he, joined, if_neg fun h => hjoin ⟨he, h⟩, Nat.add_zero]
          · rw [if_neg he, if_neg he]
        · rcases List.suffix_cons_iff.mp hx with rfl | hx
          · exact hnone
          · exact absurd (List.suffix_nil.mp hx) hne

/-- There are not more of them than addresses. -/
theorem joined_le (ps : List Piece) : (joined ps + if atEntry ps = true then 1 else 0)
    ≤ ps.countP fun q => q.edit? == some .matchedEntry := by
  induction ps with
  | nil => exact Nat.le_refl 0
  | cons q ps ih =>
      rw [List.countP_cons]
      cases q with
      | kept c =>
          have hle : (if c = '&' ∧ atEntry ps = true then 1 else 0)
              ≤ if atEntry ps = true then 1 else 0 := by
            split <;> simp_all
          exact Nat.le_trans (Nat.add_le_add_left hle _) ih
      | site s =>
          have hle : (if atEntry (.site s :: ps) = true then 1 else 0)
              ≤ if ((Piece.site s).edit? == some .matchedEntry) = true then 1 else 0 := by
            cases s <;> exact Nat.le_refl _
          exact Nat.add_le_add (Nat.le_trans (Nat.le_add_right _ _) ih) hle

theorem infix_of_joined : ∀ {ps : List Piece}, 0 < joined ps →
    "&&wordlist[key]".toList <:+: ps.flatMap Piece.source
  | [], h => absurd h (Nat.lt_irrefl 0)
  | .site s :: ps, h => by
      rw [joined] at h
      exact (infix_of_joined h).trans (List.suffix_append _ _).isInfix
  | .kept c :: ps, h => by
      rw [joined] at h
      by_cases hjoin : c = '&' ∧ atEntry ps = true
      · obtain ⟨rfl, hat⟩ := hjoin
        obtain ⟨after, rfl⟩ := atEntry_iff.mp hat
        have hsplit : "&&wordlist[key]".toList = ['&'] ++ "&wordlist[key]".toList := by decide
        rw [List.flatMap_cons, List.flatMap_cons, ← List.append_assoc]
        exact (hsplit ▸ List.prefix_append _ _ : _ <+: _).isInfix
      · rw [if_neg hjoin] at h
        exact (infix_of_joined h).trans (List.suffix_append _ _).isInfix

theorem joined_append_pos (after : List Piece) : ∀ before : List Piece,
    0 < joined (before ++ .kept '&' :: .site .matchedEntry :: after)
  | [] => Nat.succ_pos _
  | .site _ :: before => joined_append_pos after before
  | .kept _ :: before => Nat.lt_of_lt_of_le (joined_append_pos after before) (Nat.le_add_right _ _)

/-- No site ends with an ampersand. -/
theorem Shape.exists_last (s : Shape) : ∃ front c, s.source = front ++ [c] ∧ c ≠ '&' := by
  cases s with
  | returnType ws ws' =>
      refine ⟨"struct".toList ++ (ws.val ++ ("keyword_hash_entry".toList ++ ws'.val)), '*', ?_,
        by decide⟩
      unfold Shape.source
      simp only [List.append_assoc]
  | matchedEntry => exact ⟨"&wordlist[key".toList, ']', by decide, by decide⟩
  | noMatch ws ws' =>
      refine ⟨"return".toList ++ (ws.val ++ '0' :: ws'.val), ';', ?_, by decide⟩
      unfold Shape.source
      simp only [List.append_assoc, List.cons_append]

/-- They are where the text has two ampersands before an entry. -/
theorem joined_pos_iff {text : List Char} {ps : List Piece} (h : Divides text ps) :
    0 < joined ps ↔ "&&wordlist[key]".toList <:+: text := by
  constructor
  · intro hpos
    rw [h.source]
    exact infix_of_joined hpos
  · rintro ⟨a, b, htext⟩
    -- the second ampersand begins a piece, so the first one ends a piece
    have hsplit : "&&wordlist[key]".toList = ['&'] ++ Shape.matchedEntry.source := by decide
    rw [hsplit, ← List.append_assoc, List.append_assoc] at htext
    obtain ⟨before, after, rfl, hbefore⟩ := h.exists_site htext.symm
    rcases List.eq_nil_or_concat before with rfl | ⟨front, q, rfl⟩
    · exact absurd hbefore.symm (List.append_ne_nil_of_right_ne_nil a (List.cons_ne_nil _ _))
    · rw [List.concat_eq_append, List.flatMap_append, List.flatMap_singleton] at hbefore
      cases q with
      | kept c =>
          obtain ⟨rfl, -⟩ := List.cons.inj (List.append_inj' hbefore rfl).2
          rw [List.concat_eq_append, List.append_assoc]
          exact joined_append_pos after front
      | site s =>
          obtain ⟨start, c, hlast, hc⟩ := s.exists_last
          rw [Piece.source, hlast, ← List.append_assoc] at hbefore
          exact absurd (List.cons.inj (List.append_inj' hbefore rfl).2).1 hc

/-! ## What the rules leave -/

/-- Raw text that the rules accept has as many sites as they expect, and they are all edited. -/
theorem edited_of_applyAll {cfg : GeneratorConfig} (hcfg : cfg.Harmless) {raw out : String}
    {ps : List Piece} (hps : Divides raw.toList ps)
    (h : EditRule.applyAll (EditRule.forConfig cfg) raw = .ok out) :
    (∀ e : Edit, sites ps (e.rule cfg) = (e.rule cfg).expected) ∧
      out.toList = ps.flatMap (Piece.edited cfg) := by
  have hall : ∀ e, e ∈ Edit.all := fun e => by cases e <;> decide
  obtain ⟨hcounts, hout⟩ := applyAll_eq_ok_iff.mp h
  rw [Edit.forConfig_eq] at hcounts hout
  refine ⟨fun e => ?_, ?_⟩
  · rw [← count_rule hcfg e hps]
    exact hcounts _ (List.mem_map_of_mem (hall e))
  · have hfold := foldl_edit hcfg hps Edit.all [] (by decide)
    rw [render_nil, ← hps.source, List.nil_append] at hfold
    rw [← hout, hfold, render_all hall]

/-- **At most one site is left**, and it is the address of an entry. -/
theorem counts_of_applyAll {cfg : GeneratorConfig} (hcfg : cfg.Inert) {raw out : String}
    (h : EditRule.applyAll (EditRule.forConfig cfg) raw = .ok out) :
    ∃ n ≤ 1, EditRule.counts (EditRule.forConfig cfg) out = [0, n, 0] ∧
      (0 < n ↔ "&&wordlist[key]".toList <:+: raw.toList) := by
  obtain ⟨ps, hps⟩ := exists_divides raw.toList
  obtain ⟨hsites, hout⟩ := edited_of_applyAll hcfg.toHarmless hps h
  have hone : (ps.countP fun q => q.edit? == some .matchedEntry) = 1 := by
    rw [← sites_rule cfg]
    exact hsites .matchedEntry
  refine ⟨joined ps, ?_, ?_, joined_pos_iff hps⟩
  · have hle := joined_le ps
    omega
  · have hreturnType := count_edited hcfg .returnType hps
    have hmatchedEntry := count_edited hcfg .matchedEntry hps
    have hnoMatch := count_edited hcfg .noMatch hps
    rw [← hout] at hreturnType hmatchedEntry hnoMatch
    show [Edit.returnType.pattern.count out.toList, Edit.matchedEntry.pattern.count out.toList,
      Edit.noMatch.pattern.count out.toList] = _
    rw [hreturnType, hmatchedEntry, hnoMatch]
    rfl

/-- **The rules leave nothing of what they edit**, except where the raw text had two ampersands
before the entry: then one address is left, and nothing else. Either way what they have made is
rejected by them, since it returns no pointers. -/
theorem applyAll_leaves {raw out : String}
    (h : EditRule.applyAll (EditRule.forConfig .standard) raw = .ok out) :
    (¬ "&&wordlist[key]".toList <:+: raw.toList →
        EditRule.counts (EditRule.forConfig .standard) out = [0, 0, 0]) ∧
      ("&&wordlist[key]".toList <:+: raw.toList →
        EditRule.counts (EditRule.forConfig .standard) out = [0, 1, 0]) ∧
      EditRule.applyAll (EditRule.forConfig .standard) out
        = .error ⟨"return type", "struct\\s*keyword_hash_entry\\s*\\*", 2, 0⟩ := by
  obtain ⟨n, hle, hcounts, hpos⟩ := counts_of_applyAll standard_inert h
  refine ⟨fun hnot => ?_, fun hjoined => ?_, ?_⟩
  · obtain rfl : n = 0 := Nat.eq_zero_of_not_pos (mt hpos.mp hnot)
    exact hcounts
  · obtain rfl : n = 1 := Nat.le_antisymm hle (hpos.mpr hjoined)
    exact hcounts
  · -- the first rule expects two return types and finds none
    have hfirst : Edit.returnType.pattern.count out.toList = 0 := (List.cons.inj hcounts).1
    have hmismatch : EditRule.mismatch? out (Edit.returnType.rule .standard)
        = some ⟨"return type", Edit.returnType.pattern.source, 2, 0⟩ :=
      (mismatch?_eq_some hfirst).mpr ⟨by decide, rfl⟩
    have hsource : Edit.returnType.pattern.source
        = "struct\\s*keyword_hash_entry\\s*\\*" := by decide +kernel
    unfold EditRule.applyAll
    rw [Edit.forConfig_eq, Edit.all, List.map_cons, List.findSome?_cons, hmismatch, hsource]

/-- Here every site is edited, and none is left. -/
theorem applyAll_leaves_none :
    ∃ out, EditRule.applyAll (EditRule.forConfig .standard)
        "struct keyword_hash_entry *f;struct\tkeyword_hash_entry*f:return &wordlist[key];return 0 ;"
        = .ok out ∧
      EditRule.counts (EditRule.forConfig .standard) out = [0, 0, 0] := by
  have hrun : EditRule.applyAll (EditRule.forConfig .standard)
      "struct keyword_hash_entry *f;struct\tkeyword_hash_entry*f:return &wordlist[key];return 0 ;"
      = .ok ("inline token::type f;inline token::type f:return wordlist[key].kind;"
        ++ "return token::type::Ident;") :=
    applyAll_eq_ok_iff.mpr (by decide +kernel)
  exact ⟨_, hrun, (applyAll_leaves hrun).1 (by decide +kernel)⟩

/-- Here one address is left: its ampersand stood before another one. -/
theorem applyAll_leaves_address :
    EditRule.applyAll (EditRule.forConfig .standard)
        "struct keyword_hash_entry *struct keyword_hash_entry *&&wordlist[key]return 0;"
        = .ok "inline token::type inline token::type &wordlist[key].kindreturn token::type::Ident;" ∧
      EditRule.counts (EditRule.forConfig .standard)
        "inline token::type inline token::type &wordlist[key].kindreturn token::type::Ident;"
        = [0, 1, 0] := by
  refine ⟨applyAll_eq_ok_iff.mpr ?_, ?_⟩
  · decide +kernel
  · decide +kernel

end Reserved
