import Reserved.Proofs.Generator.Piece

/-!
# Edits that keep out of each other's way

Text that one edit has made must not hold a site of another, must not complete one together
with what stands before it, and must not have cut one in two. So take a text of which some
sites have been edited and others not. For an edit still to come, no site begins inside a
site of another kind, whether edited or not; and none begins at a kept character, since a
site that did so and was not there before would have to end in edited text, and the first
characters of such text occur in no site.

What a rule inserts for a setting is text that the setting chooses. Four conditions on it are
enough, and they concern single characters but for one word.
-/

namespace Reserved

open Overlap

/-- Settings whose texts cannot be taken for parts of a site. -/
structure GeneratorConfig.Harmless (cfg : GeneratorConfig) : Prop where
  kindType_amp : '&' ∉ cfg.kindType.toList
  kindType_return : ¬ "return".toList <:+: cfg.kindType.toList
  sentinel_amp : '&' ∉ cfg.sentinel.toList
  sentinel_star : '*' ∉ cfg.sentinel.toList

/-- The runs of blanks in a site. -/
def Shape.gaps : Shape → List Blanks
  | returnType ws ws' => [ws, ws']
  | matchedEntry => []
  | noMatch ws ws' => [ws, ws']

namespace Edit

/-- What the sites of an edit begin with. -/
def head : Edit → List Char
  | returnType => "struct".toList
  | matchedEntry => ['&']
  | noMatch => "return".toList

/-- What the text an edit has made begins with. -/
def lead : Edit → List Char
  | returnType => "inline ".toList
  | matchedEntry => "wordlist[key].kind".toList
  | noMatch => "return".toList

/-- What the sites of an edit consist of, but for blanks. -/
def literals : Edit → List (List Char)
  | returnType => ["struct".toList, "keyword_hash_entry".toList, ['*']]
  | matchedEntry => ["&wordlist[key]".toList]
  | noMatch => ["return".toList, ['0'], [';']]

/-- The texts of the sites of an edit. -/
def Word (e : Edit) (w : List Char) : Prop :=
  ∃ s : Shape, s.edit = e ∧ s.source = w

theorem word_begins {e : Edit} : ∀ w, e.Word w → e.head <+: w := by
  intro w ⟨s, he, hw⟩
  subst he hw
  cases s with
  | returnType ws ws' => exact List.prefix_append _ _
  | matchedEntry =>
      show ['&'] <+: "&wordlist[key]".toList
      decide
  | noMatch ws ws' => exact List.prefix_append _ _

theorem edited_eq_lead_append (cfg : GeneratorConfig) (s : Shape) :
    ∃ rest, s.edited cfg = s.edit.lead ++ rest := by
  cases s with
  | returnType ws ws' => exact ⟨_, rfl⟩
  | matchedEntry => exact ⟨[], (List.append_nil _).symm⟩
  | noMatch ws ws' => exact ⟨_, rfl⟩

/-! ## Sites of different edits -/

theorem lacks_blanks {c : Char} (hc : isBlank c = false) (cs : List Char) (ws : Blanks) :
    lacks (c :: cs) ws.val = true := by
  refine lacks_of_not_mem cs fun h => ?_
  rw [ws.property c h] at hc
  exact absurd hc (by decide)

/-- Literals with runs of blanks between them. -/
def spread : List (List Char) → List Blanks → List Char
  | [], _ => []
  | l :: ls, [] => l ++ spread ls []
  | l :: ls, ws :: gaps => l ++ (ws.val ++ spread ls gaps)

/-- Blanks do not help to make a needle that begins with something else. -/
theorem lacks_spread {needle : List Char} (hblank : needle.head?.any (! isBlank ·) = true)
    {ls : List (List Char)} (h : ∀ l ∈ ls, lacks needle l = true) (gaps : List Blanks) :
    lacks needle (spread ls gaps) = true := by
  induction ls generalizing gaps with
  | nil => rfl
  | cons l ls ih =>
      have hl := h l List.mem_cons_self
      have ih := ih fun l' hl' => h l' (List.mem_cons_of_mem l hl')
      cases gaps with
      | nil => exact lacks_append hl (ih [])
      | cons ws gaps =>
          cases needle with
          | nil => exact absurd hblank Bool.false_ne_true
          | cons c cs =>
              have hc : isBlank c = false := by simpa using hblank
              exact lacks_append hl (lacks_append (lacks_blanks hc cs ws) (ih gaps))

theorem source_eq_spread (s : Shape) : s.source = spread s.edit.literals s.gaps := by
  cases s <;> rfl

theorem tail_source_eq_spread (s : Shape) :
    s.source.tail = spread (s.edit.literals.modifyHead List.tail) s.gaps := by
  cases s <;> rfl

/-- No end of a site agrees with the beginning of another edit's sites, nor with the beginning of
what another edit has made. -/
theorem lacks_source {e : Edit} {s : Shape} (hne : e ≠ s.edit) {needle : List Char}
    (hneedle : needle ∈ [e.head, e.lead]) : lacks needle s.source = true := by
  have hall : ∀ e e' : Edit, e ≠ e' → ∀ needle ∈ [e.head, e.lead],
      needle.head?.any (! isBlank ·) = true ∧ ∀ l ∈ e'.literals, lacks needle l = true := by
    intro e e' hne
    cases e <;> cases e' <;> first | exact absurd rfl hne | decide
  obtain ⟨hblank, hlacks⟩ := hall e s.edit hne needle hneedle
  rw [source_eq_spread]
  exact lacks_spread hblank hlacks s.gaps

theorem bars_source {e : Edit} {s : Shape} (hne : e ≠ s.edit) : Bars e.Word s.source :=
  Bars.of_lacks word_begins (lacks_source hne (by simp))

end Edit

/-- **A text can be divided in one way only.** -/
theorem Divides.unique {text : List Char} {ps ps' : List Piece} (h : Divides text ps)
    (h' : Divides text ps') : ps = ps' := by
  induction h generalizing ps' with
  | nil =>
      generalize hnil : ([] : List Char) = text at h'
      cases h' with
      | nil => rfl
      | kept _ _ => exact absurd hnil.symm (List.cons_ne_nil _ _)
      | site s _ => exact absurd (List.append_eq_nil_iff.mp hnil.symm).1 s.source_ne_nil
  | @kept c rest ps hkept hdiv ih =>
      generalize htext : c :: rest = text at h'
      cases h' with
      | nil => exact absurd htext (List.cons_ne_nil _ _)
      | kept _ hdiv' =>
          obtain ⟨rfl, rfl⟩ := List.cons.inj htext
          rw [ih hdiv']
      | site s _ =>
          rw [htext] at hkept
          exact absurd (List.prefix_append _ _) (hkept s)
  | @site s rest ps hdiv ih =>
      generalize htext : s.source ++ rest = text at h'
      cases h' with
      | nil => exact absurd (List.append_eq_nil_iff.mp htext).1 s.source_ne_nil
      | kept hkept _ => exact absurd (htext ▸ List.prefix_append _ _) (hkept s)
      | @site s' rest' _ hdiv' =>
          -- sites of different edits do not begin at the same place
          have hedit : s.edit = s'.edit := by
            by_cases hne : s.edit = s'.edit
            · exact hne
            · have hbars := Edit.bars_source hne s'.source (List.suffix_refl _) s'.source_ne_nil
                s.source ⟨s, rfl, rfl⟩ rest'
              exact absurd (htext ▸ List.prefix_append _ _) hbars
          -- and a pattern finds one site there
          have hfound := Edit.siteAt?_source s rest
          rw [htext, hedit, Edit.siteAt?_source s' rest', Option.some_inj] at hfound
          have hsource : s.source = s'.source := by
            rw [← s.whole_site, ← s'.whole_site, hfound]
          obtain rfl := Shape.source_injective hedit hsource
          rw [ih (List.append_cancel_left htext ▸ hdiv')]

namespace Edit

/-! ## Sites inside what another edit has made -/

/-- A site of a return type is not completed after a sentinel: it has no semicolon in it, and
the sentinel no star. -/
theorem bars_sentinel {sentinel : List Char} (hstar : '*' ∉ sentinel) :
    Bars Edit.returnType.Word (sentinel ++ [';']) := by
  intro x hx hne w ⟨s, hs, hw⟩ rest hbegins
  -- a site that begins before the semicolon cannot go beyond it, so its star is the sentinel's
  have hmem : '*' ∈ w ∧ ';' ∉ w := by
    subst hw
    cases s with
    | returnType ws ws' =>
        have hblank : ∀ vs : Blanks, ';' ∉ vs.val := fun vs h =>
          absurd (vs.property _ h) (by decide)
        have hstruct : ';' ∉ "struct".toList := by decide
        have hname : ';' ∉ "keyword_hash_entry".toList := by decide
        unfold Shape.source
        simp only [List.mem_append, List.mem_singleton, not_or]
        exact ⟨Or.inr (Or.inr (Or.inr (Or.inr trivial))), hstruct, hblank ws, hname, hblank ws',
          by decide⟩
    | matchedEntry => exact absurd hs Edit.noConfusion
    | noMatch ws ws' => exact absurd hs Edit.noConfusion
  -- an end of the text is an end of the sentinel and the semicolon
  obtain ⟨y, hy, rfl⟩ : ∃ y, y <:+ sentinel ∧ x = y ++ [';'] := by
    rcases suffix_append_cases hx with hx | ⟨y, -, hy, rfl⟩
    · rcases List.suffix_cons_iff.mp hx with rfl | hx
      · exact ⟨[], List.nil_suffix, rfl⟩
      · exact absurd (List.suffix_nil.mp hx) hne
    · exact ⟨y, hy, rfl⟩
  rw [List.append_assoc] at hbegins
  have hwy := prefix_of_not_mem hmem.2 hbegins
  exact hstar (hy.subset (hwy.subset hmem.1))

/-- No site of another edit begins in the text that an edit has made. -/
theorem bars_edited {cfg : GeneratorConfig} (hcfg : cfg.Harmless) {e : Edit} {s : Shape}
    (hne : e ≠ s.edit) : Bars e.Word (s.edited cfg) := by
  have hlacks : lacks e.head (s.edited cfg) = true → Bars e.Word (s.edited cfg) :=
    Bars.of_lacks word_begins
  cases s with
  | returnType ws ws' =>
      refine hlacks ?_
      cases e with
      | returnType => exact absurd rfl hne
      | matchedEntry =>
          have hinline : '&' ∉ "inline ".toList := by decide
          refine lacks_of_not_mem [] ?_
          unfold Shape.edited
          simp only [List.mem_append, List.mem_singleton, not_or]
          exact ⟨hinline, hcfg.kindType_amp, by decide⟩
      | noMatch =>
          -- the space after the kind type ends what the kind type may have begun
          have hinline : lacks "return".toList "inline ".toList = true := by decide
          have hspace : ' ' ∉ "return".toList := by decide
          exact lacks_append hinline (lacks_append_singleton hspace hcfg.kindType_return)
  | matchedEntry =>
      refine hlacks ?_
      cases e with
      | returnType =>
          show lacks "struct".toList "wordlist[key].kind".toList = true
          decide
      | matchedEntry => exact absurd rfl hne
      | noMatch =>
          show lacks "return".toList "wordlist[key].kind".toList = true
          decide
  | noMatch ws ws' =>
      cases e with
      | returnType =>
          -- the sentinel may hold the beginning of a site, so its end has to be looked at
          have hreturn : lacks Edit.returnType.head "return".toList = true := by decide
          have hstruct : Edit.returnType.head = 's' :: "truct".toList := by decide
          have hblanks : lacks Edit.returnType.head ws.val = true := by
            rw [hstruct]
            exact lacks_blanks (by decide) _ ws
          exact (Bars.of_lacks word_begins hreturn).append
            ((Bars.of_lacks word_begins hblanks).append (bars_sentinel hcfg.sentinel_star))
      | matchedEntry =>
          have hreturn : '&' ∉ "return".toList := by decide
          have hblanks : '&' ∉ ws.val := fun h => absurd (ws.property _ h) (by decide)
          refine hlacks (lacks_of_not_mem [] ?_)
          unfold Shape.edited
          simp only [List.mem_append, List.mem_singleton, not_or]
          exact ⟨hreturn, hblanks, hcfg.sentinel_amp, by decide⟩
      | noMatch => exact absurd rfl hne

end Edit

/-! ## A text that is edited in part -/

/-- The text of a piece when the edits of `done` have been made. -/
def Piece.textAfter (cfg : GeneratorConfig) (done : List Edit) : Piece → List Char
  | kept c => [c]
  | site s => if s.edit ∈ done then s.edited cfg else s.source

theorem Piece.textAfter_of_mem {cfg : GeneratorConfig} {done : List Edit} {s : Shape}
    (h : s.edit ∈ done) : (site s).textAfter cfg done = s.edited cfg := if_pos h

theorem Piece.textAfter_of_not_mem {cfg : GeneratorConfig} {done : List Edit} {s : Shape}
    (h : s.edit ∉ done) : (site s).textAfter cfg done = s.source := if_neg h

/-- The text of all pieces when the edits of `done` have been made. -/
def render (cfg : GeneratorConfig) (done : List Edit) (ps : List Piece) : List Char :=
  ps.flatMap (Piece.textAfter cfg done)

theorem render_cons (cfg : GeneratorConfig) (done : List Edit) (q : Piece) (ps : List Piece) :
    render cfg done (q :: ps) = q.textAfter cfg done ++ render cfg done ps := rfl

theorem render_nil (cfg : GeneratorConfig) (ps : List Piece) :
    render cfg [] ps = ps.flatMap Piece.source := by
  have hsource : Piece.textAfter cfg [] = Piece.source := by
    funext q
    cases q <;> rfl
  unfold render
  rw [hsource]

theorem bars_textAfter {cfg : GeneratorConfig} (hcfg : cfg.Harmless) (done : List Edit)
    {e : Edit} {s : Shape} (hne : e ≠ s.edit) :
    Bars e.Word ((Piece.site s).textAfter cfg done) := by
  by_cases he : s.edit ∈ done
  · rw [Piece.textAfter_of_mem he]
    exact Edit.bars_edited hcfg hne
  · rw [Piece.textAfter_of_not_mem he]
    exact Edit.bars_source hne

/-- What begins a text that is edited in part begins the text it was before, or it ends in
edited text: in that of a site `s`, before which the text is as it was. -/
theorem prefix_render {cfg : GeneratorConfig} {done : List Edit} : ∀ {x : List Char}
    {ps : List Piece}, x <+: render cfg done ps → x <+: ps.flatMap Piece.source ∨
      ∃ before s after v rest, ps = before ++ .site s :: after ∧ s.edit ∈ done ∧
        x = before.flatMap Piece.source ++ v ∧ v ≠ [] ∧ v <+: s.edit.lead ++ rest
  | x, [], h => Or.inl h
  | x, q :: ps, h => by
      -- text that is not edited yet is passed over
      have hpass : x <+: q.source ++ render cfg done ps → x <+: q.source ++ ps.flatMap Piece.source
          ∨ ∃ before s after v rest, q :: ps = before ++ .site s :: after ∧ s.edit ∈ done ∧
            x = before.flatMap Piece.source ++ v ∧ v ≠ [] ∧ v <+: s.edit.lead ++ rest := by
        intro h
        rcases prefix_append_cases h with h | ⟨y, rfl, hy⟩
        · exact Or.inl (h.trans (List.prefix_append _ _))
        · rcases prefix_render hy with hy | ⟨before, s, after, v, rest, rfl, he, rfl, hv, hlead⟩
          · exact Or.inl ((List.prefix_append_right_inj _).mpr hy)
          · refine Or.inr ⟨q :: before, s, after, v, rest, rfl, he, ?_, hv, hlead⟩
            rw [List.flatMap_cons, List.append_assoc]
      rw [render_cons] at h
      rw [List.flatMap_cons]
      cases q with
      | kept c => exact hpass h
      | site s =>
          by_cases he : s.edit ∈ done
          · obtain ⟨t, ht⟩ := Edit.edited_eq_lead_append cfg s
            rw [Piece.textAfter_of_mem he, ht, List.append_assoc] at h
            cases x with
            | nil => exact Or.inl List.nil_prefix
            | cons c x =>
                exact Or.inr ⟨[], s, ps, c :: x, _, rfl, he, rfl, List.cons_ne_nil _ _, h⟩
          · rw [Piece.textAfter_of_not_mem he] at h
            exact hpass h

/-- Where no site begins, none begins after other edits. -/
theorem siteAt?_kept {cfg : GeneratorConfig} {done : List Edit} {e : Edit} (he : e ∉ done)
    {c : Char} {ps : List Piece}
    (hc : ∀ s : Shape, ¬ s.source <+: c :: ps.flatMap Piece.source) :
    e.pattern.siteAt? (c :: render cfg done ps) = none := by
  cases hsite : e.pattern.siteAt? (c :: render cfg done ps) with
  | none => rfl
  | some found =>
      obtain ⟨s, rfl, hbegins⟩ := Edit.exists_of_siteAt? hsite
      have hkept := hc s
      rcases List.prefix_cons_iff.mp hbegins with hnil | ⟨x, hx, hrender⟩
      · exact absurd hnil s.source_ne_nil
      rw [hx] at hkept
      rcases prefix_render hrender with h | ⟨before, s', after, v, rest, _, hs', rfl, hv, hlead⟩
      · exact absurd (List.cons_prefix_cons.mpr ⟨rfl, h⟩) hkept
      · -- the site would end in text that another edit has made
        have hne : s'.edit ≠ s.edit := fun h => he (h ▸ hs')
        have hend : v <:+ s.source := by
          rw [hx]
          exact List.suffix_append (c :: before.flatMap Piece.source) v
        exact absurd hlead (not_prefix_of_lacks (Edit.lacks_source hne (by simp)) hend hv)

theorem siteAt?_of_bars {e : Edit} {text x : List Char} (h : Bars e.Word text) (hx : x <:+ text)
    (hne : x ≠ []) (rest : List Char) : e.pattern.siteAt? (x ++ rest) = none := by
  cases hsite : e.pattern.siteAt? (x ++ rest) with
  | none => rfl
  | some found =>
      obtain ⟨s, hs, hbegins⟩ := Edit.exists_of_siteAt? hsite
      exact absurd hbegins (h x hx hne s.source ⟨s, hs, rfl⟩ rest)

/-- The segments that the pattern of `e` makes of a piece. -/
def segmentsOf (cfg : GeneratorConfig) (done : List Edit) (e : Edit) : Piece → List Segment
  | .kept c => [.kept c]
  | .site s =>
    if s.edit = e then [.site s.site] else ((Piece.site s).textAfter cfg done).map .kept

/-- **An edit still to come finds its own sites and nothing else.** -/
theorem segments_render {cfg : GeneratorConfig} (hcfg : cfg.Harmless) {done : List Edit}
    {e : Edit} (he : e ∉ done) {text : List Char} {ps : List Piece} (h : Divides text ps) :
    e.pattern.segments (render cfg done ps) = ps.flatMap (segmentsOf cfg done e) := by
  induction h with
  | nil => rfl
  | @kept c rest ps hc hdiv ih =>
      rw [hdiv.source] at hc
      have hsegments := Pattern.segments_kept e.pattern (render cfg done ps) [c] fun x hx hne => by
        rcases List.suffix_cons_iff.mp hx with rfl | hx
        · exact siteAt?_kept he hc
        · exact absurd (List.suffix_nil.mp hx) hne
      show e.pattern.segments ([c] ++ render cfg done ps) = _
      rw [hsegments, ih]
      rfl
  | @site s rest ps hdiv ih =>
      rw [render_cons, List.flatMap_cons, segmentsOf]
      by_cases hs : s.edit = e
      · subst hs
        have hfound := Edit.siteAt?_source s (render cfg done ps)
        have hne : s.site.whole ≠ [] := by
          rw [Shape.whole_site]
          exact s.source_ne_nil
        rw [← Shape.whole_site] at hfound
        rw [if_pos rfl, Piece.textAfter_of_not_mem he, ← Shape.whole_site,
          Pattern.segments_site hne hfound, ih]
        rfl
      · have hbars := bars_textAfter hcfg done (Ne.symm hs)
        rw [if_neg hs, Pattern.segments_kept _ _ _ fun x hx hne =>
          siteAt?_of_bars hbars hx hne _, ih]

end Reserved
