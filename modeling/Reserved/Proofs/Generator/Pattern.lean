import Reserved.Generator.Pattern

/-!
# How a pattern takes a text apart

What a pattern takes from a text is the beginning of the text, part by part. In the other
direction, literal text is taken wherever it stands, and a run of blanks is taken whole if
something follows that is no blank. The division of a text into segments is then read off
piece by piece: a site where one is found, single characters where none begins.
-/

namespace Reserved

/-- A run of blanks. -/
def Blanks : Type :=
  { ws : List Char // ∀ c ∈ ws, isBlank c = true }

namespace PatternPart

/-- The texts a part takes. -/
def Fits : PatternPart → List Char → Prop
  | text s, w => w = s.toList
  | blanks, w => ∀ c ∈ w, isBlank c = true

theorem take?_sound {part : PatternPart} {cs w rest : List Char}
    (h : part.take? cs = some (w, rest)) : cs = w ++ rest ∧ part.Fits w := by
  cases part with
  | text s =>
      dsimp only [take?] at h
      split at h
      · rename_i hbegins
        obtain ⟨rfl, rfl⟩ := Prod.mk.inj (Option.some.inj h)
        obtain ⟨t, rfl⟩ := List.isPrefixOf_iff_prefix.mp hbegins
        exact ⟨by rw [List.drop_left], rfl⟩
      · exact absurd h (by simp)
  | blanks =>
      obtain ⟨rfl, rfl⟩ := Prod.mk.inj (Option.some.inj h)
      exact ⟨List.takeWhile_append_dropWhile.symm, List.all_eq_true.mp List.all_takeWhile⟩

/-- The texts that parts take, one after the other. -/
def FitsAll : List PatternPart → List Char → Prop
  | [], w => w = []
  | part :: parts, w => ∃ first rest, w = first ++ rest ∧ part.Fits first ∧ FitsAll parts rest

theorem takeAll?_sound : ∀ {parts : List PatternPart} {cs w rest : List Char},
    takeAll? parts cs = some (w, rest) → cs = w ++ rest ∧ FitsAll parts w
  | [], cs, w, rest, h => by
      obtain ⟨rfl, rfl⟩ := Prod.mk.inj (Option.some.inj h)
      exact ⟨rfl, rfl⟩
  | part :: parts, cs, w, rest, h => by
      rw [takeAll?] at h
      cases hfirst : part.take? cs with
      | none =>
          simp [hfirst] at h
      | some p =>
          obtain ⟨first, cs'⟩ := p
          cases hrest : takeAll? parts cs' with
          | none =>
              simp [hfirst, hrest] at h
          | some q =>
              obtain ⟨w', cs''⟩ := q
              simp [hfirst, hrest] at h
              obtain ⟨rfl, rfl⟩ := h
              obtain ⟨rfl, hfits⟩ := take?_sound hfirst
              obtain ⟨rfl, hfitsAll⟩ := takeAll?_sound hrest
              exact ⟨(List.append_assoc _ _ _).symm, first, w', rfl, hfits, hfitsAll⟩

/-- Literal text is taken wherever it stands. -/
theorem takeAll?_text {parts : List PatternPart} {cs w rest : List Char} (s : String)
    (h : takeAll? parts cs = some (w, rest)) :
    takeAll? (text s :: parts) (s.toList ++ cs) = some (s.toList ++ w, rest) := by
  have htake : (text s).take? (s.toList ++ cs) = some (s.toList, cs) := by
    dsimp only [take?]
    rw [if_pos (List.isPrefixOf_iff_prefix.mpr (List.prefix_append _ _)), List.drop_left]
  rw [takeAll?, htake]
  show (takeAll? parts cs).bind _ = _
  rw [h]
  rfl

/-- A run of blanks is taken whole if no blank follows. -/
theorem take?_blanks {cs : List Char} {c : Char} (ws : Blanks) (hhead : cs.head? = some c)
    (hc : isBlank c = false) : blanks.take? (ws.val ++ cs) = some (ws.val, cs) := by
  obtain ⟨cs, rfl⟩ := List.head?_eq_some_iff.mp hhead
  show some ((ws.val ++ c :: cs).takeWhile isBlank, (ws.val ++ c :: cs).dropWhile isBlank) = _
  rw [List.takeWhile_append_of_pos ws.property, List.dropWhile_append_of_pos ws.property,
    List.takeWhile_cons_of_neg (by simp [hc]), List.dropWhile_cons_of_neg (by simp [hc]),
    List.append_nil]

theorem takeAll?_blanks {parts : List PatternPart} {cs w rest : List Char} {c : Char}
    (ws : Blanks) (hhead : cs.head? = some c) (hc : isBlank c = false)
    (h : takeAll? parts cs = some (w, rest)) :
    takeAll? (blanks :: parts) (ws.val ++ cs) = some (ws.val ++ w, rest) := by
  rw [takeAll?, take?_blanks ws hhead hc]
  show (takeAll? parts cs).bind _ = _
  rw [h]
  rfl

end PatternPart

/-- Where a run of blanks ends is seen from the text. -/
theorem Blanks.append_inj {ws ws' : Blanks} {cs cs' : List Char} {c : Char}
    (hhead : cs.head? = some c) (hhead' : cs'.head? = some c) (hc : isBlank c = false)
    (h : ws.val ++ cs = ws'.val ++ cs') : ws = ws' ∧ cs = cs' := by
  have htake := PatternPart.take?_blanks ws hhead hc
  rw [h, PatternPart.take?_blanks ws' hhead' hc, Option.some_inj, Prod.mk.injEq] at htake
  exact ⟨Subtype.ext htake.1.symm, htake.2.symm⟩

namespace Pattern

/-- A site is the beginning of the text, and each stretch of it fits its parts. -/
theorem siteAt?_sound {p : Pattern} {cs : List Char} {s : Site} (h : p.siteAt? cs = some s) :
    s.whole <+: cs ∧ PatternPart.FitsAll p.before s.before ∧
      PatternPart.FitsAll p.captured s.captured ∧ PatternPart.FitsAll p.after s.after := by
  unfold siteAt? at h
  cases hbefore : PatternPart.takeAll? p.before cs with
  | none => simp [hbefore] at h
  | some b =>
      obtain ⟨before, cs₁⟩ := b
      cases hcaptured : PatternPart.takeAll? p.captured cs₁ with
      | none => simp [hbefore, hcaptured] at h
      | some c =>
          obtain ⟨captured, cs₂⟩ := c
          cases hafter : PatternPart.takeAll? p.after cs₂ with
          | none => simp [hbefore, hcaptured, hafter] at h
          | some a =>
              obtain ⟨after, cs₃⟩ := a
              simp [hbefore, hcaptured, hafter] at h
              subst h
              obtain ⟨rfl, hb⟩ := PatternPart.takeAll?_sound hbefore
              obtain ⟨rfl, hc⟩ := PatternPart.takeAll?_sound hcaptured
              obtain ⟨rfl, ha⟩ := PatternPart.takeAll?_sound hafter
              refine ⟨⟨cs₃, ?_⟩, hb, hc, ha⟩
              show before ++ captured ++ after ++ cs₃ = _
              rw [List.append_assoc, List.append_assoc]

theorem siteAt?_of_takeAll? {p : Pattern} {cs cs₁ cs₂ cs₃ before captured after : List Char}
    (hbefore : PatternPart.takeAll? p.before cs = some (before, cs₁))
    (hcaptured : PatternPart.takeAll? p.captured cs₁ = some (captured, cs₂))
    (hafter : PatternPart.takeAll? p.after cs₂ = some (after, cs₃)) :
    p.siteAt? cs = some ⟨before, captured, after⟩ := by
  unfold siteAt?
  simp [hbefore, hcaptured, hafter]

/-! ## Segments -/

theorem segmentsFrom_append (p : Pattern) : ∀ (w cs : List Char),
    p.segmentsFrom w.length (w ++ cs) = p.segments cs
  | [], _ => rfl
  | _ :: w, cs => segmentsFrom_append p w cs

/-- The segments of a text that begins with a site. -/
theorem segments_site {p : Pattern} {s : Site} {cs : List Char} (hne : s.whole ≠ [])
    (h : p.siteAt? (s.whole ++ cs) = some s) :
    p.segments (s.whole ++ cs) = .site s :: p.segments cs := by
  obtain ⟨c, w, hw⟩ := List.exists_cons_of_ne_nil hne
  unfold segments
  rw [hw, List.cons_append] at h ⊢
  rw [segmentsFrom, h]
  show Segment.site s :: p.segmentsFrom (s.whole.length - 1) (w ++ cs) = _
  rw [hw, List.length_cons, Nat.add_sub_cancel, segmentsFrom_append]
  rfl

/-- The segments of a text in whose beginning no site begins. -/
theorem segments_kept (p : Pattern) (cs : List Char) : ∀ w : List Char,
    (∀ x, x <:+ w → x ≠ [] → p.siteAt? (x ++ cs) = none) →
    p.segments (w ++ cs) = w.map .kept ++ p.segments cs
  | [], _ => rfl
  | c :: w, h => by
      have hc := h (c :: w) (List.suffix_refl _) (List.cons_ne_nil _ _)
      have ih := segments_kept p cs w fun x hx => h x (hx.trans (List.suffix_cons c w))
      unfold segments at ih ⊢
      rw [List.cons_append] at hc ⊢
      rw [segmentsFrom, hc, ih]
      rfl

/-- Nothing is left of a text only if there was none, or what its sites become is nothing. -/
theorem replaceAll_ne_nil {p : Pattern} {replacement : Site → List Char} {cs : List Char}
    (h : ∀ s, replacement s ≠ []) (hcs : cs ≠ []) : p.replaceAll replacement cs ≠ [] := by
  obtain ⟨c, rest, rfl⟩ := List.exists_cons_of_ne_nil hcs
  rw [replaceAll, segments, segmentsFrom]
  split
  · next s _ =>
    rw [List.flatMap_cons]
    exact List.append_ne_nil_of_left_ne_nil (h s) _
  · rw [List.flatMap_cons]
    exact List.cons_ne_nil c _

/-! ## Counts -/

theorem count_site {p : Pattern} {s : Site} {cs : List Char} (hne : s.whole ≠ [])
    (h : p.siteAt? (s.whole ++ cs) = some s) : p.count (s.whole ++ cs) = p.count cs + 1 := by
  unfold count
  rw [segments_site hne h, List.countP_cons]
  rfl

theorem count_kept {p : Pattern} {w cs : List Char}
    (h : ∀ x, x <:+ w → x ≠ [] → p.siteAt? (x ++ cs) = none) :
    p.count (w ++ cs) = p.count cs := by
  unfold count
  rw [segments_kept p cs w h, List.countP_append, List.countP_map]
  exact Nat.add_eq_right.mpr (List.countP_eq_zero.mpr fun _ _ => Bool.false_ne_true)

end Pattern

end Reserved
