import Reserved.Generator.Edit
import Reserved.Proofs.Generator.Overlap

/-!
# The pieces of generated code

What the three rules edit, without the rules: generated code is a sequence of sites of three
shapes and of single characters where no site begins. Every text is such a sequence, and a
rule's pattern finds the sites of its shape, and no others.
-/

namespace Reserved

/-- What an edit is for. -/
inductive Edit
  | returnType
  | matchedEntry
  | noMatch
  deriving DecidableEq, Repr

/-- What stands at a site. -/
inductive Shape
  /-- A pointer to an entry, as the type that is returned. -/
  | returnType (ws ws' : Blanks)
  /-- The address of the entry that was found. -/
  | matchedEntry
  /-- The return of a null pointer. -/
  | noMatch (ws ws' : Blanks)

namespace Shape

/-- What edits a site. -/
def edit : Shape → Edit
  | returnType _ _ => .returnType
  | matchedEntry => .matchedEntry
  | noMatch _ _ => .noMatch

def source : Shape → List Char
  | returnType ws ws' =>
    "struct".toList ++ (ws.val ++ ("keyword_hash_entry".toList ++ (ws'.val ++ ['*'])))
  | matchedEntry => "&wordlist[key]".toList
  | noMatch ws ws' => "return".toList ++ (ws.val ++ ('0' :: (ws'.val ++ [';'])))

/-- What a site is to become. -/
def edited (cfg : GeneratorConfig) : Shape → List Char
  | returnType _ _ => "inline ".toList ++ (cfg.kindType.toList ++ [' '])
  | matchedEntry => "wordlist[key].kind".toList
  | noMatch ws _ => "return".toList ++ (ws.val ++ (cfg.sentinel.toList ++ [';']))

/-- The site as a pattern finds it. -/
def site : Shape → Site
  | returnType ws ws' => ⟨(returnType ws ws').source, [], []⟩
  | matchedEntry => ⟨['&'], "wordlist[key]".toList, []⟩
  | noMatch ws ws' => ⟨[], "return".toList ++ ws.val, '0' :: (ws'.val ++ [';'])⟩

theorem whole_site (s : Shape) : s.site.whole = s.source := by
  cases s with
  | returnType ws ws' =>
      show (returnType ws ws').source ++ [] ++ [] = _
      rw [List.append_nil, List.append_nil]
  | matchedEntry => rfl
  | noMatch ws ws' =>
      show "return".toList ++ ws.val ++ '0' :: (ws'.val ++ [';']) = _
      rw [List.append_assoc]
      rfl

theorem source_ne_nil (s : Shape) : s.source ≠ [] := by
  have hstruct : "struct".toList ≠ [] := by decide
  have hreturn : "return".toList ≠ [] := by decide
  have hentry : "&wordlist[key]".toList ≠ [] := by decide
  cases s with
  | returnType ws ws' => exact List.append_ne_nil_of_left_ne_nil hstruct _
  | matchedEntry => exact hentry
  | noMatch ws ws' => exact List.append_ne_nil_of_left_ne_nil hreturn _

/-- A site is seen from its text. -/
theorem source_injective {s s' : Shape} (hedit : s.edit = s'.edit) (h : s.source = s'.source) :
    s = s' := by
  cases s with
  | returnType ws ws' =>
      cases s' with
      | returnType vs vs' =>
          have hname : "keyword_hash_entry".toList.head? = some 'k' := by decide
          have hhead : ∀ cs, ("keyword_hash_entry".toList ++ cs).head? = some 'k' := fun cs => by
            rw [List.head?_append, hname]
            rfl
          obtain ⟨rfl, hrest⟩ := Blanks.append_inj (hhead _) (hhead _) (by decide)
            (List.append_cancel_left h)
          have hws' := List.append_cancel_right (List.append_cancel_left hrest)
          rw [Subtype.ext hws']
      | matchedEntry => exact absurd hedit Edit.noConfusion
      | noMatch vs vs' => exact absurd hedit Edit.noConfusion
  | matchedEntry =>
      cases s' with
      | returnType vs vs' => exact absurd hedit Edit.noConfusion
      | matchedEntry => rfl
      | noMatch vs vs' => exact absurd hedit Edit.noConfusion
  | noMatch ws ws' =>
      cases s' with
      | returnType vs vs' => exact absurd hedit Edit.noConfusion
      | matchedEntry => exact absurd hedit Edit.noConfusion
      | noMatch vs vs' =>
          obtain ⟨rfl, hrest⟩ := Blanks.append_inj rfl rfl (by decide) (List.append_cancel_left h)
          have hws' := List.append_cancel_right (List.cons.inj hrest).2
          rw [Subtype.ext hws']

end Shape

inductive Piece
  | kept (c : Char)
  | site (s : Shape)

namespace Piece

/-- What edits a piece, if anything does. -/
def edit? : Piece → Option Edit
  | kept _ => none
  | site s => some s.edit

def source : Piece → List Char
  | kept c => [c]
  | site s => s.source

/-- What a piece is to become. -/
def edited (cfg : GeneratorConfig) : Piece → List Char
  | kept c => [c]
  | site s => s.edited cfg

end Piece

/-- **The division of a text into pieces.** A character is kept only where no site begins. -/
inductive Divides : List Char → List Piece → Prop
  | nil : Divides [] []
  | kept {c : Char} {rest : List Char} {ps : List Piece} :
      (∀ s : Shape, ¬ s.source <+: c :: rest) → Divides rest ps →
      Divides (c :: rest) (.kept c :: ps)
  | site (s : Shape) {rest : List Char} {ps : List Piece} :
      Divides rest ps → Divides (s.source ++ rest) (.site s :: ps)

theorem Divides.source {text : List Char} {ps : List Piece} (h : Divides text ps) :
    text = ps.flatMap Piece.source := by
  induction h with
  | nil => rfl
  | kept _ _ ih =>
      rw [List.flatMap_cons, ← ih]
      rfl
  | site _ _ ih =>
      rw [List.flatMap_cons, ← ih]
      rfl

/-- Every text can be divided. -/
theorem exists_divides (text : List Char) : ∃ ps, Divides text ps := by
  -- a site takes several characters at once, so the induction is on the length
  induction hn : text.length using Nat.strongRecOn generalizing text with
  | ind n ih =>
      subst hn
      cases text with
      | nil => exact ⟨[], .nil⟩
      | cons c rest =>
          by_cases h : ∃ s : Shape, s.source <+: c :: rest
          · obtain ⟨s, t, ht⟩ := h
            have hlen : t.length < (c :: rest).length := by
              have hpos := List.length_pos_iff.mpr s.source_ne_nil
              rw [← ht, List.length_append]
              omega
            obtain ⟨ps, hps⟩ := ih t.length hlen t rfl
            exact ⟨.site s :: ps, ht ▸ .site s hps⟩
          · obtain ⟨ps, hps⟩ := ih rest.length (Nat.lt_succ_self _) rest rfl
            exact ⟨.kept c :: ps, .kept (fun s hs => h ⟨s, hs⟩) hps⟩

/-! ## The patterns of the rules -/

namespace Edit

def pattern : Edit → Pattern
  | returnType => ⟨[.text "struct", .blanks, .text entryStruct, .blanks, .text "*"], [], []⟩
  | matchedEntry => ⟨[.text "&"], [.text "wordlist[key]"], []⟩
  | noMatch => ⟨[], [.text "return", .blanks], [.text "0", .blanks, .text ";"]⟩

/-- A pattern finds every site of its shape, whatever follows. -/
theorem siteAt?_source (s : Shape) (rest : List Char) :
    s.edit.pattern.siteAt? (s.source ++ rest) = some s.site := by
  have hnil : ∀ cs, PatternPart.takeAll? [] cs = some ([], cs) := fun _ => rfl
  cases s with
  | returnType ws ws' =>
      have hstar : "*".toList = ['*'] := by decide
      have hname : entryStruct.toList.head? = some 'k' := by decide
      -- from the last part to the first, each with what follows it
      have h5 := PatternPart.takeAll?_text "*" (hnil rest)
      have h4 := PatternPart.takeAll?_blanks ws' (c := '*') (by rw [hstar]; rfl) (by decide) h5
      have h3 := PatternPart.takeAll?_text entryStruct h4
      have h2 := PatternPart.takeAll?_blanks ws (c := 'k')
        (by rw [List.head?_append, hname]; rfl) (by decide) h3
      have h1 := PatternPart.takeAll?_text "struct" h2
      have hbefore : PatternPart.takeAll? Edit.returnType.pattern.before
          ((Shape.returnType ws ws').source ++ rest)
          = some ((Shape.returnType ws ws').source, rest) := by
        unfold Edit.pattern Shape.source
        simp only [hstar, List.append_assoc, List.append_nil] at h1 ⊢
        exact h1
      exact Pattern.siteAt?_of_takeAll? hbefore (hnil _) (hnil _)
  | matchedEntry =>
      have hamp : "&".toList = ['&'] := by decide
      have hlit : "&wordlist[key]".toList = ['&'] ++ "wordlist[key]".toList := by decide
      have h2 := PatternPart.takeAll?_text "wordlist[key]" (hnil rest)
      have h1 := PatternPart.takeAll?_text "&" (hnil ("wordlist[key]".toList ++ rest))
      have hbefore : PatternPart.takeAll? Edit.matchedEntry.pattern.before
          (Shape.matchedEntry.source ++ rest) = some (['&'], "wordlist[key]".toList ++ rest) := by
        unfold Edit.pattern Shape.source
        simp only [hamp, hlit, List.append_assoc, List.append_nil] at h1 ⊢
        exact h1
      rw [List.append_nil] at h2
      exact Pattern.siteAt?_of_takeAll? hbefore h2 (hnil _)
  | noMatch ws ws' =>
      have hzero : "0".toList = ['0'] := by decide
      have hsemi : ";".toList = [';'] := by decide
      have h5 := PatternPart.takeAll?_text ";" (hnil rest)
      have h4 := PatternPart.takeAll?_blanks ws' (c := ';') (by rw [hsemi]; rfl) (by decide) h5
      have h3 := PatternPart.takeAll?_text "0" h4
      have h2 := PatternPart.takeAll?_blanks ws (c := '0') (by rw [hzero]; rfl) (by decide)
        (hnil ("0".toList ++ (ws'.val ++ (";".toList ++ rest))))
      have h1 := PatternPart.takeAll?_text "return" h2
      have hcaptured : PatternPart.takeAll? Edit.noMatch.pattern.captured
          ((Shape.noMatch ws ws').source ++ rest)
          = some ("return".toList ++ ws.val, '0' :: (ws'.val ++ ([';'] ++ rest))) := by
        unfold Edit.pattern Shape.source
        simp only [hzero, hsemi, List.append_assoc, List.append_nil, List.cons_append,
          List.nil_append] at h1 ⊢
        exact h1
      have hafter : PatternPart.takeAll? Edit.noMatch.pattern.after
          ('0' :: (ws'.val ++ ([';'] ++ rest))) = some ('0' :: (ws'.val ++ [';']), rest) := by
        unfold Edit.pattern
        simp only [hzero, hsemi, List.append_nil, List.cons_append, List.nil_append] at h3 ⊢
        exact h3
      exact Pattern.siteAt?_of_takeAll? (hnil _) hcaptured hafter

/-- A pattern finds nothing else. -/
theorem exists_of_siteAt? {e : Edit} {cs : List Char} {found : Site}
    (h : e.pattern.siteAt? cs = some found) : ∃ s : Shape, s.edit = e ∧ s.source <+: cs := by
  obtain ⟨hbegins, hbefore, hcaptured, hafter⟩ := Pattern.siteAt?_sound h
  unfold Site.whole at hbegins
  -- what fits the parts of a pattern has its literal text and runs of blanks between
  cases e with
  | returnType =>
      obtain ⟨_, _, hb, rfl, ws, _, rfl, hws, _, _, rfl, rfl, ws', _, rfl, hws', _, _, rfl, rfl,
        rfl⟩ := hbefore
      rw [hb, show found.captured = [] from hcaptured, show found.after = [] from hafter,
        List.append_nil, List.append_nil] at hbegins
      exact ⟨.returnType ⟨ws, hws⟩ ⟨ws', hws'⟩, rfl, hbegins⟩
  | matchedEntry =>
      obtain ⟨_, _, hb, rfl, rfl⟩ := hbefore
      obtain ⟨_, _, hc, rfl, rfl⟩ := hcaptured
      rw [hb, hc, show found.after = [] from hafter] at hbegins
      exact ⟨.matchedEntry, rfl, hbegins⟩
  | noMatch =>
      obtain ⟨_, _, hc, rfl, ws, _, rfl, hws, rfl⟩ := hcaptured
      obtain ⟨_, _, ha, rfl, ws', _, rfl, hws', _, _, rfl, rfl, rfl⟩ := hafter
      rw [show found.before = [] from hbefore, hc, ha, List.append_nil, List.append_nil,
        List.nil_append, List.append_assoc] at hbegins
      exact ⟨.noMatch ⟨ws, hws⟩ ⟨ws', hws'⟩, rfl, hbegins⟩

end Edit

end Reserved
