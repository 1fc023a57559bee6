import Reserved.Proofs.Text.Run
import Reserved.Spec.Parser

/-!
# The grammar of a line

What a live line must look like is said here without a parser: a word, one comma and a kind,
the word perhaps in a pair of quotes, the kind perhaps behind a path. Each way of missing
this is a constructor of `Offence`, and it carries the error that is due.

The grammar covers every line, since a line either spells an entry or commits an offence, and
the parser follows it in both cases. So the parser agrees with the grammar exactly, without
an argument that runs the parser backwards.
-/

namespace Reserved

namespace KeywordSpec

/-! ## The grammar -/

/-- A letter or an underscore, then letters, digits and underscores. -/
def IsName (word : List Char) : Prop :=
  ∃ c rest, word = c :: rest ∧ (c.isAlpha = true ∨ c = '_') ∧
    ∀ x ∈ rest, x.isAlphanum = true ∨ x = '_'

/-- `word` is `field` without the pair of double quotes around it, if there is such a pair. -/
def Unquotes (field word : List Char) : Prop :=
  field = '"' :: word ++ ['"'] ∨ word = field ∧ ∀ inner, field ≠ '"' :: inner ++ ['"']

/-- The line has exactly one comma, `word` before it and `kind`, which is not empty, after
it. -/
def Fields (text word kind : List Char) : Prop :=
  ∃ a b, text = a ++ ',' :: b ∧ ',' ∉ a ∧ ',' ∉ b ∧
    Unquotes (trim a) word ∧ kind = trim b ∧ kind ≠ []

/-- `segment` is what follows the last `::`, or all of `kind` if there is none. -/
def LastSegment (kind segment : List Char) : Prop :=
  (∃ path, kind = path ++ ':' :: ':' :: segment ∧ ¬ [':', ':'] <:+: ':' :: segment) ∨
    segment = kind ∧ ¬ [':', ':'] <:+: kind

/-- The last segment of `kind` is the name of `k`. -/
def Names (kind : List Char) (k : TokenKind) : Prop :=
  ∃ segment, LastSegment kind segment ∧ String.ofList (trim segment) = k.name

/-- A well-formed line: it spells the entry of `word` with the kind `k`. -/
def Spells (text : List Char) (word : String) (k : TokenKind) : Prop :=
  ∃ kind, Fields text word.toList kind ∧ IsName word.toList ∧ Names kind k ∧ k ≠ .ident

/-- What is wrong with a line that is not well formed. Each offence is looked for only where
the ones before it are not committed. -/
inductive Offence (n : Nat) (text : List Char) : SpecError → Prop
  | malformed : (∀ word kind, ¬ Fields text word kind) →
      Offence n text (.malformed n (String.ofList text))
  | illegalKeyword {word kind : List Char} : Fields text word kind → ¬ IsName word →
      Offence n text (.illegalKeyword n (String.ofList word))
  | unknownTokenKind {word kind : List Char} : Fields text word kind → IsName word →
      (∀ k, ¬ Names kind k) → Offence n text (.unknownTokenKind n (String.ofList kind))
  | sentinelKind {word kind : List Char} : Fields text word kind → IsName word →
      Names kind .ident → Offence n text (.sentinelKind n (String.ofList word) .ident)

/-- **Every line spells an entry or commits an offence.** -/
theorem spells_or_offence (n : Nat) (text : List Char) :
    (∃ word k, Spells text word k) ∨ ∃ e, Offence n text e := by
  by_cases hfields : ∃ word kind, Fields text word kind
  · obtain ⟨word, kind, hfields⟩ := hfields
    by_cases hname : IsName word
    · by_cases hkind : ∃ k, Names kind k
      · obtain ⟨k, hk⟩ := hkind
        by_cases hident : k = .ident
        · exact Or.inr ⟨_, .sentinelKind hfields hname (hident ▸ hk)⟩
        · refine Or.inl ⟨String.ofList word, k, kind, ?_, ?_, hk, hident⟩
          · rw [String.toList_ofList]
            exact hfields
          · rw [String.toList_ofList]
            exact hname
      · exact Or.inr ⟨_, .unknownTokenKind hfields hname fun k hk => hkind ⟨k, hk⟩⟩
    · exact Or.inr ⟨_, .illegalKeyword hfields hname⟩
  · exact Or.inr ⟨_, .malformed fun word kind h => hfields ⟨word, kind, h⟩⟩

/-! ## Words -/

theorem isWordStart_iff (c : Char) : isWordStart c = true ↔ c.isAlpha = true ∨ c = '_' := by
  unfold isWordStart Char.isAlpha Char.isUpper Char.isLower
  simp only [Bool.or_eq_true, Bool.and_eq_true, decide_eq_true_eq, beq_iff_eq]
  refine or_congr (Iff.trans (or_comm) (or_congr ?_ ?_)) Iff.rfl <;> exact Iff.rfl

theorem isWordPart_iff (c : Char) : isWordPart c = true ↔ c.isAlphanum = true ∨ c = '_' := by
  have hdigit : ('0' ≤ c ∧ c ≤ '9') ↔ c.isDigit = true := by
    unfold Char.isDigit
    simp only [Bool.and_eq_true, decide_eq_true_eq]
    exact Iff.rfl
  unfold isWordPart Char.isAlphanum
  simp only [Bool.or_eq_true, Bool.and_eq_true, decide_eq_true_eq, isWordStart_iff, hdigit]
  exact or_right_comm

theorem isIdentifier_iff {word : List Char} : isIdentifier word = true ↔ IsName word := by
  cases word with
  | nil => exact ⟨fun h => absurd h (by decide), fun ⟨_, _, h, _⟩ => absurd h (by simp)⟩
  | cons c rest =>
      simp only [isIdentifier, Bool.and_eq_true, List.all_eq_true, isWordStart_iff,
        isWordPart_iff]
      constructor
      · exact fun ⟨hc, hrest⟩ => ⟨c, rest, rfl, hc, hrest⟩
      · rintro ⟨d, rest', h, hd, hrest⟩
        obtain ⟨rfl, rfl⟩ := List.cons.inj h
        exact ⟨hd, hrest⟩

/-- Taking the quotes off leaves what stands between them. -/
theorem unquote_of_unquotes {field word : List Char} (h : Unquotes field word) :
    unquote field = word := by
  rcases h with rfl | ⟨rfl, hnone⟩
  · simp [unquote]
  · unfold unquote
    split
    · rename_i rest
      split
      · rename_i hlast
        obtain ⟨inner, rfl⟩ := List.getLast?_eq_some_iff.mp hlast
        exact absurd rfl (hnone inner)
      · rfl
    · rfl

/-! ## Kinds -/

theorem afterColons?_eq_none {cs : List Char} :
    afterColons? cs = none ↔ ¬ [':', ':'] <:+: cs := by
  induction cs with
  | nil => simp [afterColons?]
  | cons c rest ih =>
      have hprefix : [':', ':'] <+: c :: rest ↔ c = ':' ∧ rest.head? = some ':' := by
        cases rest <;> simp [eq_comm]
      rw [List.infix_cons_iff, not_or, ← ih, hprefix, afterColons?]
      cases afterColons? rest with
      | none =>
          by_cases hc : c = ':' ∧ rest.head? = some ':' <;> simp [hc]
      | some name => simp

theorem afterColons?_append {segment : List Char} (h : ¬ [':', ':'] <:+: ':' :: segment) :
    ∀ path, afterColons? (path ++ ':' :: ':' :: segment) = some segment
  | [] => by
      rw [List.nil_append, afterColons?, afterColons?_eq_none.mpr h]
      simp
  | c :: path => by rw [List.cons_append, afterColons?, afterColons?_append h path]

theorem kindName_of_lastSegment {kind segment : List Char} (h : LastSegment kind segment) :
    kindName kind = String.ofList (trim segment) := by
  unfold kindName
  rcases h with ⟨path, rfl, hlast⟩ | ⟨rfl, hnone⟩
  · rw [afterColons?_append hlast path]
    rfl
  · rw [afterColons?_eq_none.mpr hnone]
    rfl

/-- A kind has a last segment. -/
theorem exists_lastSegment (kind : List Char) : ∃ segment, LastSegment kind segment := by
  by_cases h : [':', ':'] <:+: kind
  · -- the last of the places where `::` stands
    induction kind with
    | nil => exact absurd h (by simp)
    | cons c rest ih =>
        by_cases hrest : [':', ':'] <:+: rest
        · obtain ⟨segment, ⟨path, rfl, hlast⟩ | ⟨_, hnone⟩⟩ := ih hrest
          · exact ⟨segment, Or.inl ⟨c :: path, rfl, hlast⟩⟩
          · exact absurd hrest hnone
        · rcases List.infix_cons_iff.mp h with ⟨tail, htail⟩ | hin
          · obtain ⟨rfl, rfl⟩ := List.cons.inj htail
            exact ⟨tail, Or.inl ⟨[], rfl, hrest⟩⟩
          · exact absurd hin hrest
  · exact ⟨kind, Or.inr ⟨rfl, h⟩⟩

theorem ofName?_eq_some {name : String} {k : TokenKind} :
    TokenKind.ofName? name = some k ↔ name = k.name := by
  constructor
  · intro h
    have hk := List.find?_some h
    exact (beq_iff_eq.mp hk).symm
  · rintro rfl
    exact TokenKind.ofName?_name k

/-- The name of a kind is looked up where its last segment says. -/
theorem ofName?_kindName {kind : List Char} {k : TokenKind} :
    TokenKind.ofName? (kindName kind) = some k ↔ Names kind k := by
  rw [ofName?_eq_some]
  constructor
  · intro h
    obtain ⟨segment, hseg⟩ := exists_lastSegment kind
    exact ⟨segment, hseg, (kindName_of_lastSegment hseg).symm.trans h⟩
  · rintro ⟨segment, hseg, hname⟩
    exact (kindName_of_lastSegment hseg).trans hname

/-! ## Fields -/

theorem comma_of_not_mem {cs : List Char} (h : ',' ∉ cs) : ∀ c ∈ cs, (c == ',') = false := by
  intro c hc
  exact beq_false_of_ne fun he => h (he ▸ hc)

theorem splitWhere_comma {a b : List Char} (ha : ',' ∉ a) (hb : ',' ∉ b) :
    (splitWhere (· == ',') (a ++ ',' :: b)).map trim = [trim a, trim b] := by
  rw [splitWhere_append rfl b (comma_of_not_mem ha), splitWhere_of_not_mem (comma_of_not_mem hb)]
  rfl

/-- Two pieces come from exactly one comma. -/
theorem exists_comma_of_splitWhere {text x y : List Char}
    (h : (splitWhere (· == ',') text).map trim = [x, y]) :
    ∃ a b, text = a ++ ',' :: b ∧ ',' ∉ a ∧ ',' ∉ b ∧ x = trim a ∧ y = trim b := by
  -- as many pieces as separators and one more
  have hlength : text.countP (· == ',') = 1 := by
    have := congrArg List.length h
    rw [List.length_map, length_splitWhere] at this
    simpa using this
  have hmem : ',' ∈ text := by
    refine Classical.not_not.mp fun hnot => ?_
    rw [List.countP_eq_zero.mpr fun c hc => by simp [comma_of_not_mem hnot c hc]] at hlength
    exact absurd hlength (by decide)
  obtain ⟨a, b, rfl, ha⟩ := List.eq_append_cons_of_mem hmem
  have hb : ',' ∉ b := by
    intro hb
    have hpos : 0 < b.countP (· == ',') := List.countP_pos_iff.mpr ⟨',', hb, rfl⟩
    rw [List.countP_append, List.countP_cons_of_pos (by rfl)] at hlength
    omega
  rw [splitWhere_comma ha hb] at h
  injection h with hx h
  injection h with hy _
  exact ⟨a, b, rfl, ha, hb, hx.symm, hy.symm⟩

/-! ## The parser follows the grammar -/

/-- A line with fields is judged by them. -/
theorem entryOfLine_of_fields {text word kind : List Char} (n : Nat)
    (h : Fields text word kind) :
    entryOfLine n text =
      if isIdentifier word then
        match TokenKind.ofName? (kindName kind) with
        | none => .error (.unknownTokenKind n (String.ofList kind))
        | some k =>
          if k = .sentinel then .error (.sentinelKind n (String.ofList word) k)
          else .ok ⟨String.ofList word, k, n⟩
      else .error (.illegalKeyword n (String.ofList word)) := by
  obtain ⟨a, b, rfl, ha, hb, hword, rfl, hkind⟩ := h
  unfold entryOfLine
  rw [splitWhere_comma ha hb]
  dsimp only
  rw [unquote_of_unquotes hword, if_neg (by simpa using hkind)]
  by_cases hname : isIdentifier word = true
  · simp only [hname, Bool.not_true, if_true]
    cases TokenKind.ofName? (kindName (trim b)) with
    | none => rfl
    | some k =>
        by_cases hk : k = .sentinel
        · simp only [hk, if_true]
          rfl
        · simp only [hk, if_false]
          rfl
  · simp only [hname, Bool.not_false, if_true]
    rfl

theorem entryOfLine_of_spells {text : List Char} {word : String} {k : TokenKind} (n : Nat)
    (h : Spells text word k) : entryOfLine n text = .ok ⟨word, k, n⟩ := by
  obtain ⟨kind, hfields, hname, hkind, hk⟩ := h
  rw [entryOfLine_of_fields n hfields, if_pos (isIdentifier_iff.mpr hname),
    ofName?_kindName.mpr hkind, String.ofList_toList]
  exact if_neg hk

/-- Without fields a line is malformed. -/
theorem entryOfLine_of_no_fields {text : List Char} (n : Nat)
    (h : ∀ word kind, ¬ Fields text word kind) :
    entryOfLine n text = .error (.malformed n (String.ofList text)) := by
  unfold entryOfLine
  split
  · rename_i x y hsplit
    obtain ⟨a, b, htext, ha, hb, rfl, rfl⟩ := exists_comma_of_splitWhere hsplit
    -- one comma, so the kind must be empty
    have hempty : trim b = [] := by
      refine Classical.not_not.mp fun hne => ?_
      have hquote : ∃ word, Unquotes (trim a) word := by
        by_cases hin : ∃ inner, trim a = '"' :: inner ++ ['"']
        · exact ⟨hin.choose, Or.inl hin.choose_spec⟩
        · exact ⟨trim a, Or.inr ⟨rfl, fun inner he => hin ⟨inner, he⟩⟩⟩
      obtain ⟨word, hword⟩ := hquote
      exact h word (trim b) ⟨a, b, htext, ha, hb, hword, rfl, hne⟩
    rw [hempty]
    rfl
  · rfl

theorem entryOfLine_of_offence {n : Nat} {text : List Char} {e : SpecError}
    (h : Offence n text e) : entryOfLine n text = .error e := by
  cases h with
  | malformed hnone => exact entryOfLine_of_no_fields n hnone
  | illegalKeyword hfields hname =>
      rw [entryOfLine_of_fields n hfields, if_neg (fun h => hname (isIdentifier_iff.mp h))]
  | @unknownTokenKind word kind hfields hname hkind =>
      have hnone : TokenKind.ofName? (kindName kind) = none := by
        refine Option.eq_none_iff_forall_ne_some.mpr fun k hk => ?_
        exact hkind k (ofName?_kindName.mp hk)
      rw [entryOfLine_of_fields n hfields, if_pos (isIdentifier_iff.mpr hname), hnone]
  | sentinelKind hfields hname hkind =>
      rw [entryOfLine_of_fields n hfields, if_pos (isIdentifier_iff.mpr hname),
        ofName?_kindName.mpr hkind]
      rfl

/-- **A line is accepted exactly as it spells an entry.** -/
theorem entryOfLine_eq_ok {n : Nat} {text : List Char} {entry : KeywordEntry} :
    entryOfLine n text = .ok entry ↔
      entry.line = n ∧ Spells text entry.text entry.kind := by
  constructor
  · intro h
    rcases spells_or_offence n text with ⟨word, k, hspells⟩ | ⟨e, hoffence⟩
    · rw [entryOfLine_of_spells n hspells] at h
      obtain rfl := Except.ok.inj h
      exact ⟨rfl, hspells⟩
    · rw [entryOfLine_of_offence hoffence] at h
      exact absurd h (by simp)
  · rintro ⟨rfl, hspells⟩
    exact entryOfLine_of_spells entry.line hspells

end KeywordSpec

end Reserved
