import Mathlib.Data.List.Perm.Basic
import Reserved.Proofs.Scanner.LongestMatch
import Reserved.Proofs.Spec.Lookup

/-!
# The scanner knows the keywords of its file

Two things are written down apart from one another: the keyword file, and the table that words
are classified with. They say the same. The file defines what the slots of the table hold, and
the slots say the kind of every word. So the kind of any word can be read off the file; and the
scanner classifies the lexemes that are names and no others.
-/

namespace Reserved

/-! ## The file and the slots -/

/-- The entries of the keyword section, in the order of its lines. -/
def keywordEntries : List KeywordEntry :=
  [⟨"def", .defWord, 2⟩, ⟨"extern", .externWord, 3⟩, ⟨"if", .ifWord, 4⟩,
    ⟨"then", .thenWord, 5⟩, ⟨"else", .elseWord, 6⟩, ⟨"for", .forWord, 7⟩,
    ⟨"in", .inWord, 8⟩, ⟨"while", .whileWord, 9⟩, ⟨"return", .returnWord, 10⟩,
    ⟨"let", .letWord, 11⟩, ⟨"true", .trueWord, 12⟩, ⟨"false", .falseWord, 13⟩]

theorem entriesOfLines_keywordLines :
    KeywordSpec.entriesOfLines [] (KeywordSpec.liveLines keywordLines.toList)
      = .ok keywordEntries := by
  have hlines : KeywordSpec.liveLines keywordLines.toList
      = [(2, "def, Def".toList), (3, "extern, Extern".toList), (4, "if, If".toList),
          (5, "then, Then".toList), (6, "else, Else".toList), (7, "for, For".toList),
          (8, "in, In".toList), (9, "while, While".toList), (10, "return, Return".toList),
          (11, "let, Let".toList), (12, "true, True".toList), (13, "false, False".toList)] := by
    decide +kernel
  rw [hlines]
  rfl

theorem delimits_keywordLines : ∃ j, KeywordSpec.Delimits keywordLines.toList j :=
  ⟨0, ['%', '%'], by decide +kernel, by decide⟩

/-- **The file defines what stands in the slots**, under whatever heading. -/
theorem exists_keywordSpec (path : String) {heading : String}
    (h : KeywordSpec.Heading heading.toList) :
    ∃ spec, KeywordSpec.ofBytes path (keywordFile heading).utf8 = .ok spec ∧
      ∀ text k, spec.get? text = some k ↔ (text, k) ∈ keywords.slots := by
  -- sorting the entries leaves the keywords what they are
  have hsection : KeywordSpec.parse keywordLines.toList
      = .ok ⟨keywordEntries.mergeSort KeywordSpec.entryLE⟩ := by
    unfold KeywordSpec.parse
    rw [entriesOfLines_keywordLines]
    rfl
  have hslots : (keywordEntries.map fun e => (e.text, e.kind)).Perm keywords.slots := by decide
  obtain ⟨spec, hspec, hpairs⟩ := h.parse_append delimits_keywordLines hsection
  refine ⟨spec, ?_, fun text k => ?_⟩
  · unfold KeywordSpec.ofBytes keywordFile String.utf8
    rw [Utf8.decode_encode, String.toList_append]
    exact hspec
  · rw [KeywordSpec.get?_eq_some_iff_defines hspec, ← KeywordSpec.mem_pairs_iff hspec, hpairs]
    exact (((List.mergeSort_perm _ _).map _).trans hslots).mem_iff

/-! ## The lexemes of the scanner -/

/-- The kinds of keywords. -/
def keywordKinds : List TokenKind :=
  [.defWord, .externWord, .ifWord, .thenWord, .elseWord, .forWord, .inWord, .whileWord,
    .returnWord, .letWord, .trueWord, .falseWord]

/-- A lexeme that is a name is classified as a word. -/
theorem Scanner.Shape.Fits.kind_of_name {s : Shape} {text after : List Char} {kind : TokenKind}
    (h : s.Fits text after kind) (hname : KeywordSpec.IsName text) :
    kind = classify (Utf8.encode text) := by
  -- the first character of a name is that of a word
  obtain ⟨c, rest, rfl, _, hshape⟩ := h.begins
  obtain ⟨c', rest', heq, hstart, _⟩ := hname
  obtain ⟨rfl, -⟩ := List.cons.inj heq
  have hword : Shape.of c = .word := by
    unfold Shape.of
    rw [if_pos ((KeywordSpec.isWordStart_iff c).mpr hstart)]
  obtain rfl : s = .word := hshape.symm.trans hword
  exact h.kind

/-- Every token has a lexeme, and one that is a name is classified. -/
theorem exists_lexeme_of_mem_lex {src : List Char} {t : Token} (ht : t ∈ lex src) :
    ∃ lexeme, t.lexeme? src = some lexeme ∧
      (KeywordSpec.IsName lexeme → t.kind = classify (Utf8.encode lexeme)) := by
  have hscans := scans_lex src
  by_cases hkind : t.kind = .eof
  · -- the end mark covers nothing, which is no name
    obtain ⟨before, text, after, hcovers⟩ := hscans.partitions.boundaries t ht
    obtain ⟨front, hts, hfront⟩ := hscans.partitions.ends
    have hlength : t.length = 0 := by
      rcases List.mem_append.mp (hts ▸ ht) with hmem | hmem
      · exact absurd hkind (hfront t hmem).1
      · rw [List.mem_singleton.mp hmem]
    obtain rfl : text = [] := Utf8.size_eq_zero.mp (hcovers.length.trans hlength)
    refine ⟨[], hcovers.lexeme?, ?_⟩
    rintro ⟨c, rest, hnil, _⟩
    exact absurd hnil (by simp)
  · obtain ⟨before, text, after, hcovers, s, hfits, _⟩ := hscans.longestMatches t ht hkind
    exact ⟨text, hcovers.lexeme?, hfits.kind_of_name⟩

/-- **The kind of a word is what the keyword file says.** A keyword of the file has its kind
there, and any other byte string is an identifier. So among the tokens whose lexemes are names,
those of a keyword kind are the keywords of the file, each with its own kind. -/
theorem classify_exact (path : String) {heading : String}
    (h : KeywordSpec.Heading heading.toList) :
    ∃ spec, KeywordSpec.ofBytes path (keywordFile heading).utf8 = .ok spec ∧
      (∀ word, keywords.classify? word = some (classify word)) ∧
      (∀ text k, spec.get? text = some k → classify text.utf8 = k) ∧
      (∀ word, (∀ text, text.utf8 = word → spec.get? text = none) → classify word = .ident) ∧
      ∀ src, ∀ t ∈ lex src, ∃ lexeme, t.lexeme? src = some lexeme ∧
        (KeywordSpec.IsName lexeme →
          (t.kind ∈ keywordKinds ↔ ∃ k, spec.get? (String.ofList lexeme) = some k) ∧
          ∀ k, spec.get? (String.ofList lexeme) = some k → t.kind = k) := by
  obtain ⟨spec, hspec, hget⟩ := exists_keywordSpec path h
  have hkeyword : ∀ text k, spec.get? text = some k → classify text.utf8 = k :=
    fun text k hk => classify_of_mem_slots ((hget text k).mp hk)
  have hother : ∀ word, (∀ text, text.utf8 = word → spec.get? text = none) →
      classify word = .ident := by
    intro word hnone
    refine classify_of_not_slot fun slot hslot htext => ?_
    have hsome := (hget slot.1 slot.2).mpr hslot
    rw [hnone slot.1 htext] at hsome
    exact absurd hsome (by simp)
  refine ⟨spec, hspec, classify?_eq_some, hkeyword, hother, fun src t ht => ?_⟩
  obtain ⟨lexeme, hlexeme, hname⟩ := exists_lexeme_of_mem_lex ht
  have hutf8 : (String.ofList lexeme).utf8 = Utf8.encode lexeme := by
    unfold String.utf8
    rw [String.toList_ofList]
  refine ⟨lexeme, hlexeme, fun hisName => ⟨⟨fun hkind => ?_, fun ⟨k, hk⟩ => ?_⟩, fun k hk => ?_⟩⟩
  · -- a name that the file does not define would be an identifier
    refine Option.ne_none_iff_exists'.mp fun hnone => ?_
    have hident := hother (Utf8.encode lexeme) fun text htext => by
      rw [utf8_inj (htext.trans hutf8.symm), hnone]
    rw [hname hisName, hident] at hkind
    exact absurd hkind (by decide)
  · have hkinds : ∀ slot ∈ keywords.slots, slot.2 ∈ keywordKinds := by decide
    rw [hname hisName, ← hutf8, hkeyword _ k hk]
    exact hkinds (_, k) ((hget _ k).mp hk)
  · rw [hname hisName, ← hutf8]
    exact hkeyword _ k hk

/-- Comments may stand above the section. -/
theorem classify_exact_commented :
    KeywordSpec.Heading "# Reserved words and their token kinds.\n#\n".toList ∧
      ∃ spec, KeywordSpec.ofBytes "keywords"
          (keywordFile "# Reserved words and their token kinds.\n#\n").utf8 = .ok spec ∧
        (∀ text k, spec.get? text = some k → classify text.utf8 = k) ∧
        ∀ word, (∀ text, text.utf8 = word → spec.get? text = none) → classify word = .ident := by
  have hheading : KeywordSpec.Heading "# Reserved words and their token kinds.\n#\n".toList :=
    ⟨Or.inr (by decide), by decide +kernel⟩
  obtain ⟨spec, hspec, _, hkeyword, hother, _⟩ := classify_exact "keywords" hheading
  exact ⟨hheading, spec, hspec, hkeyword, hother⟩

end Reserved
