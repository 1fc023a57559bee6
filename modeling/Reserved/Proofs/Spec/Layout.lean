import Reserved.Proofs.Spec.Keywords
import Reserved.Proofs.Spec.Spelling

/-!
# The layout of a keyword file

A keyword file can be laid out in many ways that come to the same. Lines may end with a carriage
return, and what stands outside the keyword section is not looked at. Within it there may be
blank lines and comments anywhere, and an entry may be spelled with quotes, more blanks or a
longer path before its kind.

The parser skips comments after it has found the section. It could as well leave them out
before, since no comment is a delimiter, and this is how the edits are followed here: two files
whose lines without the comments agree one by one have the same entries on the same lines of
their sections.
-/

namespace Reserved

namespace KeywordSpec

/-! ## Carriage returns -/

/-- The text with a carriage return before every line feed. -/
def withReturns (src : List Char) : List Char :=
  src.flatMap fun c => if c = '\n' then ['\r', '\n'] else [c]

theorem withReturns_append (a b : List Char) :
    withReturns (a ++ b) = withReturns a ++ withReturns b :=
  List.flatMap_append

theorem withReturns_feed (rest : List Char) :
    withReturns ('\n' :: rest) = '\r' :: '\n' :: withReturns rest :=
  rfl

theorem withReturns_of_no_feed {piece : List Char} (h : ∀ c ∈ piece, (c == '\n') = false) :
    withReturns piece = piece := by
  induction piece with
  | nil => rfl
  | cons c rest ih =>
      have hc : c ≠ '\n' := by simpa using h c List.mem_cons_self
      have hrest := ih fun x hx => h x (List.mem_cons_of_mem c hx)
      unfold withReturns at hrest ⊢
      rw [List.flatMap_cons, hrest, if_neg hc]
      rfl

theorem trim_withReturns (src : List Char) :
    (splitWhere (· == '\n') (withReturns src)).map trim
      = (splitWhere (· == '\n') src).map trim := by
  induction src using piece_induction '\n' with
  | last piece hpiece => rw [withReturns_of_no_feed hpiece]
  | next piece rest hpiece ih =>
      have hreturns : withReturns (piece ++ '\n' :: rest)
          = (piece ++ ['\r']) ++ '\n' :: withReturns rest := by
        rw [withReturns_append, withReturns_of_no_feed hpiece, withReturns_feed, List.append_assoc]
        rfl
      have hpiece' : ∀ c ∈ piece ++ ['\r'], (c == '\n') = false := by
        intro c hc
        rcases List.mem_append.mp hc with hc | hc
        · exact hpiece c hc
        · obtain rfl := List.mem_singleton.mp hc
          decide
      rw [hreturns, splitWhere_append (by decide) _ hpiece', splitWhere_append (by decide) _ hpiece,
        List.map_cons, List.map_cons, ih, trim_return]

/-! ## Edits -/

/-- Another spelling of the entry on a line. -/
inductive Respelled : List Char → List Char → Prop
  /-- The keyword is put in quotes. -/
  | quoted {l word r field : List Char} : AllBlank l → IsName word → AllBlank r →
      Respelled (l ++ (word ++ r) ++ ',' :: field)
        (l ++ ('"' :: word ++ ['"'] ++ r) ++ ',' :: field)
  /-- The blanks around the two fields are others. -/
  | spaced {l l' m m' r r' s s' field kind : List Char} : AllBlank l → AllBlank l' →
      AllBlank m → AllBlank m' → AllBlank r → AllBlank r' → AllBlank s → AllBlank s' →
      Respelled (l ++ (field ++ r) ++ ',' :: (m ++ (kind ++ s)))
        (l' ++ (field ++ r') ++ ',' :: (m' ++ (kind ++ s')))
  /-- Something is put before the kind, with `::` between them. -/
  | qualified {front l kind path : List Char} : AllBlank l → ',' ∉ path →
      Respelled (front ++ ',' :: (l ++ kind)) (front ++ ',' :: (l ++ (path ++ ':' :: ':' :: kind)))
  /-- One edit after another. -/
  | trans {a b c : List Char} : Respelled a b → Respelled b c → Respelled a c

/-- Another layout of the lines of a file: a line is kept, an entry is spelled in another way, or
a blank line or a comment is put in. The lines are what stands between the line feeds. -/
inductive Relaid : List (List Char) → List (List Char) → Prop
  | nil : Relaid [] []
  | keep {ls ls' : List (List Char)} (line : List Char) : Relaid ls ls' →
      Relaid (line :: ls) (line :: ls')
  | respell {line line' : List Char} {ls ls' : List (List Char)} {word : String} {k : TokenKind} :
      Spells (trim line) word k → Respelled line line' → Relaid ls ls' →
      Relaid (line :: ls) (line' :: ls')
  | insert {line : List Char} {ls ls' : List (List Char)} :
      trim line = [] ∨ (trim line).head? = some '#' → Relaid ls ls' → Relaid ls (line :: ls')

/-- **Every spelling of an entry spells it.** -/
theorem Respelled.spells {line line' : List Char} (h : Respelled line line') {word : String}
    {k : TokenKind} (hspells : Spells (trim line) word k) : Spells (trim line') word k := by
  induction h with
  | @quoted l bare r field hl hbare hr =>
      obtain ⟨hx, hy, hword, hname, hkind, hk⟩ := spells_trim.mp hspells
      refine spells_trim.mpr ⟨?_, hy, Or.inl ?_, hname, hkind, hk⟩
      · simpa using hx
      · -- the word is bare, so it has no quotes of its own
        rw [trim_blanks hl hr, hbare.trim_eq] at hword
        have heq : word.toList = bare :=
          (unquote_of_unquotes hword).symm.trans (unquote_of_unquotes hbare.unquotes)
        rw [trim_blanks hl hr, heq]
        refine trim_eq_self (fun c hc => ?_) (fun c hc => ?_)
        · obtain rfl : '"' = c := Option.some.inj hc
          decide
        · obtain rfl : '"' = c := Option.some.inj (List.getLast?_concat.symm.trans hc)
          decide
  | spaced hl hl' hm hm' hr hr' hs hs' =>
      obtain ⟨hx, hy, hword, hname, hkind, hk⟩ := spells_trim.mp hspells
      rw [← mem_trim (by decide), trim_blanks hl hr] at hx
      rw [← mem_trim (by decide), trim_blanks hm hs] at hy
      rw [trim_blanks hl hr] at hword
      rw [qualified_blanks hm hs] at hkind
      refine spells_trim.mpr ⟨?_, ?_, ?_, hname, ?_, hk⟩
      · rwa [← mem_trim (by decide), trim_blanks hl' hr']
      · rwa [← mem_trim (by decide), trim_blanks hm' hs']
      · rwa [trim_blanks hl' hr']
      · rwa [qualified_blanks hm' hs']
  | @qualified front l kind path hl hpath =>
      obtain ⟨hx, hy, hword, hname, hkind, hk⟩ := spells_trim.mp hspells
      rw [← List.append_nil kind, qualified_blanks hl .nil] at hkind
      refine spells_trim.mpr ⟨hx, ?_, hword, hname, ?_, hk⟩
      · simp only [List.mem_append, List.mem_cons, not_or] at hy ⊢
        exact ⟨hy.1, hpath, by decide, by decide, hy.2⟩
      · have hprepend := (qualified_blanks hl .nil).mpr (hkind.prepend path)
        rwa [List.append_nil] at hprepend
  | trans _ _ ih ih' => exact ih' (ih hspells)

/-! ## What edits keep -/

/-- The sections of files that agree do so. -/
theorem forall₂_keywordSection {ls ls' : List NumberedLine} (h : List.Forall₂ Agree ls ls') :
    List.Forall₂ Agree (keywordSection ls) (keywordSection ls') := by
  have hany : ls'.any isDelimiter = ls.any isDelimiter := by
    induction h with
    | nil => rfl
    | cons hl _ ih => rw [List.any_cons, List.any_cons, hl.delimiter, ih]
  have htake : ∀ {a b : List NumberedLine}, List.Forall₂ Agree a b →
      List.Forall₂ Agree (a.takeWhile (! isDelimiter ·)) (b.takeWhile (! isDelimiter ·)) := by
    intro a b hab
    induction hab with
    | nil => exact .nil
    | cons hl _ ih =>
        rw [List.takeWhile_cons, List.takeWhile_cons, hl.delimiter]
        split
        · exact .cons hl ih
        · exact .nil
  have hdrop : ∀ {a b : List NumberedLine}, List.Forall₂ Agree a b →
      List.Forall₂ Agree (a.dropWhile (! isDelimiter ·)) (b.dropWhile (! isDelimiter ·)) := by
    intro a b hab
    induction hab with
    | nil => exact .nil
    | cons hl hrest ih =>
        rw [List.dropWhile_cons, List.dropWhile_cons, hl.delimiter]
        split
        · exact ih
        · exact .cons hl hrest
  unfold keywordSection
  rw [hany]
  split
  · exact htake (List.forall₂_drop 1 (hdrop h))
  · exact h

/-- **A new layout keeps every line that is no comment**, wherever the lines stand. -/
theorem Relaid.agree {ls ls' : List (List Char)} (h : Relaid ls ls') (n n' : Nat) :
    List.Forall₂ Agree ((numbered n ls).filter (! isComment ·))
      ((numbered n' ls').filter (! isComment ·)) := by
  induction h generalizing n n' with
  | nil => exact .nil
  | keep line _ ih =>
      rw [numbered_cons, numbered_cons, List.filter_cons, List.filter_cons]
      have hsame : isComment (n' + 1, trim line) = isComment (n + 1, trim line) := rfl
      rw [hsame]
      split
      · exact .cons (agree_of_text rfl) (ih _ _)
      · exact ih _ _
  | @respell line line' _ _ _ _ hspells hrespelled _ ih =>
      have hspells' := hrespelled.spells hspells
      have hcomment := Spells.not_comment (l := (n + 1, trim line)) hspells
      have hcomment' := Spells.not_comment (l := (n' + 1, trim line')) hspells'
      have hdelim := Spells.not_delimiter (l := (n + 1, trim line)) hspells
      have hdelim' := Spells.not_delimiter (l := (n' + 1, trim line')) hspells'
      rw [numbered_cons, numbered_cons, List.filter_cons_of_pos (by simp [hcomment]),
        List.filter_cons_of_pos (by simp [hcomment'])]
      refine .cons ⟨hdelim'.trans hdelim.symm, fun word k h => ?_⟩ (ih _ _)
      exact hrespelled.spells h
  | @insert line _ _ hidle _ ih =>
      have hcomment : isComment (n' + 1, trim line) = true := by
        unfold isComment
        rcases hidle with hblank | hhash
        · simp [hblank]
        · simp [hhash]
      rw [numbered_cons n' line, List.filter_cons_of_neg (by simp [hcomment])]
      exact ih _ _

/-! ## Layouts that come to the same -/

/-- **The layout of a keyword file does not matter.** Its lines may end with carriage returns;
what follows the second delimiter has no part in the result, nor have the lines above the first
one but for their number; and a file that is parsed has the same keywords in the same order in
any other layout of its lines. -/
theorem layout_irrelevant :
    (∀ src, parse (withReturns src) = parse src) ∧
    (∀ upto, 2 ≤ (numberedLines upto).countP isDelimiter → ∀ after,
      parse (upto ++ '\n' :: after) = parse upto) ∧
    (∀ above above' src, Heading above → Heading above' →
      (lines above).length = (lines above').length → (∃ j, Delimits src j) →
      parse (above ++ src) = parse (above' ++ src)) ∧
    (∀ src src' spec, parse src = .ok spec →
      Relaid (splitWhere (· == '\n') src) (splitWhere (· == '\n') src') →
      ∃ spec', parse src' = .ok spec' ∧ spec'.pairs = spec.pairs) := by
  refine ⟨fun src => ?_, fun upto hcount after => ?_, fun above above' src h h' hlength hsrc => ?_,
    fun src src' spec h hrelaid => ?_⟩
  · refine parse_congr ?_
    rw [liveLines_eq, liveLines_eq, written, written, numbered_congr (trim_withReturns src)]
  · refine parse_congr ?_
    rw [← countP_written] at hcount
    rw [liveLines_eq, liveLines_eq, written, splitWhere_append_sep (by decide), numbered_append,
      List.filter_append]
    exact keywordSection_append hcount _
  · refine parse_congr ?_
    rw [h.liveLines_append hsrc, h'.liveLines_append hsrc, hlength]
  · refine parse_of_agree h ?_
    rw [liveLines_eq, liveLines_eq]
    exact forall₂_keywordSection (hrelaid.agree 0 0)

theorem layout_irrelevant_one_keyword :
    parse (withReturns "if,If\n".toList) = parse "if,If\n".toList ∧
    parse ("%%\nif,If\n%%".toList ++ '\n' :: "%%\n,".toList) = parse "%%\nif,If\n%%".toList ∧
    parse ("if,\n".toList ++ "%%\nif,If".toList)
      = parse ("# if\n".toList ++ "%%\nif,If".toList) ∧
    ∃ spec, parse "# if\n\"if\",token::type::If".toList = .ok spec ∧
      spec.pairs = [("if", .ifWord)] := by
  obtain ⟨hreturns, hafter, habove, hrelaid⟩ := layout_irrelevant
  have hheading : ∀ line : List Char, lines (line ++ ['\n']) = [line] →
      trim line ≠ ['%', '%'] → Heading (line ++ ['\n']) := by
    intro line hlines hline
    refine ⟨Or.inr List.getLast?_concat, fun l hl => ?_⟩
    rw [hlines] at hl
    rwa [List.mem_singleton.mp hl]
  have hparse : parse "if,If".toList = .ok ⟨[⟨"if", .ifWord, 1⟩]⟩ := by
    decide +kernel
  have hentry : entryOfLine 1 (trim "if,If".toList) = .ok ⟨"if", .ifWord, 1⟩ := by
    decide +kernel
  have hspells : Spells (trim "if,If".toList) "if" .ifWord := (entryOfLine_eq_ok.mp hentry).2
  have hname : IsName "if".toList := isIdentifier_iff.mp (by decide)
  have hquoted : Respelled ([] ++ ("if".toList ++ []) ++ ',' :: "If".toList)
      ([] ++ ('"' :: "if".toList ++ ['"'] ++ []) ++ ',' :: "If".toList) :=
    .quoted .nil hname .nil
  have hqualified : Respelled ("\"if\"".toList ++ ',' :: ([] ++ "If".toList))
      ("\"if\"".toList ++ ',' :: ([] ++ ("token::type".toList ++ ':' :: ':' :: "If".toList))) :=
    .qualified .nil (by decide)
  have hcomment : (trim "# if".toList).head? = some '#' := by decide
  refine ⟨hreturns _, hafter _ (by decide) _, ?_, hrelaid "if,If".toList _ _ hparse ?_⟩
  · exact habove _ _ _ (hheading "if,".toList (by decide) (by decide))
      (hheading "# if".toList (by decide) (by decide)) (by decide) ⟨0, _, rfl, by decide⟩
  · exact .insert (Or.inr hcomment) (.respell hspells (hquoted.trans hqualified) .nil)

end KeywordSpec

end Reserved
