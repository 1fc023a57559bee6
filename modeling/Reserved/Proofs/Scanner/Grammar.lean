import Mathlib.Data.List.TakeWhile
import Reserved.Proofs.Spec.Entry
import Reserved.Scanner

/-!
# The grammar of tokens

What a scanner should find is said here without one. Between tokens there are **gaps**, made
of white space and comments. A lexeme has one of four **shapes**, and a shape says three
things: what the lexeme looks like, what may not come after it, and which kind it has. The
longest match is thus a condition on the text after a lexeme, not on a loop.

Two facts make this a grammar one can scan by. The first character of a lexeme decides its
shape, so no lexeme has two. And every text begins with a gap, perhaps an empty one, after
which it ends or goes on with a lexeme.
-/

namespace Reserved

namespace Scanner

open KeywordSpec (IsName isWordStart_iff isWordPart_iff)

/-! ## Gaps -/

/-- White space between tokens: space, tab, line feed, form feed and carriage return. -/
def spaces : List Char := [' ', '\t', '\n', '\x0c', '\r']

/-- `gap` consists of white space and comments, if `after` is what follows it. A comment runs
up to the next line feed or to the end of the text. -/
inductive Gap : List Char → List Char → Prop
  | nil {after : List Char} : Gap [] after
  | space {c : Char} {gap after : List Char} : c ∈ spaces → Gap gap after → Gap (c :: gap) after
  | comment {body gap after : List Char} : '\n' ∉ body →
      (∀ c, (gap ++ after).head? = some c → c = '\n') → Gap gap after →
      Gap ('/' :: '/' :: (body ++ gap)) after

/-! ## Lexemes -/

/-- The punctuation characters, each with its kind. -/
def marks : List (Char × TokenKind) :=
  [('(', .lparen), (')', .rparen), (',', .comma), (';', .semi), ('+', .plus), ('-', .minus),
    ('*', .star), ('/', .slash), ('<', .lt), ('>', .gt), ('=', .assign)]

/-- Digits, and perhaps a point with digits after it. -/
def IsNumeral (text : List Char) : Prop :=
  ∃ whole, whole ≠ [] ∧ (∀ c ∈ whole, c.isDigit = true) ∧
    (text = whole ∨ ∃ fraction, fraction ≠ [] ∧ (∀ c ∈ fraction, c.isDigit = true) ∧
      text = whole ++ '.' :: fraction)

/-- A name that does not go on. The keywords say which kind it has. -/
structure Word (text after : List Char) (kind : TokenKind) : Prop where
  name : IsName text
  longest : ∀ c, after.head? = some c → ¬ (c.isAlphanum = true ∨ c = '_')
  kind : kind = classify (Utf8.encode text)

/-- A numeral that does not go on, neither with a digit nor, if it has no fraction, with
one. -/
structure Number (text after : List Char) (kind : TokenKind) : Prop where
  numeral : IsNumeral text
  no_digit : ∀ c, after.head? = some c → c.isDigit = false
  no_fraction : '.' ∉ text → ∀ d rest, after = '.' :: d :: rest → d.isDigit = false
  kind : kind = .num

/-- A punctuation character; a slash that does not begin a comment. -/
structure Mark (text after : List Char) (kind : TokenKind) : Prop where
  mark : ∃ c, text = [c] ∧ (c, kind) ∈ marks
  no_comment : kind = .slash → after.head? ≠ some '/'

/-- A character that begins nothing, in its one to four bytes. -/
structure Stray (text : List Char) (kind : TokenKind) : Prop where
  stray : ∃ c, text = [c] ∧ c ∉ spaces ∧ c.isAlpha = false ∧ c.isDigit = false ∧ c ≠ '_' ∧
    ∀ k, (c, k) ∉ marks
  bytes : 1 ≤ Utf8.size text ∧ Utf8.size text ≤ 4
  kind : kind = .invalid

inductive Shape
  | word
  | number
  | mark
  | stray
  deriving DecidableEq, Repr

/-- `text` is a lexeme of this shape and of the kind `kind`, if `after` is what follows it. -/
def Shape.Fits : Shape → List Char → List Char → TokenKind → Prop
  | word, text, after, kind => Word text after kind
  | number, text, after, kind => Number text after kind
  | mark, text, after, kind => Mark text after kind
  | stray, text, _, kind => Stray text kind

/-! ## Classes of characters -/

theorem isSpace_iff (c : Char) : isSpace c = true ↔ c ∈ spaces := by
  simp [isSpace, spaces, or_assoc]

theorem isDigit_iff (c : Char) : isDigit c = true ↔ c.isDigit = true := by
  unfold isDigit Char.isDigit
  simp only [Bool.and_eq_true, decide_eq_true_eq]
  exact Iff.rfl

theorem punctuation?_iff (c : Char) (k : TokenKind) :
    punctuation? c = some k ↔ (c, k) ∈ marks := by
  constructor
  · intro h
    unfold punctuation? at h
    split at h <;> simp_all [marks]
  · intro h
    have hall : ∀ p ∈ marks, punctuation? p.1 = some p.2 := by decide
    exact hall (c, k) h

/-- A digit begins no word. -/
theorem isWordStart_of_isDigit {c : Char} (h : isDigit c = true) : isWordStart c = false := by
  unfold isDigit at h
  simp only [Bool.and_eq_true, decide_eq_true_eq, Char.le_def, UInt32.le_iff_toNat_le] at h
  obtain ⟨h0, h9⟩ := h
  have hle : c.val.toNat ≤ 57 := h9
  have hne : c ≠ '_' := by
    rintro rfl
    exact absurd hle (by decide)
  have hupper : ¬ 'A' ≤ c := by
    intro hA
    have : 65 ≤ c.val.toNat := hA
    omega
  have hlower : ¬ 'a' ≤ c := by
    intro ha
    have : 97 ≤ c.val.toNat := ha
    omega
  simp [isWordStart, hne, hupper, hlower]

theorem of_mem_spaces {c : Char} (h : c ∈ spaces) :
    c ≠ '/' ∧ isWordStart c = false ∧ isDigit c = false ∧ punctuation? c = none := by
  simp only [spaces, List.mem_cons, List.not_mem_nil, or_false] at h
  rcases h with rfl | rfl | rfl | rfl | rfl <;> decide

theorem of_mem_marks {c : Char} {k : TokenKind} (h : (c, k) ∈ marks) :
    isSpace c = false ∧ isWordStart c = false ∧ isDigit c = false ∧ (c = '/' ↔ k = .slash) := by
  have hall : ∀ p ∈ marks, isSpace p.1 = false ∧ isWordStart p.1 = false ∧
      isDigit p.1 = false ∧ (p.1 = '/' ↔ p.2 = .slash) := by decide
  exact hall (c, k) h

/-! ## The first character decides -/

/-- The shape of the lexemes that begin with a character. -/
def Shape.of (c : Char) : Shape :=
  if isWordStart c then .word
  else if isDigit c then .number
  else if (punctuation? c).isSome then .mark
  else .stray

theorem Word.begins {text after : List Char} {kind : TokenKind} (h : Word text after kind) :
    ∃ c rest, text = c :: rest ∧ isWordStart c = true ∧ ∀ x ∈ rest, isWordPart x = true := by
  obtain ⟨c, rest, htext, hc, hrest⟩ := h.name
  exact ⟨c, rest, htext, (isWordStart_iff c).mpr hc,
    fun x hx => (isWordPart_iff x).mpr (hrest x hx)⟩

theorem IsNumeral.begins {text : List Char} (h : IsNumeral text) :
    ∃ c rest, text = c :: rest ∧ isDigit c = true := by
  obtain ⟨whole, hne, hdigits, htext⟩ := h
  obtain ⟨c, rest, rfl⟩ := List.exists_cons_of_ne_nil hne
  have hc : isDigit c = true := (isDigit_iff c).mpr (hdigits c List.mem_cons_self)
  rcases htext with rfl | ⟨fraction, _, _, rfl⟩
  · exact ⟨c, rest, rfl, hc⟩
  · exact ⟨c, rest ++ '.' :: fraction, rfl, hc⟩

theorem Stray.begins {text : List Char} {kind : TokenKind} (h : Stray text kind) :
    ∃ c, text = [c] ∧ isSpace c = false ∧ isWordStart c = false ∧ isDigit c = false ∧
      punctuation? c = none := by
  obtain ⟨c, htext, hspace, halpha, hdigit, hne, hmark⟩ := h.stray
  refine ⟨c, htext, ?_, ?_, ?_, ?_⟩
  · rw [Bool.eq_false_iff, ne_eq, isSpace_iff]
    exact hspace
  · rw [Bool.eq_false_iff, ne_eq, isWordStart_iff, halpha]
    rintro (h | h)
    · exact absurd h (by simp)
    · exact hne h
  · rw [Bool.eq_false_iff, ne_eq, isDigit_iff, hdigit]
    simp
  · refine Option.eq_none_iff_forall_ne_some.mpr fun k hk => ?_
    exact hmark k ((punctuation?_iff c k).mp hk)

/-- A lexeme begins with a character of its shape, and that is no white space. -/
theorem Shape.Fits.begins {s : Shape} {text after : List Char} {kind : TokenKind}
    (h : s.Fits text after kind) :
    ∃ c rest, text = c :: rest ∧ isSpace c = false ∧ Shape.of c = s := by
  -- white space begins no lexeme, so what begins one is no white space
  have hspace : ∀ c, isWordStart c = true ∨ isDigit c = true → isSpace c = false := by
    intro c hc
    rw [Bool.eq_false_iff, ne_eq, isSpace_iff]
    intro hmem
    obtain ⟨_, hword, hdigit, _⟩ := of_mem_spaces hmem
    rcases hc with hc | hc
    · rw [hword] at hc
      exact absurd hc (by simp)
    · rw [hdigit] at hc
      exact absurd hc (by simp)
  cases s with
  | word =>
      obtain ⟨c, rest, htext, hc, _⟩ := Word.begins h
      exact ⟨c, rest, htext, hspace c (Or.inl hc), by simp [Shape.of, hc]⟩
  | number =>
      obtain ⟨c, rest, htext, hc⟩ := h.numeral.begins
      exact ⟨c, rest, htext, hspace c (Or.inr hc),
        by simp [Shape.of, hc, isWordStart_of_isDigit hc]⟩
  | mark =>
      obtain ⟨c, htext, hmark⟩ := h.mark
      obtain ⟨hsp, hword, hdigit, _⟩ := of_mem_marks hmark
      exact ⟨c, [], htext, hsp,
        by simp [Shape.of, hword, hdigit, (punctuation?_iff c kind).mpr hmark]⟩
  | stray =>
      obtain ⟨c, htext, hsp, hword, hdigit, hmark⟩ := Stray.begins h
      exact ⟨c, [], htext, hsp, by simp [Shape.of, hword, hdigit, hmark]⟩

/-- **No lexeme has two shapes.** -/
theorem Shape.Fits.unique {s s' : Shape} {text after after' : List Char} {kind kind' : TokenKind}
    (h : s.Fits text after kind) (h' : s'.Fits text after' kind') : s = s' := by
  obtain ⟨c, rest, htext, _, hs⟩ := h.begins
  obtain ⟨c', rest', htext', _, hs'⟩ := h'.begins
  rw [htext] at htext'
  obtain ⟨rfl, -⟩ := List.cons.inj htext'
  rw [← hs, ← hs']

theorem Shape.Fits.ne_nil {s : Shape} {text after : List Char} {kind : TokenKind}
    (h : s.Fits text after kind) : text ≠ [] := by
  obtain ⟨c, rest, rfl, _⟩ := h.begins
  exact List.cons_ne_nil c rest

theorem Shape.Fits.not_space {s : Shape} {c : Char} {rest after : List Char} {kind : TokenKind}
    (h : s.Fits (c :: rest) after kind) : isSpace c = false := by
  obtain ⟨_, _, htext, hspace, _⟩ := h.begins
  obtain ⟨rfl, -⟩ := List.cons.inj htext
  exact hspace

theorem width_le_four (c : Char) : Utf8.width c ≤ 4 := by
  unfold Utf8.width Utf8.encodeChar
  dsimp only
  split
  · simp
  · split
    · simp
    · split <;> simp

/-! ## Every text begins with a gap and a lexeme -/

/-- The longest run of characters with a property, and what comes after it. -/
theorem exists_run (p : Char → Bool) (cs : List Char) :
    ∃ run after, cs = run ++ after ∧ (∀ c ∈ run, p c = true) ∧
      ∀ c, after.head? = some c → p c = false := by
  refine ⟨cs.takeWhile p, cs.dropWhile p, List.takeWhile_append_dropWhile.symm, ?_, ?_⟩
  · exact fun c hc => List.mem_takeWhile_imp hc
  · intro c hc
    have hnot := List.head?_dropWhile_not p cs
    rw [hc] at hnot
    simpa using hnot

theorem exists_word {c : Char} (rest : List Char) (hc : isWordStart c = true) :
    ∃ text after, c :: rest = text ++ after ∧ Word text after (classify (Utf8.encode text)) := by
  obtain ⟨run, after, rfl, hrun, hstop⟩ := exists_run isWordPart rest
  refine ⟨c :: run, after, rfl, ⟨c, run, rfl, (isWordStart_iff c).mp hc, ?_⟩, ?_, rfl⟩
  · exact fun x hx => (isWordPart_iff x).mp (hrun x hx)
  · intro x hx hpart
    rw [← isWordPart_iff, hstop x hx] at hpart
    exact absurd hpart (by simp)

theorem exists_number {c : Char} (rest : List Char) (hc : isDigit c = true) :
    ∃ text after, c :: rest = text ++ after ∧ Number text after .num := by
  obtain ⟨run, after, rfl, hrun, hstop⟩ := exists_run Char.isDigit rest
  have hc' : c.isDigit = true := (isDigit_iff c).mp hc
  have hwhole : ∀ x ∈ c :: run, x.isDigit = true := by
    intro x hx
    rcases List.mem_cons.mp hx with rfl | hx
    · exact hc'
    · exact hrun x hx
  by_cases hpoint : ∃ d more, after = '.' :: d :: more ∧ d.isDigit = true
  · -- a point with a digit after it belongs to the number
    obtain ⟨d, more, rfl, hd⟩ := hpoint
    obtain ⟨fraction, after, rfl, hfraction, hstop'⟩ := exists_run Char.isDigit more
    refine ⟨c :: run ++ '.' :: d :: fraction, after, by simp, ⟨c :: run, by simp, hwhole, ?_⟩,
      hstop', fun hnone => absurd hnone (by simp), rfl⟩
    refine Or.inr ⟨d :: fraction, by simp, fun x hx => ?_, rfl⟩
    rcases List.mem_cons.mp hx with rfl | hx
    · exact hd
    · exact hfraction x hx
  · refine ⟨c :: run, after, rfl, ⟨c :: run, by simp, hwhole, Or.inl rfl⟩, hstop, ?_, rfl⟩
    intro _ d more hafter
    rw [Bool.eq_false_iff]
    exact fun hd => hpoint ⟨d, more, hafter, hd⟩

/-- **A character that is no white space and begins no comment begins a lexeme.** -/
theorem exists_lexeme {c : Char} {rest : List Char} (hspace : c ∉ spaces)
    (hcomment : ¬ (c = '/' ∧ rest.head? = some '/')) :
    ∃ (s : Shape) (text after : List Char) (kind : TokenKind),
      c :: rest = text ++ after ∧ s.Fits text after kind := by
  by_cases hword : isWordStart c = true
  · obtain ⟨text, after, hsplit, h⟩ := exists_word rest hword
    exact ⟨.word, text, after, _, hsplit, h⟩
  · by_cases hdigit : isDigit c = true
    · obtain ⟨text, after, hsplit, h⟩ := exists_number rest hdigit
      exact ⟨.number, text, after, .num, hsplit, h⟩
    · cases hmark : punctuation? c with
      | some k =>
          have hmem := (punctuation?_iff c k).mp hmark
          refine ⟨.mark, [c], rest, k, rfl, ⟨c, rfl, hmem⟩, fun hk hhead => ?_⟩
          exact hcomment ⟨(of_mem_marks hmem).2.2.2.mpr hk, hhead⟩
      | none =>
          rw [isWordStart_iff, not_or, Bool.not_eq_true] at hword
          rw [isDigit_iff, Bool.not_eq_true] at hdigit
          refine ⟨.stray, [c], rest, .invalid, rfl,
            ⟨c, rfl, hspace, hword.1, hdigit, hword.2, fun k hk => ?_⟩, ?_, rfl⟩
          · rw [(punctuation?_iff c k).mpr hk] at hmark
            exact absurd hmark (by simp)
          · have hpos := Utf8.width_pos c
            have hle := width_le_four c
            show 1 ≤ Utf8.width c + 0 ∧ Utf8.width c + 0 ≤ 4
            omega

/-- **Every text begins with a gap, and then ends or goes on with a lexeme.** -/
theorem exists_gap (cs : List Char) :
    ∃ gap after, cs = gap ++ after ∧ Gap gap after ∧
      (after = [] ∨ ∃ (s : Shape) (text rest : List Char) (kind : TokenKind),
        after = text ++ rest ∧ s.Fits text rest kind) := by
  -- each piece of the gap leaves a shorter text
  induction hn : cs.length using Nat.strongRecOn generalizing cs with
  | ind n ih =>
      cases cs with
      | nil => exact ⟨[], [], rfl, .nil, Or.inl rfl⟩
      | cons c rest =>
          by_cases hspace : c ∈ spaces
          · obtain ⟨gap, after, rfl, hgap, hrest⟩ := ih rest.length (by simp at hn; omega) rest rfl
            exact ⟨c :: gap, after, rfl, .space hspace hgap, hrest⟩
          · by_cases hcomment : c = '/' ∧ rest.head? = some '/'
            · obtain ⟨rfl, hhead⟩ := hcomment
              obtain ⟨tail, rfl⟩ := List.head?_eq_some_iff.mp hhead
              obtain ⟨body, more, rfl, hbody, hstop⟩ := exists_run (· ≠ '\n') tail
              obtain ⟨gap, after, rfl, hgap, hrest⟩ := ih more.length (by simp at hn; omega) more rfl
              refine ⟨'/' :: '/' :: (body ++ gap), after, by simp, ?_, hrest⟩
              refine .comment (fun hmem => ?_) (fun c hc => ?_) hgap
              · exact absurd (hbody _ hmem) (by simp)
              · simpa using hstop c hc
            · exact ⟨[], c :: rest, rfl, .nil, Or.inr (exists_lexeme hspace hcomment)⟩

end Scanner

end Reserved
