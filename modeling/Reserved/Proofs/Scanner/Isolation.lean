import Mathlib.Data.List.Infix
import Reserved.Proofs.Scanner.Keywords
import Reserved.Proofs.Spec.Spelling

/-!
# What an identifier is to the scanner

Keyword files and the scanner each have a test of their own for identifiers. They are the same:
a text is an identifier if the scanner finds one token in it, of the kind of a word, and nothing
beside it. A keyword is therefore something that the scanner can find.

In a longer text it is found wherever it stands apart from other words and outside of comments.
The scanner has not come to its first character by chance. That character is in a lexeme or in
a gap. A lexeme with a letter in it is a word, and this word can begin no earlier than where the
text before it ends. A gap has a letter only in a comment, and a comment is open until the next
line feed.
-/

namespace Reserved

open KeywordSpec (IsName isWordStart_iff isWordPart_iff isIdentifier_iff)

/-- The kinds of words: those of the keywords, and the one that all other names have. -/
def wordKinds : List TokenKind :=
  .ident :: keywordKinds

/-- Whoever goes on after this text is in a comment: since its slashes no line has ended. -/
def CommentOpen (before : List Char) : Prop :=
  ∃ front body, before = front ++ '/' :: '/' :: body ∧ '\n' ∉ body

/-- A word between these texts touches no other letter, digit or underscore. -/
structure Apart (before after : List Char) : Prop where
  before : ∀ c, before.getLast? = some c → ¬ (c.isAlphanum = true ∨ c = '_')
  after : ∀ c, after.head? = some c → ¬ (c.isAlphanum = true ∨ c = '_')

theorem CommentOpen.prepend {m : List Char} (h : CommentOpen m) (front : List Char) :
    CommentOpen (front ++ m) := by
  obtain ⟨front', body, rfl, hbody⟩ := h
  exact ⟨front ++ front', body, by simp, hbody⟩

/-- Read from its end, the last line of the text comes to two slashes. -/
theorem commentOpen_iff (before : List Char) :
    CommentOpen before ↔ ['/', '/'] <:+: before.reverse.takeWhile (· ≠ '\n') := by
  constructor
  · rintro ⟨front, body, rfl, hbody⟩
    have hrun : ∀ c ∈ body.reverse ++ ['/', '/'], (c ≠ '\n' : Bool) = true := by
      intro c hc
      rw [decide_eq_true_eq]
      rintro rfl
      rcases List.mem_append.mp hc with hc | hc
      · exact hbody (List.mem_reverse.mp hc)
      · exact absurd hc (by decide)
    have hback : (front ++ '/' :: '/' :: body).reverse
        = body.reverse ++ ['/', '/'] ++ front.reverse := by simp
    rw [hback, List.takeWhile_append_of_pos hrun]
    exact ⟨body.reverse, _, rfl⟩
  · rintro ⟨back, rest, h⟩
    have hwhole := List.takeWhile_append_dropWhile (p := (· ≠ '\n')) (l := before.reverse)
    rw [← h] at hwhole
    generalize before.reverse.dropWhile (· ≠ '\n') = tail at hwhole
    refine ⟨tail.reverse ++ rest.reverse, back.reverse, ?_, ?_⟩
    · rw [← List.reverse_inj, ← hwhole]
      simp
    · intro hfeed
      have hmem : '\n' ∈ before.reverse.takeWhile (· ≠ '\n') := by
        rw [← h]
        exact List.mem_append_left _ (List.mem_append_left _ (List.mem_reverse.mp hfeed))
      exact absurd (List.mem_takeWhile_imp hmem) (by simp)

instance (before : List Char) : Decidable (CommentOpen before) :=
  decidable_of_iff _ (commentOpen_iff before).symm

/-! ## One token and nothing beside it -/

theorem classify_mem_wordKinds (word : List UInt8) : classify word ∈ wordKinds := by
  have hall : ∀ k ∈ TokenKind.ident :: keywords.slots.map Prod.snd, k ∈ wordKinds := by decide
  exact hall _ (classify_mem word)

namespace Scanner

/-- Only names are of the kinds of words. -/
theorem Shape.Fits.name_of_kind {s : Shape} {text after : List Char} {kind : TokenKind}
    (h : s.Fits text after kind) (hkind : kind ∈ wordKinds) : IsName text := by
  cases s with
  | word => exact h.name
  | number =>
      rw [h.kind] at hkind
      exact absurd hkind (by decide)
  | mark =>
      obtain ⟨c, -, hmark⟩ := h.mark
      have hall : ∀ p ∈ marks, p.2 ∉ wordKinds := by decide
      exact absurd hkind (hall (c, kind) hmark)
  | stray =>
      rw [h.kind] at hkind
      exact absurd hkind (by decide)

end Scanner

theorem lex_of_name {text : List Char} (h : IsName text) : lex text
    = [⟨classify (Utf8.encode text), 0, Utf8.size text⟩, ⟨.eof, Utf8.size text, 0⟩] := by
  have hword : Scanner.Shape.word.Fits text [] (classify (Utf8.encode text)) :=
    ⟨h, fun c hc => absurd hc (by simp), rfl⟩
  have hscans : Scanner.Scans 0 _ _ := .token .nil hword (.done .nil)
  simp only [List.nil_append, List.append_nil, Utf8.size, Nat.zero_add, Nat.add_zero] at hscans
  exact Scanner.scans_iff.mp hscans

theorem name_of_lex {text : List Char} {k : TokenKind} {rest : List Token} (hk : k ∈ wordKinds)
    (h : lex text = ⟨k, 0, Utf8.size text⟩ :: rest) : IsName text := by
  have hmem : ⟨k, 0, Utf8.size text⟩ ∈ lex text := h ▸ List.mem_cons_self
  have hkind : k ≠ .eof := by
    rintro rfl
    exact absurd hk (by decide)
  obtain ⟨before, lexeme, after, hcovers, s, hfits, -⟩ :=
    (scans_lex text).longestMatches _ hmem hkind
  -- the token takes all bytes, so it leaves nothing before it and nothing after it
  obtain rfl : before = [] := Utf8.size_eq_zero.mp hcovers.start
  have hsplit : lexeme ++ after = text ++ [] := by simpa using hcovers.split.symm
  obtain ⟨rfl, -⟩ := Utf8.append_inj_of_size hsplit hcovers.length
  exact hfits.name_of_kind hk

/-- **An identifier is what the scanner takes for a word as a whole.** -/
theorem isIdentifier_iff_lex (text : List Char) : isIdentifier text = true ↔
    ∃ k ∈ wordKinds, lex text = [⟨k, 0, Utf8.size text⟩, ⟨.eof, Utf8.size text, 0⟩] := by
  rw [isIdentifier_iff]
  constructor
  · exact fun h => ⟨_, classify_mem_wordKinds _, lex_of_name h⟩
  · rintro ⟨k, hk, h⟩
    exact name_of_lex hk h

/-! ## The characters of lexemes and gaps -/

namespace Scanner

theorem IsNumeral.digit_or_point {text : List Char} (h : IsNumeral text) :
    ∀ c ∈ text, c.isDigit = true ∨ c = '.' := by
  obtain ⟨whole, -, hwhole, rfl | ⟨fraction, -, hfraction, rfl⟩⟩ := h
  · exact fun c hc => Or.inl (hwhole c hc)
  · intro c hc
    rcases List.mem_append.mp hc with hc | hc
    · exact Or.inl (hwhole c hc)
    · rcases List.mem_cons.mp hc with hc | hc
      · exact Or.inr hc
      · exact Or.inl (hfraction c hc)

/-- A lexeme with a letter or an underscore in it is a word. -/
theorem Shape.Fits.eq_word {s : Shape} {text after : List Char} {kind : TokenKind}
    (h : s.Fits text after kind) {c : Char} (hc : c ∈ text) (hstart : isWordStart c = true) :
    s = .word := by
  cases s with
  | word => rfl
  | number =>
      rcases IsNumeral.digit_or_point h.numeral c hc with hdigit | rfl
      · rw [isWordStart_of_isDigit ((isDigit_iff c).mpr hdigit)] at hstart
        exact absurd hstart (by simp)
      · exact absurd hstart (by decide)
  | mark =>
      obtain ⟨c', rfl, hmark⟩ := h.mark
      obtain rfl := List.mem_singleton.mp hc
      rw [(of_mem_marks hmark).2.1] at hstart
      exact absurd hstart (by simp)
  | stray =>
      obtain ⟨c', rfl, -, hword, -⟩ := Stray.begins h
      obtain rfl := List.mem_singleton.mp hc
      rw [hword] at hstart
      exact absurd hstart (by simp)

/-- A lexeme with a slash in it is this slash, and no comment begins with it. -/
theorem Shape.Fits.of_slash {s : Shape} {text after : List Char} {kind : TokenKind}
    (h : s.Fits text after kind) (hc : '/' ∈ text) :
    text = ['/'] ∧ after.head? ≠ some '/' := by
  cases s with
  | word => exact absurd (h.name.isWordPart '/' hc) (by decide)
  | number => exact absurd (IsNumeral.digit_or_point h.numeral '/' hc) (by decide)
  | mark =>
      obtain ⟨c, rfl, hmark⟩ := h.mark
      obtain rfl := List.mem_singleton.mp hc
      exact ⟨rfl, h.no_comment ((of_mem_marks hmark).2.2.2.mp rfl)⟩
  | stray =>
      obtain ⟨c, rfl, -, -, -, -, hnone⟩ := h.stray
      obtain rfl := List.mem_singleton.mp hc
      exact absurd (by decide) (hnone .slash)

/-- **A gap has a letter only in a comment.** -/
theorem Gap.commentOpen {gap after : List Char} (h : Gap gap after) :
    ∀ {m rest : List Char} {c : Char}, gap = m ++ c :: rest → c ∉ spaces → c ≠ '/' →
      CommentOpen m := by
  induction h with
  | nil => exact fun hsplit => absurd hsplit (by simp)
  | @space d gap after hd _ ih =>
      intro m rest c hsplit hspace hslash
      cases m with
      | nil =>
          obtain ⟨rfl, -⟩ := List.cons.inj hsplit
          exact absurd hd hspace
      | cons d' m =>
          obtain ⟨rfl, hgap⟩ := List.cons.inj hsplit
          exact (ih hgap hspace hslash).prepend [d]
  | @comment body gap after hbody _ _ ih =>
      intro m rest c hsplit hspace hslash
      match m, hsplit with
      | [], hsplit => exact absurd (List.cons.inj hsplit).1.symm hslash
      | [_], hsplit => exact absurd (List.cons.inj (List.cons.inj hsplit).2).1.symm hslash
      | a :: b :: m, hsplit =>
          obtain ⟨rfl, hsecond⟩ := List.cons.inj hsplit
          obtain ⟨rfl, hbodies⟩ := List.cons.inj hsecond
          rcases List.append_eq_append_iff.mp hbodies with ⟨m', rfl, hrest⟩ | ⟨more, rfl, -⟩
          · exact (ih hrest hspace hslash).prepend ('/' :: '/' :: body)
          · -- the comment has not come to its end
            exact ⟨[], m, rfl, fun hmem => hbody (List.mem_append_left _ hmem)⟩

/-- What a line feed ends, or the text does, comes after all that has no line feed in it. -/
theorem exists_of_feed_next {r after u v : List Char}
    (hstop : ∀ c, after.head? = some c → c = '\n') (hu : '\n' ∉ u) (h : r ++ after = u ++ v) :
    ∃ w, r = u ++ w := by
  rcases List.append_eq_append_iff.mp h with ⟨w, rfl, hafter⟩ | ⟨w, rfl, -⟩
  · cases w with
    | nil => exact ⟨[], by simp⟩
    | cons c w =>
        rw [hafter] at hstop
        obtain rfl := hstop c rfl
        exact absurd (List.mem_append_right r List.mem_cons_self) hu
  · exact ⟨w, rfl⟩

/-- **A gap that has a slash in it goes on to the end of the line.** -/
theorem Gap.runs_on {gap after : List Char} (h : Gap gap after) :
    ∀ {m rest u v : List Char}, gap = m ++ '/' :: rest → '\n' ∉ u → rest ++ after = u ++ v →
      ∃ w, rest = u ++ w := by
  induction h with
  | nil => exact fun hsplit => absurd hsplit (by simp)
  | @space d gap after hd _ ih =>
      intro m rest u v hsplit hu hrest
      cases m with
      | nil =>
          obtain ⟨rfl, -⟩ := List.cons.inj hsplit
          exact absurd hd (by decide)
      | cons d' m => exact ih (List.cons.inj hsplit).2 hu hrest
  | @comment body gap after hbody hstop _ ih =>
      intro m rest u v hsplit hu hrest
      -- from a place in the comment its end is the end of the line
      have hinside : ∀ r, rest = r ++ gap → ∃ w, rest = u ++ w := by
        rintro r rfl
        rw [List.append_assoc] at hrest
        obtain ⟨w, rfl⟩ := exists_of_feed_next hstop hu hrest
        exact ⟨w ++ gap, by simp⟩
      match m, hsplit with
      | [], hsplit => exact hinside ('/' :: body) (List.cons.inj hsplit).2.symm
      | [_], hsplit => exact hinside body (List.cons.inj (List.cons.inj hsplit).2).2.symm
      | a :: b :: m, hsplit =>
          have hbodies := (List.cons.inj (List.cons.inj hsplit).2).2
          rcases List.append_eq_append_iff.mp hbodies with ⟨m', -, hgap⟩ | ⟨more, -, hmore⟩
          · exact ih hgap hu hrest
          · cases more with
            | nil => exact ih (m := []) hmore.symm hu hrest
            | cons d more => exact hinside more (List.cons.inj hmore).2

end Scanner

/-! ## Where the scanner finds a word -/

/-- A stretch of a text that holds a place in it is cut there. -/
theorem exists_cut_at {front x back before rest : List Char} {c : Char}
    (h : front ++ (x ++ back) = before ++ c :: rest) (hlow : Utf8.size front ≤ Utf8.size before)
    (hhigh : Utf8.size before < Utf8.size front + Utf8.size x) :
    ∃ m y, before = front ++ m ∧ x = m ++ c :: y ∧ rest = y ++ back := by
  obtain ⟨m, rfl, hm⟩ := Utf8.exists_between h hlow
  rw [Utf8.size_append] at hhigh
  obtain ⟨y, rfl, hy⟩ := Utf8.exists_between hm.symm (by omega)
  cases y with
  | nil =>
      rw [List.append_nil] at hhigh
      omega
  | cons d y =>
      obtain ⟨rfl, rfl⟩ := List.cons.inj hy
      exact ⟨m, y, rfl, rfl, rfl⟩

/-- **Every character of a text is in a lexeme or in a gap**, and what is in a gap is in no
token. -/
theorem exists_around {src before rest : List Char} {c : Char} (hsrc : src = before ++ c :: rest) :
    (∃ t ∈ lex src, ∃ front m text after, before = front ++ m ∧ rest = text ++ after ∧
      t.Covers src front (m ++ c :: text) after ∧
      ∃ s : Scanner.Shape, s.Fits (m ++ c :: text) after t.kind) ∨
    ∃ front m gap after, before = front ++ m ∧ rest = gap ++ after ∧
      Scanner.Gap (m ++ c :: gap) after ∧
      ∀ t ∈ lex src, t.stop ≤ Utf8.size front ∨
        Utf8.size front + Utf8.size (m ++ c :: gap) ≤ t.start := by
  have hparts := (scans_lex src).partitions
  by_cases htoken : ∃ t ∈ lex src, t.start ≤ Utf8.size before ∧ Utf8.size before < t.stop
  · obtain ⟨t, ht, hlow, hhigh⟩ := htoken
    obtain ⟨front, text, after, hcovers, hfits⟩ := (scans_lex src).covers [] rfl t ht
    rw [List.nil_append] at hcovers
    have hkind : t.kind ≠ .eof := by
      intro hkind
      obtain ⟨tokens, hts, htokens⟩ := hparts.ends
      rcases List.mem_append.mp (hts ▸ ht) with hmem | hmem
      · exact (htokens t hmem).1 hkind
      · rw [List.mem_singleton.mp hmem, Token.stop] at hhigh
        rw [List.mem_singleton.mp hmem] at hlow
        dsimp only at hhigh hlow
        omega
    obtain ⟨m, y, rfl, rfl, rfl⟩ := exists_cut_at (hcovers.split.symm.trans hsrc)
      (by rw [hcovers.start]; exact hlow)
      (by rw [hcovers.start, hcovers.length]; exact hhigh)
    exact Or.inl ⟨t, ht, front, m, y, after, rfl, rfl, hcovers, hfits hkind⟩
  · have houtside : ∀ t ∈ lex src, Utf8.size before < t.start ∨ t.stop ≤ Utf8.size before := by
      intro t ht
      by_cases hlow : t.start ≤ Utf8.size before
      · exact Or.inr (Nat.le_of_not_lt fun hhigh => htoken ⟨t, ht, hlow, hhigh⟩)
      · exact Or.inl (Nat.lt_of_not_le hlow)
    have hin : Utf8.size before < Utf8.size src := by
      have hpos := Utf8.width_pos c
      rw [hsrc, Utf8.size_append, Utf8.size]
      omega
    obtain ⟨front, gap, after, hsplit, hlow, hhigh, hbetween, hgap⟩ := hparts.gaps _ hin houtside
    obtain ⟨m, y, rfl, rfl, rfl⟩ := exists_cut_at (hsplit.symm.trans hsrc) hlow hhigh
    exact Or.inr ⟨front, m, y, after, rfl, rfl, hgap, hbetween.clear⟩

theorem Apart.not_wordPart {before after m : List Char} (h : Apart before after) (front : List Char)
    (hbefore : before = front ++ m) (hm : ∀ c ∈ m, isWordPart c = true) : m = [] := by
  by_contra hne
  have hlast : before.getLast? = some (m.getLast hne) := by
    rw [hbefore, List.getLast?_append, List.getLast?_eq_some_getLast hne, Option.some_or]
  exact h.before _ hlast ((isWordPart_iff _).mp (hm _ (List.getLast_mem hne)))

/-- **A word that stands apart is a lexeme wherever no comment is open.** -/
theorem mem_lex_of_name {before text after : List Char} (h : IsName text)
    (hapart : Apart before after) (hopen : ¬ CommentOpen before) :
    ⟨classify (Utf8.encode text), Utf8.size before, Utf8.size text⟩
      ∈ lex (before ++ (text ++ after)) := by
  have hparts := h.isWordPart
  obtain ⟨c, rest, rfl, hc, -⟩ := h
  have hstart : isWordStart c = true := (isWordStart_iff c).mpr hc
  have hstop : ∀ x, after.head? = some x → isWordPart x = false := by
    intro x hx
    rw [Bool.eq_false_iff, ne_eq, isWordPart_iff]
    exact hapart.after x hx
  have hsrc : before ++ (c :: rest ++ after) = before ++ c :: (rest ++ after) := rfl
  rcases exists_around hsrc with
    ⟨t, ht, front, m, text, after', hbefore, hrest, hcovers, s, hfits⟩ |
    ⟨front, m, gap, after', hbefore, -, hgap, -⟩
  · obtain rfl := hfits.eq_word (List.mem_append_right m List.mem_cons_self) hstart
    have hmember := (show Scanner.Word _ _ _ from hfits).name.isWordPart
    -- the word begins here, or it would go on with what stands before
    obtain rfl : m = [] := hapart.not_wordPart front hbefore fun x hx =>
      hmember x (List.mem_append_left _ hx)
    obtain rfl : before = front := by rw [hbefore, List.append_nil]
    rw [List.nil_append] at hcovers hfits hmember
    have hword : Scanner.Word (c :: text) after' t.kind := hfits
    have hstop' : ∀ x, after'.head? = some x → isWordPart x = false := by
      intro x hx
      rw [Bool.eq_false_iff, ne_eq, isWordPart_iff]
      exact hword.longest x hx
    -- and both end where the run of letters does
    have hsame : c :: rest = c :: text := by
      have hrun := (takeWhile_run hparts hstop).1
      have hrun' := (takeWhile_run hmember hstop').1
      have hcs : c :: rest ++ after = c :: text ++ after' := congrArg (List.cons c) hrest
      rw [← hrun, hcs, hrun']
    have htoken : ⟨classify (Utf8.encode (c :: text)), Utf8.size before, Utf8.size (c :: text)⟩
        = t := by
      rw [hcovers.start, hcovers.length, ← hword.kind]
    rw [hsame] at ht ⊢
    rw [htoken]
    exact ht
  · have hslash : c ≠ '/' := by
      rintro rfl
      exact absurd hstart (by decide)
    have hspace : c ∉ Scanner.spaces := by
      intro hmem
      rw [(Scanner.of_mem_spaces hmem).2.1] at hstart
      exact absurd hstart (by simp)
    rw [hbefore] at hopen
    exact absurd ((hgap.commentOpen rfl hspace hslash).prepend front) hopen

/-- In a comment there is no token. -/
theorem not_mem_lex_of_commentOpen {before text after : List Char} (h : CommentOpen before)
    (htext : IsName text) (k : TokenKind) :
    ⟨k, Utf8.size before, Utf8.size text⟩ ∉ lex (before ++ (text ++ after)) := by
  intro hmem
  obtain ⟨front, body, rfl, hbody⟩ := h
  have hpos : 0 < Utf8.size text := by
    refine Nat.pos_of_ne_zero fun hzero => ?_
    obtain ⟨c, rest, hnil, -⟩ := htext
    rw [Utf8.size_eq_zero.mp hzero] at hnil
    exact absurd hnil (by simp)
  have hsrc : front ++ '/' :: '/' :: body ++ (text ++ after)
      = front ++ '/' :: ('/' :: (body ++ text) ++ after) := by simp
  rcases exists_around hsrc with
    ⟨t, -, front', m, text', after', -, hrest, -, s, hfits⟩ |
    ⟨front', m, gap, after', rfl, hrest, hgap, hclear⟩
  · -- a lexeme that has the first slash would have to end before the second
    obtain ⟨hslash, hnext⟩ := hfits.of_slash (List.mem_append_right m List.mem_cons_self)
    have hnil : text' = [] := by
      have hlength := congrArg List.length hslash
      rw [List.length_append, List.length_cons, List.length_singleton] at hlength
      exact List.eq_nil_of_length_eq_zero (by omega)
    rw [hnil, List.nil_append] at hrest
    rw [← hrest] at hnext
    exact hnext rfl
  · have hline : '\n' ∉ '/' :: (body ++ text) := by
      intro hfeed
      rcases List.mem_cons.mp hfeed with hfeed | hfeed
      · exact absurd hfeed (by decide)
      · rcases List.mem_append.mp hfeed with hfeed | hfeed
        · exact hbody hfeed
        · exact absurd (htext.isWordPart _ hfeed) (by decide)
    obtain ⟨w, rfl⟩ := hgap.runs_on rfl hline hrest.symm
    -- so the gap that has the slashes has the word too
    have hin := hclear _ hmem
    simp only [Token.stop, Utf8.size_append, Utf8.size] at hin
    omega

/-- **The scanner finds the keywords of every keyword file.** What a keyword file takes for an
identifier is what the scanner takes for a word as a whole. And a keyword of a file is found
between any two texts that it stands apart from, as a token of its own, just where no comment
is open. -/
theorem keywords_isolated :
    (∀ text, isIdentifier text = true ↔
      ∃ k ∈ wordKinds, lex text = [⟨k, 0, Utf8.size text⟩, ⟨.eof, Utf8.size text, 0⟩]) ∧
    ∀ (file : List Char) (spec : KeywordSpec), KeywordSpec.parse file = .ok spec →
      ∀ e ∈ spec.entries, isIdentifier e.text.toList = true ∧ ∀ before after, Apart before after →
        ((∃ k ∈ wordKinds, ⟨k, Utf8.size before, Utf8.size e.text.toList⟩
          ∈ lex (before ++ (e.text.toList ++ after))) ↔ ¬ CommentOpen before) := by
  refine ⟨isIdentifier_iff_lex, ?_⟩
  intro file spec hspec e he
  obtain ⟨_, _, _, _, hname, -⟩ := ((KeywordSpec.describes_of_parse hspec).2.entries e).mp he
  refine ⟨isIdentifier_iff.mpr hname, fun before after hapart => ?_⟩
  constructor
  · rintro ⟨k, -, hmem⟩ hopen
    exact not_mem_lex_of_commentOpen hopen hname k hmem
  · exact fun hopen => ⟨_, classify_mem_wordKinds _, mem_lex_of_name hname hapart hopen⟩

/-- Neither a comment that has ended nor the slashes around it keep the scanner from a keyword. -/
theorem keywords_isolated_between_slashes :
    ∃ spec, KeywordSpec.parse "_if,If".toList = .ok spec ∧ ⟨"_if", .ifWord, 1⟩ ∈ spec.entries ∧
      ∃ k ∈ wordKinds, ⟨k, 6, 3⟩ ∈ lex "//é\n/_if/2".toList := by
  have hparse : KeywordSpec.parse "_if,If".toList = .ok ⟨[⟨"_if", .ifWord, 1⟩]⟩ := by
    decide +kernel
  have hapart : Apart "//é\n/".toList "/2".toList := by
    refine ⟨fun c hc => ?_, fun c hc => ?_⟩
    · obtain rfl : '/' = c := Option.some.inj hc
      decide
    · obtain rfl : '/' = c := Option.some.inj hc
      decide
  have hopen : ¬ CommentOpen "//é\n/".toList := by decide
  exact ⟨_, hparse, List.mem_cons_self,
    ((keywords_isolated.2 _ _ hparse _ List.mem_cons_self).2 _ _ hapart).mpr hopen⟩

end Reserved
