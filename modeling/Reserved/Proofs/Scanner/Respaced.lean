import Mathlib.Data.List.Basic
import Reserved.Proofs.Scanner.Lines
import Reserved.Proofs.Scanner.Partition

/-!
# Printed tokens are scanned as what they were

A lexeme depends on what comes after it only so far that it may not go on there, and no lexeme
goes on with a space. So it is a lexeme of the same kind when a space comes after it, or
nothing. The lexemes of a text may therefore be taken out of it and put in a row, a single space
between any two: the spaces are gaps, and what they part are the lexemes and kinds of the text.
-/

namespace Reserved

/-- The lexemes of a text in a row, a space between any two. The end mark is left out. -/
def respace (src : List Char) : List Char :=
  [' '].intercalate ((lex src).dropLast.filterMap fun t => t.lexeme? src)

/-- What a token says, wherever it stands. -/
def Token.reading (src : List Char) (t : Token) : TokenKind × Option (List Char) :=
  (t.kind, t.lexeme? src)

namespace Scanner

/-- The text ends here, or goes on with a space. -/
def Parted (rest : List Char) : Prop :=
  ∀ c, rest.head? = some c → c = ' '

/-- A lexeme and its kind, whatever it was followed by. -/
def Alone (p : List Char × TokenKind) : Prop :=
  ∃ s : Shape, ∀ rest, Parted rest → s.Fits p.1 rest p.2

/-- What the tokens of these lexemes say, and the end mark after them. -/
def readings (ps : List (List Char × TokenKind)) : List (TokenKind × Option (List Char)) :=
  ps.map (fun p => (p.2, some p.1)) ++ [(.eof, some [])]

/-- **No lexeme goes on with a space.** -/
theorem Shape.Fits.alone {s : Shape} {text after : List Char} {kind : TokenKind}
    (h : s.Fits text after kind) : Alone (text, kind) := by
  refine ⟨s, fun rest hrest => ?_⟩
  cases s with
  | word =>
      refine ⟨h.name, fun c hc => ?_, h.kind⟩
      rw [hrest c hc]
      decide
  | number =>
      refine ⟨h.numeral, fun c hc => ?_, fun _ d more hpoint => ?_, h.kind⟩
      · rw [hrest c hc]
        decide
      · exact absurd (hrest '.' (by rw [hpoint]; rfl)) (by decide)
  | mark => exact ⟨h.mark, fun _ hslash => absurd (hrest '/' hslash) (by decide)⟩
  | stray => exact h

/-! ## What tokens say -/

/-- A token that stands at its lexeme says it. -/
theorem map_reading_token {start : Nat} {done gap text after : List Char} {kind : TokenKind}
    {ts : List Token} {rest : List (TokenKind × Option (List Char))}
    (hdone : Utf8.size done = start)
    (hrest : ts.map (Token.reading (done ++ gap ++ text ++ after)) = rest) :
    (⟨kind, start + Utf8.size gap, Utf8.size text⟩ :: ts).map
      (Token.reading (done ++ (gap ++ (text ++ after)))) = (kind, some text) :: rest := by
  have hcovers : Token.Covers ⟨kind, start + Utf8.size gap, Utf8.size text⟩
      (done ++ (gap ++ (text ++ after))) (done ++ gap) text after :=
    ⟨by simp, by rw [Utf8.size_append, hdone], rfl⟩
  rw [List.map_cons, ← hrest, Token.reading, hcovers.lexeme?]
  simp

theorem reading_end {start : Nat} {done gap : List Char} (hdone : Utf8.size done = start) :
    Token.reading (done ++ gap) ⟨.eof, start + Utf8.size gap, 0⟩ = (.eof, some []) := by
  have hcovers : Token.Covers ⟨.eof, start + Utf8.size gap, 0⟩ (done ++ gap) (done ++ gap) [] [] :=
    ⟨by simp, by rw [Utf8.size_append, hdone], rfl⟩
  rw [Token.reading, hcovers.lexeme?]

/-- The tokens of a text say lexemes that can stand alone. -/
theorem Scans.readings {start : Nat} {cs : List Char} {ts : List Token} (h : Scans start cs ts) :
    ∃ ps, (∀ p ∈ ps, Alone p) ∧ ∀ done, Utf8.size done = start →
      ts.map (Token.reading (done ++ cs)) = Scanner.readings ps := by
  induction h with
  | done =>
      refine ⟨[], fun p hp => absurd hp List.not_mem_nil, fun done hdone => ?_⟩
      rw [List.map_singleton, reading_end hdone]
      rfl
  | @token start gap text after s kind ts _ hfits _ ih =>
      obtain ⟨ps, hps, hread⟩ := ih
      refine ⟨(text, kind) :: ps, List.forall_mem_cons.mpr ⟨hfits.alone, hps⟩, ?_⟩
      intro done hdone
      refine map_reading_token hdone (hread (done ++ gap ++ text) ?_)
      rw [Utf8.size_append, Utf8.size_append, hdone]

/-- **Lexemes with spaces between them are scanned as these lexemes.** -/
theorem exists_scans_spaced : ∀ ps : List (List Char × TokenKind), (∀ p ∈ ps, Alone p) →
    ∀ start, ∃ ts, Scans start ([' '].intercalate (ps.map Prod.fst)) ts ∧
      ∀ done, Utf8.size done = start →
        ts.map (Token.reading (done ++ [' '].intercalate (ps.map Prod.fst))) = readings ps
  | [], _, start => by
      refine ⟨_, .done .nil, fun done hdone => ?_⟩
      rw [List.map_singleton]
      exact congrArg (fun r => [r]) (reading_end hdone)
  | [(text, kind)], h, start => by
      obtain ⟨s, hs⟩ := h _ List.mem_cons_self
      have hfits : s.Fits text [] kind := hs [] fun c hc => absurd hc (by simp)
      have htext : [' '].intercalate ([(text, kind)].map Prod.fst) = [] ++ (text ++ []) := by simp
      rw [htext]
      refine ⟨_, .token .nil hfits (.done .nil), fun done hdone => ?_⟩
      refine map_reading_token hdone ?_
      rw [List.map_singleton]
      refine congrArg (fun r => [r]) (reading_end ?_)
      rw [Utf8.size_append, Utf8.size_append, hdone]
  | (text, kind) :: q :: rest, h, start => by
      obtain ⟨s, hs⟩ := h _ List.mem_cons_self
      obtain ⟨ts, hscans, hread⟩ := exists_scans_spaced (q :: rest)
        (fun p hp => h p (List.mem_cons_of_mem _ hp)) (start + Utf8.size text + Utf8.size [' '])
      have htext : [' '].intercalate (((text, kind) :: q :: rest).map Prod.fst)
          = [] ++ (text ++ (' ' :: [' '].intercalate ((q :: rest).map Prod.fst))) := by
        simp [List.intercalate_cons_cons]
      have hspace : Gap [' '] ([' '].intercalate ((q :: rest).map Prod.fst)) :=
        .space (by decide) .nil
      have hfits : s.Fits text (' ' :: [' '].intercalate ((q :: rest).map Prod.fst)) kind :=
        hs _ fun c hc => (Option.some.inj hc).symm
      rw [htext]
      refine ⟨_, .token .nil hfits (hscans.gap_append hspace), fun done hdone => ?_⟩
      have hrest := hread (done ++ text ++ [' ']) (by
        rw [Utf8.size_append, Utf8.size_append, hdone])
      rw [List.append_assoc, List.singleton_append, ← List.append_nil done] at hrest
      exact map_reading_token hdone hrest

end Scanner

theorem filterMap_lexeme_of_readings {src : List Char} {ts : List Token}
    {ps : List (List Char × TokenKind)}
    (h : ts.map (Token.reading src) = Scanner.readings ps) :
    ts.dropLast.filterMap (fun t => t.lexeme? src) = ps.map Prod.fst := by
  have hfront := congrArg List.dropLast h
  rw [Scanner.readings, List.dropLast_concat, ← List.map_dropLast] at hfront
  have hlexeme : ∀ ts : List Token, ts.filterMap (fun t => t.lexeme? src)
      = (ts.map (Token.reading src)).filterMap Prod.snd := fun ts => by
    rw [List.filterMap_map]
    rfl
  rw [hlexeme, hfront, List.filterMap_map]
  exact congrFun List.filterMap_eq_map ps

/-- **Printed tokens are scanned as what they were.** Every token of a text has a lexeme. Put in
a row, a single space between any two, the lexemes are scanned as the same lexemes again, each
of the same kind. -/
theorem lex_respace (src : List Char) :
    none ∉ lexemes src (lex src) ∧
      (lex (respace src)).map Token.kind = (lex src).map Token.kind ∧
      lexemes (respace src) (lex (respace src)) = lexemes src (lex src) := by
  obtain ⟨ps, hps, hread⟩ := (scans_lex src).readings
  have hsrc : (lex src).map (Token.reading src) = Scanner.readings ps := hread [] rfl
  have hrow : respace src = [' '].intercalate (ps.map Prod.fst) := by
    rw [respace, filterMap_lexeme_of_readings hsrc]
  obtain ⟨ts, hscans, hread'⟩ := Scanner.exists_scans_spaced ps hps 0
  rw [← hrow] at hscans hread'
  obtain rfl : lex (respace src) = ts := Scanner.scans_iff.mp hscans
  have hsame : (lex (respace src)).map (Token.reading (respace src))
      = (lex src).map (Token.reading src) := (hread' [] rfl).trans hsrc.symm
  refine ⟨fun hnone => ?_, ?_, ?_⟩
  · rw [lexemes_eq_map] at hnone
    obtain ⟨t, ht, htext⟩ := List.mem_map.mp hnone
    obtain ⟨before, text, after, hcovers⟩ := (scans_lex src).partitions.boundaries t ht
    rw [hcovers.lexeme?] at htext
    exact absurd htext (by simp)
  · have hkinds := congrArg (List.map Prod.fst) hsame
    rwa [List.map_map, List.map_map] at hkinds
  · have hlexemes := congrArg (List.map Prod.snd) hsame
    rw [List.map_map, List.map_map] at hlexemes
    rw [lexemes_eq_map, lexemes_eq_map]
    exact hlexemes

/-- Two points, and two slashes that are no comment as long as they are apart. -/
example : respace "1.5.2/ /".toList = "1.5 . 2 / /".toList := by decide

end Reserved
