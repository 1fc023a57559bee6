import Reserved.Proofs.Scanner.Scan

/-!
# Scanning line by line

No lexeme goes on over a line feed, and no comment does. A line feed is therefore as good as the
end of the text to whatever stands before it, and since it is white space itself, what comes
after it is scanned as if it came first. Only the positions differ.

Both halves are facts about the grammar: `Scans` is carried over to the longer text by one gap
and one lexeme at a time, and the scanner follows the grammar in either text.
-/

namespace Reserved

/-- The same token, `n` bytes further on. -/
def Token.shift (n : Nat) (t : Token) : Token :=
  { t with start := n + t.start }

namespace Scanner

/-! ## A line feed is as good as the end -/

/-- What a text with a line feed put behind it begins with. -/
theorem head?_append_feed {cs : List Char} (b : List Char) {c : Char}
    (h : (cs ++ '\n' :: b).head? = some c) : cs.head? = some c ∨ c = '\n' := by
  cases cs with
  | nil => exact Or.inr (Option.some.inj h).symm
  | cons d rest => exact Or.inl h

theorem Gap.append_feed {gap after : List Char} (h : Gap gap after) (b : List Char) :
    Gap gap (after ++ '\n' :: b) := by
  induction h with
  | nil => exact .nil
  | space hc _ ih => exact .space hc ih
  | comment hbody hstop _ ih =>
      refine .comment hbody (fun c hc => ?_) ih
      rw [← List.append_assoc] at hc
      rcases head?_append_feed b hc with hc | hc
      · exact hstop c hc
      · exact hc

/-- The longest match is the longest one still. -/
theorem Shape.Fits.append_feed {s : Shape} {text after : List Char} {kind : TokenKind}
    (h : s.Fits text after kind) (b : List Char) : s.Fits text (after ++ '\n' :: b) kind := by
  cases s with
  | word =>
      refine ⟨h.name, fun c hc => ?_, h.kind⟩
      rcases head?_append_feed b hc with hc | rfl
      · exact h.longest c hc
      · decide
  | number =>
      refine ⟨h.numeral, fun c hc => ?_, fun hpoint d rest hafter => ?_, h.kind⟩
      · rcases head?_append_feed b hc with hc | rfl
        · exact h.no_digit c hc
        · decide
      · -- a point at the very end has a line feed behind it now, which is no digit
        match after, hafter with
        | [], hafter => exact absurd hafter (by simp)
        | [p], hafter =>
            have hd : d = '\n' := by simpa using (List.cons.inj (List.cons.inj hafter).2).1.symm
            rw [hd]
            decide
        | p :: d' :: rest', hafter =>
            obtain ⟨rfl, hrest⟩ := List.cons.inj hafter
            obtain ⟨rfl, -⟩ := List.cons.inj hrest
            exact h.no_fraction hpoint d' rest' rfl
  | mark =>
      refine ⟨h.mark, fun hslash hhead => ?_⟩
      rcases head?_append_feed b hhead with hhead | hhead
      · exact h.no_comment hslash hhead
      · exact absurd hhead (by decide)
  | stray => exact h

/-! ## Gaps in a row, and texts further on -/

theorem Gap.append {gap gap' after : List Char} (h : Gap gap (gap' ++ after))
    (h' : Gap gap' after) : Gap (gap ++ gap') after := by
  generalize hrest : gap' ++ after = rest at h
  induction h with
  | nil => exact h'
  | space hc _ ih => exact .space hc (ih hrest)
  | @comment body gap _ hbody hstop _ ih =>
      subst hrest
      rw [← List.append_assoc] at hstop
      show Gap ('/' :: '/' :: (body ++ gap ++ gap')) after
      rw [List.append_assoc]
      exact .comment hbody hstop (ih rfl)

/-- A gap in front of a text is part of the first gap of the text. -/
theorem Scans.gap_append {start : Nat} {gap cs : List Char} {ts : List Token}
    (hgap : Gap gap cs) (h : Scans (start + Utf8.size gap) cs ts) :
    Scans start (gap ++ cs) ts := by
  cases h with
  | done hrest =>
      rw [← List.append_nil cs] at hgap
      rw [Nat.add_assoc, ← Utf8.size_append]
      exact .done (hgap.append hrest)
  | @token _ gap' text after s kind ts hrest hfits hscans =>
      rw [Nat.add_assoc start, ← Utf8.size_append] at hscans ⊢
      rw [← List.append_assoc]
      exact .token (hgap.append hrest) hfits hscans

theorem Scans.shift {start : Nat} {cs : List Char} {ts : List Token} (n : Nat)
    (h : Scans start cs ts) : Scans (n + start) cs (ts.map (Token.shift n)) := by
  induction h with
  | @done start gap hgap =>
      show Scans (n + start) gap [⟨.eof, n + (start + Utf8.size gap), 0⟩]
      rw [← Nat.add_assoc]
      exact .done hgap
  | token hgap hfits _ ih =>
      rw [← Nat.add_assoc, ← Nat.add_assoc] at ih
      have htoken := Scans.token hgap hfits ih
      rwa [Nat.add_assoc] at htoken

/-- **A text is scanned up to a line feed as if it ended there**, and from the line feed on as
if it began there. -/
theorem Scans.append_feed {start : Nat} {a b : List Char} {ts ts' : List Token}
    (h : Scans start a ts) (h' : Scans (start + Utf8.size a + 1) b ts') :
    ∃ front, ts = front ++ [⟨.eof, start + Utf8.size a, 0⟩] ∧
      Scans start (a ++ '\n' :: b) (front ++ ts') := by
  induction h with
  | @done start gap hgap =>
      -- the last gap runs into the line feed
      have hfeed : Gap ['\n'] b := .space (by decide) .nil
      have hrest : Scans (start + Utf8.size gap) ('\n' :: b) ts' := Scans.gap_append hfeed h'
      exact ⟨[], rfl, Scans.gap_append (hgap.append_feed b) hrest⟩
  | @token start gap text after s kind ts hgap hfits _ ih =>
      rw [Utf8.size_append, Utf8.size_append, ← Nat.add_assoc, ← Nat.add_assoc] at h' ⊢
      obtain ⟨front, rfl, hrest⟩ := ih h'
      refine ⟨⟨kind, start + Utf8.size gap, Utf8.size text⟩ :: front, rfl, ?_⟩
      have hgap' := hgap.append_feed b
      rw [List.append_assoc] at hgap'
      have htoken := Scans.token hgap' (hfits.append_feed b) hrest
      simpa only [List.append_assoc, List.cons_append] using htoken

end Scanner

/-! ## Line by line -/

/-- The tokens of lines that begin at byte `start`, each scanned alone. Every line but the last
is followed by a line feed, and its end mark is left out. -/
def lexLines : Nat → List (List Char) → List Token
  | _, [] => []
  | start, [last] => (lex last).map (Token.shift start)
  | start, line :: rest =>
    (lex line).dropLast.map (Token.shift start) ++ lexLines (start + (Utf8.size line + 1)) rest

theorem lex_append_feed (a b : List Char) :
    ∃ front, lex a = front ++ [⟨.eof, Utf8.size a, 0⟩] ∧
      lex (a ++ '\n' :: b) = front ++ (lex b).map (Token.shift (Utf8.size a + 1)) := by
  have hb := (scans_lex b).shift (Utf8.size a + 1)
  have ha := scans_lex a
  obtain ⟨front, hfront, hscans⟩ := ha.append_feed (b := b) (by simpa using hb)
  refine ⟨front, by simpa using hfront, Scanner.scans_iff.mp hscans⟩

theorem Token.shift_shift (n m : Nat) (ts : List Token) :
    (ts.map (Token.shift m)).map (Token.shift n) = ts.map (Token.shift (n + m)) := by
  rw [List.map_map]
  refine List.map_congr_left fun t _ => ?_
  simp [Token.shift, Nat.add_assoc]

theorem lexLines_splitWhere (src : List Char) :
    ∀ start, (lex src).map (Token.shift start) = lexLines start (splitWhere (· == '\n') src) := by
  induction src using piece_induction '\n' with
  | last line hline =>
      intro start
      rw [splitWhere_of_not_mem hline]
      rfl
  | next line rest hline ih =>
      intro start
      obtain ⟨front, hfront, hlex⟩ := lex_append_feed line rest
      rw [splitWhere_append (p := (· == '\n')) (by decide) rest hline]
      obtain ⟨next, more, hmore⟩ := List.exists_cons_of_ne_nil (splitWhere_ne_nil (· == '\n') rest)
      rw [hmore, lexLines, ← hmore, ← ih, hlex, hfront, List.map_append, Token.shift_shift,
        List.dropLast_concat]
      exact fun h => List.cons_ne_nil _ _ h

/-- **Scanning goes line by line.** A line feed between two texts parts their tokens: those of
the first without its end mark, and those of the second, moved on by the bytes before it. So the
tokens of a text are those of its lines, each scanned alone. -/
theorem lex_line_by_line :
    (∀ a b : List Char, ∃ front, lex a = front ++ [⟨.eof, Utf8.size a, 0⟩] ∧
      lex (a ++ '\n' :: b) = front ++ (lex b).map (Token.shift (Utf8.size a + 1))) ∧
    ∀ src : List Char, lex src = lexLines 0 (splitWhere (· == '\n') src) := by
  refine ⟨lex_append_feed, fun src => ?_⟩
  have hshift : (lex src).map (Token.shift 0) = lex src := by
    refine List.map_id'' (fun t => ?_) _
    simp [Token.shift]
  rw [← lexLines_splitWhere src 0, hshift]

/-- The line feed keeps the point from its digit, and ends the comment. -/
example : lex "1.\n5//x\n/".toList = [⟨.num, 0, 1⟩, ⟨.invalid, 1, 1⟩, ⟨.num, 3, 1⟩, ⟨.slash, 8, 1⟩,
    ⟨.eof, 9, 0⟩] := by decide

end Reserved
