import Reserved.Proofs.Scanner.Scan
import Reserved.Proofs.Scanner.Words

/-!
# Tokens partition the text

The tokens of a text stand in it one after the other, each between two characters, and what
they leave over is gaps. Nothing here asks which lexemes there are: that every byte is
accounted for follows from the grammar's taking turns between gaps and lexemes.

Positions are bytes from the beginning of the text, while a text is read from where the last
token ended. Each fact is therefore stated of a text `done ++ cs` of which `done` has been
read, and carried over one gap and one lexeme at a time.
-/

namespace Reserved

/-- The byte after a token. -/
def Token.stop (t : Token) : Nat := t.start + t.length

/-- A token stands at `text`, between `before` and `after`, so no end of it falls inside a
character. -/
structure Token.Covers (t : Token) (src before text after : List Char) : Prop where
  split : src = before ++ (text ++ after)
  start : Utf8.size before = t.start
  length : Utf8.size text = t.length

/-- The bytes from `lo` up to `hi` are all there is between two tokens, or between a token and
the beginning of the text at `start`. -/
structure Between (start : Nat) (ts : List Token) (lo hi : Nat) : Prop where
  begins : lo = start ∨ ∃ t ∈ ts, t.stop = lo
  ends : ∃ t ∈ ts, t.start = hi
  /-- No token reaches in between. -/
  clear : ∀ t ∈ ts, t.stop ≤ lo ∨ hi ≤ t.start

/-- The tokens divide a text among themselves and the gaps between them. -/
structure Partitions (src : List Char) (ts : List Token) : Prop where
  /-- The last token marks the end, and no other does; every other takes at least a byte. -/
  ends : ∃ front, ts = front ++ [⟨.eof, Utf8.size src, 0⟩] ∧
    ∀ t ∈ front, t.kind ≠ .eof ∧ 0 < t.length
  /-- The tokens are in increasing order and do not overlap. -/
  ordered : ts.Pairwise fun a b => a.start < b.start ∧ a.stop ≤ b.start
  inside : ∀ t ∈ ts, t.stop ≤ Utf8.size src
  /-- Both ends of a token fall between characters. -/
  boundaries : ∀ t ∈ ts, ∃ before text after, t.Covers src before text after
  /-- A byte outside all tokens is in a stretch between tokens, and this stretch is a gap. -/
  gaps : ∀ i < Utf8.size src, (∀ t ∈ ts, i < t.start ∨ t.stop ≤ i) →
    ∃ before gap after, src = before ++ (gap ++ after) ∧ Utf8.size before ≤ i ∧
      i < Utf8.size before + Utf8.size gap ∧
      Between 0 ts (Utf8.size before) (Utf8.size before + Utf8.size gap) ∧
      Scanner.Gap gap after

/-! ## The lexeme of a token -/

/-- The lexeme of a token that stands in the text is there to be read. -/
theorem Token.Covers.lexeme? {t : Token} {src before text after : List Char}
    (h : t.Covers src before text after) : t.lexeme? src = some text := by
  rw [Token.lexeme?, ← h.start, ← h.length, h.split, Utf8.slice?_append]

/-- Its bytes are those that the token counts. -/
theorem Token.Covers.bytes {t : Token} {src before text after : List Char}
    (h : t.Covers src before text after) :
    Utf8.encode text = ((Utf8.encode src).drop t.start).take t.length := by
  rw [h.split, Utf8.encode_append, Utf8.encode_append]
  rw [List.drop_left' ((Utf8.length_encode before).trans h.start)]
  rw [List.take_left' ((Utf8.length_encode text).trans h.length)]

theorem Token.Covers.stop {t : Token} {src before text after : List Char}
    (h : t.Covers src before text after) :
    t.stop + Utf8.size after = Utf8.size src := by
  rw [Token.stop, ← h.start, ← h.length, h.split, Utf8.size_append, Utf8.size_append]
  omega

namespace Scanner

/-- Only the end of the text has the kind of the end. -/
theorem Shape.Fits.kind_ne_eof {s : Shape} {text after : List Char} {kind : TokenKind}
    (h : s.Fits text after kind) : kind ≠ .eof := by
  cases s with
  | word => exact h.kind ▸ classify_ne_eof _
  | number =>
      rw [h.kind]
      decide
  | mark =>
      obtain ⟨c, _, hmark⟩ := h.mark
      have hall : ∀ p ∈ marks, p.2 ≠ .eof := by decide
      exact hall (c, kind) hmark
  | stray =>
      rw [h.kind]
      decide

theorem Shape.Fits.size_pos {s : Shape} {text after : List Char} {kind : TokenKind}
    (h : s.Fits text after kind) : 0 < Utf8.size text :=
  Nat.pos_of_ne_zero fun hzero => h.ne_nil (Utf8.size_eq_zero.mp hzero)

/-! ## One turn after the other -/

theorem Scans.ends {start : Nat} {cs : List Char} {ts : List Token} (h : Scans start cs ts) :
    ∃ front, ts = front ++ [⟨.eof, start + Utf8.size cs, 0⟩] ∧
      ∀ t ∈ front, t.kind ≠ .eof ∧ 0 < t.length := by
  induction h with
  | done => exact ⟨[], rfl, fun t ht => absurd ht (by simp)⟩
  | @token start gap text after s kind ts _ hfits _ ih =>
      obtain ⟨front, hts, hfront⟩ := ih
      refine ⟨⟨kind, start + Utf8.size gap, Utf8.size text⟩ :: front, ?_, ?_⟩
      · rw [hts, Utf8.size_append, Utf8.size_append, List.cons_append, Nat.add_assoc,
          Nat.add_assoc]
      · intro t ht
        rcases List.mem_cons.mp ht with rfl | ht
        · exact ⟨hfits.kind_ne_eof, hfits.size_pos⟩
        · exact hfront t ht

/-- No token begins before the text does. -/
theorem Scans.start_le {start : Nat} {cs : List Char} {ts : List Token} (h : Scans start cs ts) :
    ∀ t ∈ ts, start ≤ t.start := by
  induction h with
  | done =>
      intro t ht
      obtain rfl := List.mem_singleton.mp ht
      exact Nat.le_add_right _ _
  | token _ _ _ ih =>
      intro t ht
      rcases List.mem_cons.mp ht with rfl | ht
      · exact Nat.le_add_right _ _
      · have := ih t ht
        omega

theorem Scans.ordered {start : Nat} {cs : List Char} {ts : List Token} (h : Scans start cs ts) :
    ts.Pairwise fun a b => a.start < b.start ∧ a.stop ≤ b.start := by
  induction h with
  | done => exact List.pairwise_singleton _ _
  | @token start gap text after s kind ts _ hfits hrest ih =>
      refine List.Pairwise.cons (fun t ht => ?_) ih
      have hpos := hfits.size_pos
      have hle := hrest.start_le t ht
      constructor
      · show start + Utf8.size gap < t.start
        omega
      · exact hle

/-- **Every token stands in the text**, and all but the last at a lexeme. -/
theorem Scans.covers {start : Nat} {cs : List Char} {ts : List Token} (h : Scans start cs ts) :
    ∀ done, Utf8.size done = start → ∀ t ∈ ts,
      ∃ before text after, t.Covers (done ++ cs) before text after ∧
        (t.kind ≠ .eof → ∃ s : Shape, s.Fits text after t.kind) := by
  induction h with
  | @done start gap _ =>
      intro done hdone t ht
      obtain rfl := List.mem_singleton.mp ht
      refine ⟨done ++ gap, [], [], ⟨by simp, ?_, rfl⟩, fun hkind => absurd rfl hkind⟩
      rw [Utf8.size_append, hdone]
  | @token start gap text after s kind ts _ hfits _ ih =>
      intro done hdone t ht
      rcases List.mem_cons.mp ht with rfl | ht
      · refine ⟨done ++ gap, text, after, ⟨by simp, ?_, rfl⟩, fun _ => ⟨s, hfits⟩⟩
        rw [Utf8.size_append, hdone]
      · have hsplit : done ++ (gap ++ (text ++ after)) = done ++ gap ++ text ++ after := by simp
        rw [hsplit]
        refine ih (done ++ gap ++ text) ?_ t ht
        rw [Utf8.size_append, Utf8.size_append, hdone]

/-- **What no token covers is a gap.** -/
theorem Scans.gaps {start : Nat} {cs : List Char} {ts : List Token} (h : Scans start cs ts) :
    ∀ done, Utf8.size done = start → ∀ i, start ≤ i → i < start + Utf8.size cs →
      (∀ t ∈ ts, i < t.start ∨ t.stop ≤ i) →
      ∃ before gap after, done ++ cs = before ++ (gap ++ after) ∧ start ≤ Utf8.size before ∧
        Utf8.size before ≤ i ∧ i < Utf8.size before + Utf8.size gap ∧
        Between start ts (Utf8.size before) (Utf8.size before + Utf8.size gap) ∧
        Gap gap after := by
  induction h with
  | @done start gap hgap =>
      intro done hdone i hlow hhigh _
      refine ⟨done, gap, [], by simp, by omega, by omega, by omega, ⟨Or.inl hdone, ?_, ?_⟩, hgap⟩
      · exact ⟨_, List.mem_singleton_self _, by rw [hdone]⟩
      · intro t ht
        obtain rfl := List.mem_singleton.mp ht
        rw [hdone]
        exact Or.inr (Nat.le_refl _)
  | @token start gap text after s kind ts hgap hfits hrest ih =>
      intro done hdone i hlow hhigh houtside
      rw [Utf8.size_append, Utf8.size_append] at hhigh
      rcases Nat.lt_or_ge i (start + Utf8.size gap) with hin | hout
      · -- the byte is in the gap at hand
        refine ⟨done, gap, text ++ after, rfl, by omega, by omega, by omega,
          ⟨Or.inl hdone, ?_, fun t ht => Or.inr ?_⟩, hgap⟩
        · exact ⟨_, List.mem_cons_self, by rw [hdone]⟩
        · rcases List.mem_cons.mp ht with rfl | ht
          · rw [hdone]
          · have := hrest.start_le t ht
            omega
      · -- it is not in the lexeme, so it comes after it
        have hafter : start + Utf8.size gap + Utf8.size text ≤ i := by
          rcases houtside _ List.mem_cons_self with hlt | hstop
          · have hlt' : i < start + Utf8.size gap := hlt
            omega
          · exact hstop
        have hdone' : Utf8.size (done ++ gap ++ text)
            = start + Utf8.size gap + Utf8.size text := by
          rw [Utf8.size_append, Utf8.size_append, hdone]
        obtain ⟨before, gap', after', hsplit, hle, hlo, hhi, hbetween, hgap'⟩ :=
          ih (done ++ gap ++ text) hdone' i hafter (by omega)
            fun t ht => houtside t (List.mem_cons_of_mem _ ht)
        refine ⟨before, gap', after', ?_, by omega, hlo, hhi, ⟨?_, ?_, ?_⟩, hgap'⟩
        · rw [← hsplit]
          simp
        · -- what begins at the end of the lexeme begins where its token ends
          rcases hbetween.begins with hbegin | ⟨t, ht, hstop⟩
          · exact Or.inr ⟨_, List.mem_cons_self, hbegin.symm⟩
          · exact Or.inr ⟨t, List.mem_cons_of_mem _ ht, hstop⟩
        · obtain ⟨t, ht, hend⟩ := hbetween.ends
          exact ⟨t, List.mem_cons_of_mem _ ht, hend⟩
        · intro t ht
          rcases List.mem_cons.mp ht with rfl | ht
          · exact Or.inl hle
          · exact hbetween.clear t ht

theorem Scans.partitions {src : List Char} {ts : List Token} (h : Scans 0 src ts) :
    Partitions src ts := by
  have hcovers : ∀ t ∈ ts, ∃ before text after, t.Covers src before text after := by
    intro t ht
    obtain ⟨before, text, after, hcovers, _⟩ := h.covers [] rfl t ht
    exact ⟨before, text, after, hcovers⟩
  refine ⟨?_, h.ordered, fun t ht => ?_, hcovers, fun i hi houtside => ?_⟩
  · obtain ⟨front, hts, hfront⟩ := h.ends
    rw [Nat.zero_add] at hts
    exact ⟨front, hts, hfront⟩
  · obtain ⟨before, text, after, hcover⟩ := hcovers t ht
    have := hcover.stop
    omega
  · obtain ⟨before, gap, after, hsplit, _, hrest⟩ :=
      h.gaps [] rfl i (Nat.zero_le i) (by omega) houtside
    exact ⟨before, gap, after, hsplit, hrest⟩

end Scanner

/-- **The tokens partition the text.** The end mark comes last, at the end of the text, and
every other token takes at least a byte. The tokens are in order, do not overlap and end where
characters do, so each has a lexeme, whose bytes are the ones it counts. What stands between
two of them is white space and comments. -/
theorem lex_partitions_text (src : List Char) :
    Partitions src (lex src) ∧
      ∀ t ∈ lex src, ∃ text, t.lexeme? src = some text ∧
        Utf8.encode text = ((Utf8.encode src).drop t.start).take t.length := by
  have hparts := (scans_lex src).partitions
  refine ⟨hparts, fun t ht => ?_⟩
  obtain ⟨before, text, after, hcovers⟩ := hparts.boundaries t ht
  exact ⟨text, hcovers.lexeme?, hcovers.bytes⟩

end Reserved
