import Reserved.Proofs.Scanner.Partition

/-!
# The tokens are the longest matches, and no others are

Every token but the end mark has exactly one shape, and the shape forbids the lexeme to go on.
Conversely these conditions leave no choice. Where the text has been read up to some byte, the
next token either begins there or leaves a gap, and a gap is determined by where it begins.
So a list of tokens that partitions the text into longest matches is read off by the grammar,
hence by the scanner.
-/

namespace Reserved

/-- The lexeme of a token has exactly one shape, for what comes after it and for the kind of
the token. -/
def LongestMatch (src : List Char) (t : Token) : Prop :=
  ∃ before text after, t.Covers src before text after ∧
    ∃! s : Scanner.Shape, s.Fits text after t.kind

/-- All tokens but the end mark are longest matches. -/
def LongestMatches (src : List Char) (ts : List Token) : Prop :=
  ∀ t ∈ ts, t.kind ≠ .eof → LongestMatch src t

namespace Scanner

theorem Scans.longestMatches {src : List Char} {ts : List Token} (h : Scans 0 src ts) :
    LongestMatches src ts := by
  intro t ht hkind
  obtain ⟨before, text, after, hcovers, hfits⟩ := h.covers [] rfl t ht
  obtain ⟨s, hs⟩ := hfits hkind
  exact ⟨before, text, after, hcovers, s, hs, fun s' hs' => hs'.unique hs⟩

end Scanner

namespace Partitions

variable {src : List Char} {ts : List Token}

theorem ordered_of_split {passed rest : List Token} {t : Token}
    (h : Partitions src (passed ++ t :: rest)) :
    (∀ q ∈ passed, q.start < t.start ∧ q.stop ≤ t.start) ∧
      ∀ r ∈ rest, t.start < r.start ∧ t.stop ≤ r.start := by
  obtain ⟨_, htail, hcross⟩ := List.pairwise_append.mp h.ordered
  exact ⟨fun q hq => hcross q hq t List.mem_cons_self, (List.pairwise_cons.mp htail).1⟩

/-- Only the last token is an end mark. -/
theorem kind_eq_eof_iff {passed rest : List Token} {t : Token}
    (h : Partitions src (passed ++ t :: rest)) : t.kind = .eof ↔ rest = [] := by
  obtain ⟨front, hts, hfront⟩ := h.ends
  rcases List.eq_nil_or_concat rest with rfl | ⟨rest', last, rfl⟩
  · obtain ⟨-, hlast⟩ := List.append_inj' hts rfl
    obtain ⟨rfl, -⟩ := List.cons.inj hlast
    exact ⟨fun _ => rfl, fun _ => rfl⟩
  · have hmem : t ∈ front := by
      have hfront' : passed ++ t :: rest' = front := by
        have hsplit : (passed ++ t :: rest') ++ [last] = front ++ [⟨.eof, Utf8.size src, 0⟩] := by
          rw [← hts]
          simp
        exact (List.append_inj' hsplit rfl).1
      rw [← hfront']
      exact List.mem_append_right _ List.mem_cons_self
    constructor
    · exact fun hkind => absurd hkind (hfront t hmem).1
    · exact fun hnil => absurd hnil (by simp)

/-- The end mark stands at the end of the text. -/
theorem start_of_last {passed : List Token} {t : Token} (h : Partitions src (passed ++ [t])) :
    t = ⟨.eof, Utf8.size src, 0⟩ := by
  obtain ⟨front, hts, _⟩ := h.ends
  obtain ⟨-, hlast⟩ := List.append_inj' hts rfl
  exact (List.cons.inj hlast).1

/-- **From where the tokens before it have ended, a token leaves a gap.** -/
theorem gap_before {passed rest : List Token} {t : Token} {done cs before text after : List Char}
    (h : Partitions src (passed ++ t :: rest)) (hsrc : src = done ++ cs)
    (hpassed : ∀ q ∈ passed, q.stop ≤ Utf8.size done)
    (hdone : Utf8.size done = 0 ∨ ∃ q ∈ passed, q.stop = Utf8.size done)
    (hcovers : t.Covers src before text after) :
    ∃ gap, before = done ++ gap ∧ cs = gap ++ (text ++ after) ∧
      Scanner.Gap gap (text ++ after) := by
  obtain ⟨hbefore, hafter⟩ := h.ordered_of_split
  have hle : Utf8.size done ≤ Utf8.size before := by
    rw [hcovers.start]
    rcases hdone with hzero | ⟨q, hq, hstop⟩
    · omega
    · have := (hbefore q hq).2
      omega
  obtain ⟨gap, rfl, rfl⟩ := Utf8.exists_between (hsrc.symm.trans hcovers.split) hle
  refine ⟨gap, rfl, rfl, ?_⟩
  have hstart := hcovers.start
  rw [Utf8.size_append] at hstart
  rcases Nat.eq_zero_or_pos (Utf8.size gap) with hzero | hpos
  · obtain rfl := Utf8.size_eq_zero.mp hzero
    exact .nil
  · -- the first byte after what was read is in no token
    have houtside : ∀ q ∈ passed ++ t :: rest,
        Utf8.size done < q.start ∨ q.stop ≤ Utf8.size done := by
      intro q hq
      rcases List.mem_append.mp hq with hq | hq
      · exact Or.inr (hpassed q hq)
      · rcases List.mem_cons.mp hq with rfl | hq
        · exact Or.inl (by omega)
        · have := (hafter q hq).1
          exact Or.inl (by omega)
    have hin : Utf8.size done < Utf8.size src := by
      rw [hsrc, Utf8.size_append, Utf8.size_append]
      omega
    obtain ⟨before', gap', after', hsplit, hlow, hhigh, hbetween, hgap⟩ :=
      h.gaps _ hin houtside
    -- its stretch begins there, since the last token ended there
    have hlo : Utf8.size before' = Utf8.size done := by
      rcases hdone with hzero | ⟨q, hq, hstop⟩
      · omega
      · have hqt := (hbefore q hq).1
        rcases hbetween.clear q (List.mem_append_left _ hq) with hc | hc
        · omega
        · have hqs : q.start ≤ q.stop := Nat.le_add_right _ _
          omega
    -- and ends where the next token begins
    have hhi : Utf8.size before' + Utf8.size gap' = t.start := by
      have hmem : t ∈ passed ++ t :: rest := List.mem_append_right _ List.mem_cons_self
      have hts : t.start ≤ t.stop := Nat.le_add_right _ _
      have hle' : Utf8.size before' + Utf8.size gap' ≤ t.start := by
        rcases hbetween.clear t hmem with hc | hc <;> omega
      obtain ⟨q, hq, hqstart⟩ := hbetween.ends
      rcases List.mem_append.mp hq with hq | hq
      · have hqs : q.start ≤ q.stop := Nat.le_add_right _ _
        have := hpassed q hq
        omega
      · rcases List.mem_cons.mp hq with rfl | hq
        · exact hqstart.symm
        · have := (hafter q hq).1
          omega
    obtain ⟨rfl, hrest⟩ := Utf8.append_inj_of_size (hsplit.symm.trans hsrc) hlo
    obtain ⟨rfl, rfl⟩ := Utf8.append_inj_of_size hrest (by omega)
    exact hgap

/-- **Longest matches that partition a text are read off by the grammar**, from any token
on. -/
theorem scans_from (hmatch : LongestMatches src ts) : ∀ (rest passed : List Token)
    (done cs : List Char), Partitions src ts → ts = passed ++ rest → src = done ++ cs →
      rest ≠ [] → (∀ q ∈ passed, q.stop ≤ Utf8.size done) →
      (Utf8.size done = 0 ∨ ∃ q ∈ passed, q.stop = Utf8.size done) →
      Scanner.Scans (Utf8.size done) cs rest
  | [], _, _, _, _, _, _, hne, _, _ => absurd rfl hne
  | t :: rest, passed, done, cs, h, hts, hsrc, _, hpassed, hdone => by
      have hmem : t ∈ ts := hts ▸ List.mem_append_right _ List.mem_cons_self
      have h' := h
      rw [hts] at h'
      by_cases hkind : t.kind = .eof
      · -- the end mark covers nothing, so all that is left is a gap
        obtain rfl := h'.kind_eq_eof_iff.mp hkind
        obtain ⟨before, text, after, hcovers⟩ := h.boundaries t hmem
        have hlast := h'.start_of_last
        have hlength : t.length = 0 := by rw [hlast]
        have hstop := hcovers.stop
        rw [Token.stop, hlength, hlast] at hstop
        obtain rfl : text = [] := Utf8.size_eq_zero.mp (hcovers.length.trans hlength)
        obtain rfl : after = [] := Utf8.size_eq_zero.mp (by simpa using hstop)
        obtain ⟨gap, rfl, rfl, hgap⟩ := h'.gap_before hsrc hpassed hdone hcovers
        have hstart := hcovers.start
        rw [Utf8.size_append] at hstart
        have ht : t = ⟨.eof, Utf8.size done + Utf8.size gap, 0⟩ := by
          rw [hstart, hlast]
        rw [ht, List.nil_append, List.append_nil]
        exact .done hgap
      · obtain ⟨before, text, after, hcovers, s, hfits, _⟩ := hmatch t hmem hkind
        obtain ⟨gap, rfl, rfl, hgap⟩ := h'.gap_before hsrc hpassed hdone hcovers
        have hstart := hcovers.start
        have hlength := hcovers.length
        rw [Utf8.size_append] at hstart
        have ht : t = ⟨t.kind, Utf8.size done + Utf8.size gap, Utf8.size text⟩ := by
          rw [hstart, hlength]
        have hstop : Utf8.size (done ++ gap ++ text) = t.stop := by
          rw [Utf8.size_append, Utf8.size_append, Token.stop, ← hstart, ← hlength]
        have hrest : rest ≠ [] := fun hnil => hkind (h'.kind_eq_eof_iff.mpr hnil)
        -- the text up to the end of this token is read, and the others come after it
        have hscans := scans_from hmatch rest (passed ++ [t]) (done ++ gap ++ text) after h
          (by rw [hts]; simp) (by rw [hsrc]; simp) hrest (by
            intro q hq
            rw [hstop]
            rcases List.mem_append.mp hq with hq | hq
            · have hq' := (h'.ordered_of_split.1 q hq).2
              have hts' : t.start ≤ t.stop := Nat.le_add_right _ _
              omega
            · rw [List.mem_singleton.mp hq])
          (Or.inr ⟨t, List.mem_append_right _ (List.mem_singleton_self t), hstop.symm⟩)
        rw [ht]
        rw [Utf8.size_append, Utf8.size_append] at hscans
        exact .token hgap hfits hscans

theorem scans (h : Partitions src ts) (hmatch : LongestMatches src ts) :
    Scanner.Scans 0 src ts := by
  have hne : ts ≠ [] := by
    obtain ⟨front, hts, _⟩ := h.ends
    rw [hts]
    simp
  exact scans_from hmatch ts [] [] src h rfl rfl hne (fun q hq => absurd hq (by simp))
    (Or.inl rfl)

end Partitions

/-- **The tokens of a text are its partition into longest matches.** Each token but the end
mark has exactly one shape, which forbids its lexeme to go on and gives its kind, and no other
list of tokens that partitions the text is like that. -/
theorem lex_eq_iff_longest_match (src : List Char) (ts : List Token) :
    lex src = ts ↔ Partitions src ts ∧ LongestMatches src ts := by
  constructor
  · rintro rfl
    exact ⟨(scans_lex src).partitions, (scans_lex src).longestMatches⟩
  · rintro ⟨hparts, hmatch⟩
    exact Scanner.scans_iff.mp (hparts.scans hmatch)

/-- A number has at most one point, and two slashes apart begin no comment. -/
example : lex "1.5.2/ /".toList = [⟨.num, 0, 3⟩, ⟨.invalid, 3, 1⟩, ⟨.num, 4, 1⟩, ⟨.slash, 5, 1⟩,
    ⟨.slash, 7, 1⟩, ⟨.eof, 8, 0⟩] := by decide

end Reserved
