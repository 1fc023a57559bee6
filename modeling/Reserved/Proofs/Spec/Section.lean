import Reserved.Proofs.Text.Trim
import Reserved.Spec.Parser

/-!
# Which lines are live

A line belongs to the keyword section by where it stands among the lines that hold nothing
but `%%`: after the first of them and before the second, or anywhere if there is none. This
is a statement about indices, and the parser's cuts of the list of lines come to the same.

No comment is a delimiter. The section may therefore be cut out of the lines that are left when
the comments are gone, and the lines may be taken for the pieces between line feeds, as a piece
that is no line is blank.

A heading above the first delimiter only moves the live lines down.
-/

namespace Reserved

namespace KeywordSpec

/-- Line `i`, counted from zero, holds nothing but `%%`. -/
def Delimits (src : List Char) (i : Nat) : Prop :=
  ∃ raw, (lines src)[i]? = some raw ∧ trim raw = ['%', '%']

/-- Line `i` is in the keyword section: there is no delimiter at all, or exactly one of them
stands at `i` or before it, and not at `i`. -/
def InSection (src : List Char) (i : Nat) : Prop :=
  (∀ j, ¬ Delimits src j) ∨
    ∃ first < i, Delimits src first ∧ ∀ j ≤ i, Delimits src j → j = first

/-- `text` stands, without the blanks around it, on line number `n`, and that line is live. -/
structure Live (src : List Char) (n : Nat) (text : List Char) : Prop where
  /-- Lines are counted from one. -/
  positive : 0 < n
  /-- The line, before it is trimmed. -/
  line : ∃ raw, (lines src)[n - 1]? = some raw ∧ trim raw = text
  /-- It is in the keyword section. -/
  inSection : InSection src (n - 1)
  /-- It is not blank. -/
  not_blank : text ≠ []
  /-- It is not a comment. -/
  not_comment : text.head? ≠ some '#'

theorem getElem?_numberedLines {src : List Char} {i : Nat} {l : NumberedLine} :
    (numberedLines src)[i]? = some l ↔
      ∃ raw, (lines src)[i]? = some raw ∧ l = (i + 1, trim raw) := by
  unfold numberedLines
  rw [List.getElem?_map, List.getElem?_zipIdx, Nat.zero_add, Option.map_map,
    Option.map_eq_some_iff]
  constructor
  · rintro ⟨raw, hraw, rfl⟩
    exact ⟨raw, hraw, rfl⟩
  · rintro ⟨raw, hraw, rfl⟩
    exact ⟨raw, hraw, rfl⟩

theorem delimits_iff {src : List Char} {i : Nat} :
    Delimits src i ↔ ∃ l, (numberedLines src)[i]? = some l ∧ isDelimiter l = true := by
  constructor
  · rintro ⟨raw, hraw, htrim⟩
    exact ⟨_, getElem?_numberedLines.mpr ⟨raw, hraw, rfl⟩, beq_iff_eq.mpr htrim⟩
  · rintro ⟨l, hl, hdelim⟩
    obtain ⟨raw, hraw, rfl⟩ := getElem?_numberedLines.mp hl
    exact ⟨raw, hraw, beq_iff_eq.mp hdelim⟩

/-- The lines are numbered in order. -/
theorem pairwise_numberedLines (src : List Char) :
    (numberedLines src).Pairwise fun a b => a.1 < b.1 := by
  refine List.pairwise_iff_getElem.mpr fun i j hi hj hij => ?_
  obtain ⟨_, _, ha⟩ := getElem?_numberedLines.mp (List.getElem?_eq_getElem hi)
  obtain ⟨_, _, hb⟩ := getElem?_numberedLines.mp (List.getElem?_eq_getElem hj)
  rw [ha, hb]
  exact Nat.succ_lt_succ hij

/-! ## Cuts of a list -/

section Cuts

variable {α : Type} {p : α → Bool}

/-- What stands before the first hit. -/
theorem mem_takeWhile_not {l : List α} {x : α} :
    x ∈ l.takeWhile (! p ·) ↔
      ∃ i : Nat, l[i]? = some x ∧ ∀ j ≤ i, ∀ y, l[j]? = some y → p y = false := by
  induction l with
  | nil => simp
  | cons a l ih =>
      by_cases ha : p a = true
      · rw [List.takeWhile_cons_of_neg (by simp [ha])]
        refine ⟨fun h => absurd h (by simp), fun ⟨i, _, hbelow⟩ => ?_⟩
        rw [hbelow 0 (Nat.zero_le i) a rfl] at ha
        exact absurd ha (by simp)
      · rw [Bool.not_eq_true] at ha
        rw [List.takeWhile_cons_of_pos (by simp [ha]), List.mem_cons, ih]
        constructor
        · rintro (rfl | ⟨i, hi, hbelow⟩)
          · refine ⟨0, rfl, fun j hj y hy => ?_⟩
            obtain rfl : j = 0 := Nat.le_zero.mp hj
            exact Option.some.inj hy ▸ ha
          · refine ⟨i + 1, hi, fun j hj y hy => ?_⟩
            cases j with
            | zero => exact Option.some.inj hy ▸ ha
            | succ j => exact hbelow j (Nat.le_of_succ_le_succ hj) y hy
        · rintro ⟨i, hi, hbelow⟩
          cases i with
          | zero => exact Or.inl (Option.some.inj hi).symm
          | succ i =>
              exact Or.inr ⟨i, hi, fun j hj y hy => hbelow (j + 1) (Nat.succ_le_succ hj) y hy⟩

/-- The list from its first hit on. -/
theorem dropWhile_eq_drop {l : List α} {first : Nat} {d : α} (hd : l[first]? = some d)
    (hhit : p d = true) (hbefore : ∀ j < first, ∀ y, l[j]? = some y → p y = false) :
    l.dropWhile (! p ·) = l.drop first := by
  induction l generalizing first with
  | nil => exact absurd hd (by simp)
  | cons a l ih =>
      cases first with
      | zero =>
          obtain rfl : a = d := Option.some.inj hd
          rw [List.dropWhile_cons_of_neg (by simp [hhit])]
          rfl
      | succ first =>
          have ha : p a = false := hbefore 0 (Nat.succ_pos first) a rfl
          rw [List.dropWhile_cons_of_pos (by simp [ha]), List.drop_succ_cons]
          exact ih hd fun j hj y hy => hbefore (j + 1) (Nat.succ_lt_succ hj) y hy

/-- A list with a hit has a first one. -/
theorem exists_first {l : List α} (h : l.any p = true) :
    ∃ (first : Nat) (d : α), l[first]? = some d ∧ p d = true ∧
      ∀ j < first, ∀ y, l[j]? = some y → p y = false := by
  induction l with
  | nil => exact absurd h (by simp)
  | cons a l ih =>
      by_cases ha : p a = true
      · exact ⟨0, a, rfl, ha, fun j hj => absurd hj (Nat.not_lt_zero j)⟩
      · rw [Bool.not_eq_true] at ha
        obtain ⟨first, d, hd, hhit, hbefore⟩ := ih (by simpa [ha] using h)
        refine ⟨first + 1, d, hd, hhit, fun j hj y hy => ?_⟩
        cases j with
        | zero => exact Option.some.inj hy ▸ ha
        | succ j => exact hbefore j (Nat.lt_of_succ_lt_succ hj) y hy

/-- A list with a hit is cut at its first one. -/
theorem exists_cut {l : List α} (h : 0 < l.countP p) :
    ∃ front d rest, l = front ++ d :: rest ∧ p d = true ∧ (∀ x ∈ front, p x = false) ∧
      l.countP p = rest.countP p + 1 := by
  obtain ⟨x, hx, hhit⟩ := List.countP_pos_iff.mp h
  obtain ⟨d, hfind⟩ := Option.isSome_iff_exists.mp (List.find?_isSome.mpr ⟨x, hx, hhit⟩)
  obtain ⟨hd, front, rest, rfl, hfront⟩ := List.find?_eq_some_iff_append.mp hfind
  have hnone : ∀ x ∈ front, p x = false := by simpa using hfront
  have hzero : front.countP p = 0 := List.countP_eq_zero.mpr fun x hx => by simp [hnone x hx]
  refine ⟨front, d, rest, rfl, hd, hnone, ?_⟩
  rw [List.countP_append, List.countP_cons_of_pos hd, hzero, Nat.zero_add]

/-! A filter that keeps every hit keeps the cuts. -/

variable {q : α → Bool}

theorem takeWhile_filter (hq : ∀ x, p x = true → q x = true) (l : List α) :
    (l.filter q).takeWhile (! p ·) = (l.takeWhile (! p ·)).filter q := by
  induction l with
  | nil => rfl
  | cons a l ih =>
      by_cases ha : p a = true
      · simp [ha, hq a ha]
      · by_cases hkept : q a = true
        · simpa [ha, hkept] using ih
        · simpa [ha, hkept] using ih

theorem drop_filter (hq : ∀ x, p x = true → q x = true) (l : List α) :
    ((l.filter q).dropWhile (! p ·)).drop 1 = ((l.dropWhile (! p ·)).drop 1).filter q := by
  induction l with
  | nil => rfl
  | cons a l ih =>
      by_cases ha : p a = true
      · simp [ha, hq a ha]
      · by_cases hkept : q a = true
        · simpa [ha, hkept] using ih
        · simpa [ha, hkept] using ih

end Cuts

/-! ## The section and its live lines -/

theorem any_isDelimiter {src : List Char} :
    (numberedLines src).any isDelimiter = true ↔ ∃ j, Delimits src j := by
  constructor
  · intro h
    obtain ⟨first, d, hd, hhit, _⟩ := exists_first h
    exact ⟨first, delimits_iff.mpr ⟨d, hd, hhit⟩⟩
  · rintro ⟨j, hj⟩
    obtain ⟨l, hl, hdelim⟩ := delimits_iff.mp hj
    exact List.any_eq_true.mpr ⟨l, List.mem_of_getElem? hl, hdelim⟩

/-- **The cuts of the parser are the section.** -/
theorem mem_keywordSection {src : List Char} {l : NumberedLine} :
    l ∈ keywordSection (numberedLines src) ↔
      ∃ i, (numberedLines src)[i]? = some l ∧ InSection src i := by
  unfold keywordSection
  split
  · rename_i hany
    obtain ⟨first, d, hd, hhit, hbefore⟩ := exists_first hany
    rw [dropWhile_eq_drop hd hhit hbefore, List.drop_drop, mem_takeWhile_not]
    have hfirst : Delimits src first := delimits_iff.mpr ⟨d, hd, hhit⟩
    -- positions in the cut list are counted from the line after the first delimiter
    have hleast : ∀ j, Delimits src j → first ≤ j := by
      intro j hj
      refine Nat.le_of_not_lt fun hlt => ?_
      obtain ⟨y, hy, hdelim⟩ := delimits_iff.mp hj
      rw [hbefore j hlt y hy] at hdelim
      exact absurd hdelim (by simp)
    constructor
    · rintro ⟨i, hi, hbelow⟩
      rw [List.getElem?_drop] at hi
      refine ⟨first + 1 + i, hi, Or.inr ⟨first, by omega, hfirst, fun j hj hdj => ?_⟩⟩
      -- a delimiter after the first one would have ended the section
      refine Classical.byContradiction fun hne => ?_
      have hle := hleast j hdj
      obtain ⟨y, hy, hdelim⟩ := delimits_iff.mp hdj
      have hfalse := hbelow (j - (first + 1)) (by omega) y (by
        rw [List.getElem?_drop, show first + 1 + (j - (first + 1)) = j by omega]
        exact hy)
      rw [hfalse] at hdelim
      exact absurd hdelim (by simp)
    · rintro ⟨i, hi, hnone | ⟨f, hf, hdf, honly⟩⟩
      · exact absurd hfirst (hnone first)
      · -- a delimiter at `i` or before it is `f`, so the first one is
        obtain rfl : first = f := honly first (by have := hleast f hdf; omega) hfirst
        refine ⟨i - (first + 1), ?_, fun j hj y hy => ?_⟩
        · rw [List.getElem?_drop, show first + 1 + (i - (first + 1)) = i by omega]
          exact hi
        · rw [List.getElem?_drop] at hy
          refine Bool.eq_false_iff.mpr fun hdelim => ?_
          have heq := honly (first + 1 + j) (by omega) (delimits_iff.mpr ⟨y, hy, hdelim⟩)
          omega
  · rename_i hany
    have hnone : ∀ j, ¬ Delimits src j := fun j hj => hany (any_isDelimiter.mpr ⟨j, hj⟩)
    rw [List.mem_iff_getElem?]
    exact ⟨fun ⟨i, hi⟩ => ⟨i, hi, Or.inl hnone⟩, fun ⟨i, hi, _⟩ => ⟨i, hi⟩⟩

theorem isComment_eq_false {l : NumberedLine} :
    isComment l = false ↔ l.2 ≠ [] ∧ l.2.head? ≠ some '#' := by
  unfold isComment
  rw [Bool.or_eq_false_iff, beq_eq_false_iff_ne, List.isEmpty_eq_false_iff]

/-- **The parser looks at the live lines, with their numbers, and at nothing else.** -/
theorem mem_liveLines {src : List Char} {n : Nat} {text : List Char} :
    (n, text) ∈ liveLines src ↔ Live src n text := by
  unfold liveLines
  rw [List.mem_filter, mem_keywordSection, Bool.not_eq_true', isComment_eq_false]
  constructor
  · rintro ⟨⟨i, hi, hsection⟩, hblank, hcomment⟩
    obtain ⟨raw, hraw, heq⟩ := getElem?_numberedLines.mp hi
    obtain ⟨rfl, rfl⟩ := Prod.mk.inj heq
    exact ⟨Nat.succ_pos i, ⟨raw, hraw, rfl⟩, hsection, hblank, hcomment⟩
  · rintro ⟨hpos, ⟨raw, hraw, rfl⟩, hsection, hblank, hcomment⟩
    refine ⟨⟨n - 1, getElem?_numberedLines.mpr ⟨raw, hraw, ?_⟩, hsection⟩, hblank, hcomment⟩
    rw [Nat.sub_add_cancel hpos]

/-- The live lines come in the order of their numbers. -/
theorem pairwise_liveLines (src : List Char) :
    (liveLines src).Pairwise fun a b => a.1 < b.1 := by
  have hsub : (keywordSection (numberedLines src)).Sublist (numberedLines src) := by
    unfold keywordSection
    split
    · refine (List.takeWhile_sublist _).trans ((List.drop_sublist _ _).trans ?_)
      exact List.dropWhile_sublist _
    · exact List.Sublist.refl _
  exact ((pairwise_numberedLines src).sublist hsub).sublist List.filter_sublist

/-! ## The section as a stretch of lines -/

/-- The section is what stands between the first two delimiters. -/
theorem keywordSection_between {above body : List NumberedLine} {d d' : NumberedLine}
    (habove : ∀ l ∈ above, isDelimiter l = false) (hd : isDelimiter d = true)
    (hbody : ∀ l ∈ body, isDelimiter l = false) (hd' : isDelimiter d' = true)
    (below : List NumberedLine) :
    keywordSection (above ++ d :: (body ++ d' :: below)) = body := by
  have hany : (above ++ d :: (body ++ d' :: below)).any isDelimiter = true := by
    simp [hd]
  have hdrop : (above ++ d :: (body ++ d' :: below)).dropWhile (! isDelimiter ·)
      = d :: (body ++ d' :: below) := by
    rw [List.dropWhile_append_of_pos fun l hl => by simp [habove l hl]]
    exact List.dropWhile_cons_of_neg (by simp [hd])
  unfold keywordSection
  rw [if_pos hany, hdrop]
  refine (takeWhile_run (fun l hl => by simp [hbody l hl]) fun l hl => ?_).1
  obtain rfl : d' = l := Option.some.inj hl
  simp [hd']

/-- Lines with two delimiters hold their section, whatever follows them. -/
theorem keywordSection_append {ls : List NumberedLine} (h : 2 ≤ ls.countP isDelimiter)
    (more : List NumberedLine) : keywordSection (ls ++ more) = keywordSection ls := by
  obtain ⟨above, d, rest, rfl, hd, habove, hcount⟩ := exists_cut (Nat.lt_of_succ_lt h)
  have hrest : 0 < rest.countP isDelimiter := by omega
  obtain ⟨body, d', below, rfl, hd', hbody, _⟩ := exists_cut hrest
  rw [keywordSection_between habove hd hbody hd', List.append_assoc, List.cons_append,
    List.append_assoc, List.cons_append, keywordSection_between habove hd hbody hd']

theorem isComment_of_isDelimiter {l : NumberedLine} (h : isDelimiter l = true) :
    isComment l = false := by
  have htext : l.2 = ['%', '%'] := beq_iff_eq.mp h
  simp [isComment, htext]

/-- **Comments have no part in what the section is**, so they may be left out before. -/
theorem keywordSection_filter (ls : List NumberedLine) :
    keywordSection (ls.filter (! isComment ·)) = (keywordSection ls).filter (! isComment ·) := by
  have hkept : ∀ l, isDelimiter l = true → (! isComment l) = true := by
    intro l hl
    rw [isComment_of_isDelimiter hl]
    rfl
  have hany : (ls.filter (! isComment ·)).any isDelimiter = ls.any isDelimiter := by
    rw [Bool.eq_iff_iff]
    simp only [List.any_eq_true, List.mem_filter]
    exact ⟨fun ⟨l, hl, hdelim⟩ => ⟨l, hl.1, hdelim⟩,
      fun ⟨l, hl, hdelim⟩ => ⟨l, ⟨hl, hkept l hdelim⟩, hdelim⟩⟩
  unfold keywordSection
  rw [hany, drop_filter hkept, takeWhile_filter hkept]
  split <;> rfl

/-! ## Lines that are no comments -/

/-- Pieces of a text as numbered lines, `n` others above them. -/
def numbered (n : Nat) (pieces : List (List Char)) : List NumberedLine :=
  (pieces.zipIdx n).map fun (piece, i) => (i + 1, trim piece)

theorem numbered_cons (n : Nat) (piece : List Char) (rest : List (List Char)) :
    numbered n (piece :: rest) = (n + 1, trim piece) :: numbered (n + 1) rest :=
  rfl

theorem numbered_append (n : Nat) (a b : List (List Char)) :
    numbered n (a ++ b) = numbered n a ++ numbered (n + a.length) b := by
  unfold numbered
  rw [List.zipIdx_append, List.map_append]

theorem exists_of_mem_numbered {n : Nat} {pieces : List (List Char)} {l : NumberedLine}
    (h : l ∈ numbered n pieces) : ∃ piece ∈ pieces, l.2 = trim piece := by
  obtain ⟨⟨piece, i⟩, hmem, rfl⟩ := List.mem_map.mp h
  exact ⟨piece, List.fst_mem_of_mem_zipIdx hmem, rfl⟩

/-- Nothing is left of the blanks around a line. -/
theorem numbered_congr {a b : List (List Char)} (h : a.map trim = b.map trim) (n : Nat) :
    numbered n a = numbered n b := by
  have hmap : ∀ pieces : List (List Char),
      numbered n pieces = ((pieces.map trim).zipIdx n).map fun (text, i) => (i + 1, text) := by
    intro pieces
    unfold numbered
    rw [List.zipIdx_map, List.map_map]
    rfl
  rw [hmap, hmap, h]

/-- Every line that is no comment, delimiters included. -/
def written (src : List Char) : List NumberedLine :=
  (numbered 0 (splitWhere (· == '\n') src)).filter (! isComment ·)

/-- A piece that is no line is blank. -/
theorem filter_numbered_linesOfPieces (pieces : List (List Char)) (n : Nat) :
    (numbered n (linesOfPieces pieces)).filter (! isComment ·)
      = (numbered n pieces).filter (! isComment ·) := by
  induction pieces generalizing n with
  | nil => rfl
  | cons piece rest ih =>
      cases rest with
      | nil =>
          by_cases hempty : piece = []
          · rw [hempty]
            rfl
          · rw [linesOfPieces, if_neg hempty]
      | cons next rest =>
          rw [linesOfPieces, numbered_cons, numbered_cons, List.filter_cons, List.filter_cons, ih,
            trim_dropReturn]
          exact fun h => List.cons_ne_nil _ _ h

theorem countP_written (src : List Char) :
    (written src).countP isDelimiter = (numberedLines src).countP isDelimiter := by
  unfold written
  rw [← filter_numbered_linesOfPieces, List.countP_filter]
  refine List.countP_congr fun l _ => ?_
  rw [Bool.and_eq_true, Bool.not_eq_true', and_iff_left_iff_imp]
  exact isComment_of_isDelimiter

/-- **The live lines are the section of what is no comment.** -/
theorem liveLines_eq (src : List Char) : liveLines src = keywordSection (written src) := by
  unfold written
  rw [← filter_numbered_linesOfPieces, keywordSection_filter]
  rfl

/-- A file is parsed by its live lines. -/
theorem parse_congr {src src' : List Char} (h : liveLines src = liveLines src') :
    parse src = parse src' := by
  unfold parse
  rw [h]

/-! ## Headings -/

/-- A text that may stand above the keyword section: its last line is ended, and none of its
lines is a delimiter. -/
structure Heading (heading : List Char) : Prop where
  ended : heading = [] ∨ heading.getLast? = some '\n'
  no_delimiter : ∀ line ∈ lines heading, trim line ≠ ['%', '%']

/-- The same line below `n` others. -/
def below (n : Nat) (l : NumberedLine) : NumberedLine := (n + l.1, l.2)

theorem map_below_numbered (n m : Nat) (pieces : List (List Char)) :
    (numbered m pieces).map (below n) = numbered (n + m) pieces := by
  induction pieces generalizing m with
  | nil => rfl
  | cons piece rest ih =>
      rw [numbered_cons, numbered_cons, List.map_cons, ih]
      rfl

theorem Heading.numberedLines_append {heading : List Char} (h : Heading heading)
    (src : List Char) : numberedLines (heading ++ src)
      = numberedLines heading ++ (numberedLines src).map (below (lines heading).length) := by
  show numbered 0 (lines (heading ++ src))
    = numbered 0 (lines heading) ++ (numbered 0 (lines src)).map _
  rw [lines_append src h.ended, numbered_append, map_below_numbered, Nat.zero_add, Nat.add_zero]

theorem keywordSection_map_below (n : Nat) (ls : List NumberedLine) :
    keywordSection (ls.map (below n)) = (keywordSection ls).map (below n) := by
  unfold keywordSection
  rw [List.any_map, List.dropWhile_map, ← List.map_drop, List.takeWhile_map]
  exact (apply_ite (List.map (below n)) _ _ _).symm

/-- **The section below a heading is the section without it**, further down. -/
theorem Heading.liveLines_append {heading src : List Char} (h : Heading heading)
    (hsrc : ∃ j, Delimits src j) : liveLines (heading ++ src)
      = (liveLines src).map (below (lines heading).length) := by
  have hnone : ∀ l ∈ numberedLines heading, isDelimiter l = false := by
    intro l hl
    obtain ⟨i, hi⟩ := List.mem_iff_getElem?.mp hl
    obtain ⟨raw, hraw, rfl⟩ := getElem?_numberedLines.mp hi
    exact beq_eq_false_iff_ne.mpr (h.no_delimiter raw (List.mem_of_getElem? hraw))
  have hsection : keywordSection (numberedLines (heading ++ src))
      = (keywordSection (numberedLines src)).map (below (lines heading).length) := by
    rw [h.numberedLines_append, ← keywordSection_map_below]
    have hany :
        ((numberedLines src).map (below (lines heading).length)).any isDelimiter = true := by
      rw [List.any_map]
      exact any_isDelimiter.mpr hsrc
    unfold keywordSection
    rw [List.any_append, hany, Bool.or_true, if_pos rfl, if_pos rfl,
      List.dropWhile_append_of_pos fun l hl => by rw [hnone l hl]; rfl]
  unfold liveLines
  rw [hsection, List.filter_map]
  rfl

end KeywordSpec

end Reserved
