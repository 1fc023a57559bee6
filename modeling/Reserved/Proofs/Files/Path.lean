import Mathlib.Data.List.Basic
import Reserved.Files.Artifact
import Reserved.Proofs.Files.Walk
import Reserved.Proofs.Text.Run

/-!
# Words of a path

The words of a path are the pieces that a look-up moves by. Empty pieces and `.` are none of
them, although the text of a path may have such pieces anywhere. A path is cut where one of its
names ends, and the words of what is left are the words up to there. So a path that is got from
another by cutting and joining is known by its words.
-/

namespace Reserved

namespace Path

open FileSystem (moves moves_append IsName IsIdle)

/-- The pieces of a path that name an entry or lead up. -/
def words (path : String) : List String :=
  moves (pieces path)

/-! ## Stretches -/

theorem map_fst_stretches : ∀ (before : Nat) (css : List (List Char)),
    (stretches before css).map (·.1) = css
  | _, [] => rfl
  | before, cs :: rest => by
      rw [stretches, List.map_cons, map_fst_stretches]

theorem le_of_mem_stretches {css : List (List Char)} : ∀ {before : Nat} {s : List Char × Nat},
    s ∈ stretches before css → before + s.1.length ≤ s.2 := by
  induction css with
  | nil => exact fun h => absurd h List.not_mem_nil
  | cons cs rest ih =>
      intro before s hs
      rcases List.mem_cons.mp hs with rfl | hs
      · exact Nat.le_refl _
      · have := ih hs
        omega

/-- Stretches end one after the other. -/
theorem pairwise_stretches : ∀ (before : Nat) (css : List (List Char)),
    (stretches before css).Pairwise fun s t => s.2 < t.2
  | _, [] => .nil
  | before, cs :: rest => by
      refine .cons ?_ (pairwise_stretches _ rest)
      intro t ht
      have := le_of_mem_stretches ht
      omega

/-- A text cut where a stretch ends has the stretches up to there. -/
theorem stretches_take (cs : List Char) {before : Nat} {s : List Char × Nat}
    (hs : s ∈ stretches before (splitWhere (· == '/') cs)) :
    stretches before (splitWhere (· == '/') (cs.take (s.2 - before))) =
      (stretches before (splitWhere (· == '/') cs)).filter (·.2 ≤ s.2) := by
  induction cs using piece_induction '/' generalizing before with
  | last cs hcs =>
      rw [splitWhere_of_not_mem hcs, stretches, stretches] at hs ⊢
      obtain rfl := List.mem_singleton.mp hs
      rw [List.filter_cons_of_pos (by simp), Nat.add_sub_cancel_left, List.take_length,
        splitWhere_of_not_mem hcs]
      rfl
  | next a rest ha ih =>
      rw [splitWhere_append rfl rest ha, stretches] at hs ⊢
      rcases List.mem_cons.mp hs with rfl | hs
      · have hrest : (stretches (before + a.length + 1) (splitWhere (· == '/') rest)).filter
            (·.2 ≤ before + a.length) = [] := by
          refine List.filter_eq_nil_iff.mpr fun t ht => ?_
          have := le_of_mem_stretches ht
          rw [decide_eq_true_eq]
          omega
        rw [List.filter_cons_of_pos (by simp), hrest, Nat.add_sub_cancel_left, List.take_left' rfl,
          splitWhere_of_not_mem ha]
        rfl
      · have hle := le_of_mem_stretches hs
        have htake : (a ++ '/' :: rest).take (s.2 - before)
            = a ++ '/' :: rest.take (s.2 - (before + a.length + 1)) := by
          have hlen : s.2 - before = a.length + (s.2 - (before + a.length + 1) + 1) := by omega
          rw [hlen, List.take_length_add_append, List.take_succ_cons]
        rw [List.filter_cons_of_pos (by rw [decide_eq_true_eq]; omega), htake,
          splitWhere_append rfl _ ha, stretches, ih hs]

/-! ## Pieces and where they end -/

/-- The pieces of a path, each with the number of characters up to its end. -/
def pieceMarks (path : String) : List (String × Nat) :=
  ((stretches 0 (splitWhere (· == '/') path.toList)).filter (·.1 ≠ [])).map
    fun s => (String.ofList s.1, s.2)

/-- The words of a path, each with the number of characters up to its end. -/
def wordMarks (path : String) : List (String × Nat) :=
  (pieceMarks path).filter (·.1 ≠ ".")

theorem map_fst_pieceMarks (path : String) : (pieceMarks path).map (·.1) = pieces path := by
  rw [pieceMarks, pieces, ← map_fst_stretches 0 (splitWhere (· == '/') path.toList),
    List.filter_map, List.map_map, List.map_map, map_fst_stretches]
  rfl

theorem exists_of_mem_pieceMarks {path : String} {m : String × Nat} (h : m ∈ pieceMarks path) :
    ∃ cs, cs ≠ [] ∧ m.1 = String.ofList cs ∧
      (cs, m.2) ∈ stretches 0 (splitWhere (· == '/') path.toList) := by
  obtain ⟨s, hs, rfl⟩ := List.mem_map.mp h
  obtain ⟨hmem, hne⟩ := List.mem_filter.mp hs
  exact ⟨s.1, of_decide_eq_true hne, rfl, hmem⟩

theorem ne_empty_of_mem_pieces {path piece : String} (h : piece ∈ pieces path) : piece ≠ "" := by
  obtain ⟨cs, hcs, rfl⟩ := List.mem_map.mp h
  have hne : cs ≠ [] := of_decide_eq_true (List.mem_filter.mp hcs).2
  intro hempty
  exact hne (String.ofList_eq_empty_iff.mp hempty)

theorem map_fst_wordMarks (path : String) : (wordMarks path).map (·.1) = words path := by
  have hwords : words path = (pieces path).filter (· ≠ ".") := by
    refine List.filter_congr fun piece hpiece => ?_
    rw [decide_eq_true (ne_empty_of_mem_pieces hpiece), Bool.true_and]
  rw [hwords, ← map_fst_pieceMarks, List.filter_map, wordMarks]
  rfl

theorem pairwise_pieceMarks (path : String) :
    (pieceMarks path).Pairwise fun m m' => m.2 < m'.2 := by
  rw [pieceMarks, List.pairwise_map]
  exact (pairwise_stretches _ _).filter _

/-- The names of a path are its pieces without some that are `.`. -/
theorem marks_eq (path : String) : marks path = match pieceMarks path with
    | [] => []
    | first :: rest => if first.1 = "." ∧ isAbsolute path then rest.filter (·.1 ≠ ".")
      else first :: rest.filter (·.1 ≠ ".") := rfl

theorem marks_sublist (path : String) : (marks path).Sublist (pieceMarks path) := by
  rw [marks_eq]
  cases pieceMarks path with
  | nil => exact .slnil
  | cons first rest =>
      dsimp only
      split
      · exact List.filter_sublist.trans (List.sublist_cons_self _ _)
      · exact List.filter_sublist.cons_cons _

theorem filter_marks (path : String) : (marks path).filter (·.1 ≠ ".") = wordMarks path := by
  rw [marks_eq, wordMarks]
  cases pieceMarks path with
  | nil => rfl
  | cons first rest =>
      dsimp only
      split
      · next hfirst =>
        rw [List.filter_cons_of_neg (by simp [hfirst.1]), List.filter_filter]
        simp
      · rw [List.filter_cons, List.filter_filter, List.filter_cons]
        simp

/-! ## Cutting a path -/

theorem toList_upTo (path : String) (n : Nat) : (upTo path n).toList = path.toList.take n :=
  String.toList_ofList

/-- **A path cut where a piece ends has the words up to there.** -/
theorem words_upTo {path : String} {m : String × Nat} (h : m ∈ pieceMarks path) :
    words (upTo path m.2) = ((wordMarks path).filter (·.2 ≤ m.2)).map (·.1) := by
  obtain ⟨cs, -, -, hmem⟩ := exists_of_mem_pieceMarks h
  have htake := stretches_take path.toList hmem
  rw [Nat.sub_zero] at htake
  rw [← map_fst_wordMarks, wordMarks, wordMarks, pieceMarks, pieceMarks, toList_upTo, htake]
  simp only [List.filter_map, List.filter_filter, Function.comp_def]
  congr 3
  funext s
  rw [← Bool.and_assoc, Bool.and_comm]

theorem isAbsolute_upTo {path : String} {m : String × Nat} (h : m ∈ pieceMarks path) :
    isAbsolute (upTo path m.2) = isAbsolute path := by
  obtain ⟨cs, hne, -, hmem⟩ := exists_of_mem_pieceMarks h
  have hpos : m.2 ≠ 0 := by
    have hle : 0 + cs.length ≤ m.2 := le_of_mem_stretches hmem
    have := List.length_pos_iff.mpr hne
    omega
  rw [isAbsolute, isAbsolute, toList_upTo, List.head?_take, if_neg hpos]

/-- Of a list in order, what is below a bound comes first. -/
theorem initial_filter_le {marks : List (String × Nat)} (n : Nat)
    (h : marks.Pairwise fun m m' => m.2 < m'.2) : marks.filter (·.2 ≤ n) <+: marks := by
  induction marks with
  | nil => exact List.prefix_refl _
  | cons m rest ih =>
      obtain ⟨hm, hrest⟩ := List.pairwise_cons.mp h
      by_cases hle : m.2 ≤ n
      · rw [List.filter_cons_of_pos (by simpa using hle), List.prefix_cons_inj]
        exact ih hrest
      · have hnone : rest.filter (·.2 ≤ n) = [] := by
          refine List.filter_eq_nil_iff.mpr fun m' hm' => ?_
          have := hm m' hm'
          rw [decide_eq_true_eq]
          omega
        rw [List.filter_cons_of_neg (by simpa using hle), hnone]
        exact List.nil_prefix

/-- The paths that a path lies in begin as it does. -/
theorem words_prefix_of_mem_ancestors {path outer : String} (h : outer ∈ ancestors path) :
    words outer <+: words path ∧ isAbsolute outer = isAbsolute path := by
  rw [ancestors] at h
  split at h
  · exact absurd h List.not_mem_nil
  · next last inits hmarks =>
    rcases List.mem_cons.mp h with rfl | h
    · exact ⟨List.prefix_refl _, rfl⟩
    · obtain ⟨m, hm, rfl⟩ := List.mem_map.mp h
      have hmem : m ∈ pieceMarks path := by
        refine (marks_sublist path).subset ?_
        rw [← List.mem_reverse, hmarks]
        exact List.mem_cons_of_mem _ hm
      refine ⟨?_, isAbsolute_upTo hmem⟩
      show words (upTo path m.2) <+: words path
      rw [words_upTo hmem, ← map_fst_wordMarks]
      exact (initial_filter_le _ ((pairwise_pieceMarks path).filter _)).map _

/-! ## The directory part of a path -/

theorem not_mem_of_mem_pieces {path piece : String} (h : piece ∈ pieces path) :
    '/' ∉ piece.toList := by
  obtain ⟨cs, hcs, rfl⟩ := List.mem_map.mp h
  rw [String.toList_ofList]
  intro hslash
  have hfalse := of_mem_splitWhere (List.mem_of_mem_filter hcs) _ hslash
  exact absurd hfalse (by decide)

/-- A file name is the last of the names in its path. -/
theorem exists_mark {path name : String} (h : fileName? path = some name) :
    ∃ before last, marks path = before ++ [(name, last)] ∧
      wordMarks path = before.filter (·.1 ≠ ".") ++ [(name, last)] ∧
      (name, last) ∈ pieceMarks path ∧ IsName name ∧ '/' ∉ name.toList := by
  obtain ⟨hlast, hname⟩ := Option.filter_eq_some_iff.mp h
  rw [Bool.and_eq_true_iff, decide_eq_true_eq, decide_eq_true_eq] at hname
  rw [names, List.getLast?_map, Option.map_eq_some_iff] at hlast
  obtain ⟨m, hlast, rfl⟩ := hlast
  obtain ⟨before, hmarks⟩ := List.getLast?_eq_some_iff.mp hlast
  have hmem : m ∈ pieceMarks path := by
    refine (marks_sublist path).subset ?_
    rw [hmarks]
    exact List.mem_append_right _ List.mem_cons_self
  have hpiece : m.1 ∈ pieces path := by
    rw [← map_fst_pieceMarks]
    exact List.mem_map_of_mem hmem
  refine ⟨before, m.2, hmarks, ?_, hmem,
    ⟨ne_empty_of_mem_pieces hpiece, hname.1, hname.2⟩, not_mem_of_mem_pieces hpiece⟩
  rw [← filter_marks, hmarks, List.filter_append, List.filter_cons_of_pos (by simpa using hname.1)]
  rfl

/-- A path with a file name lies in the directory that the words before the name lead to. -/
theorem exists_parent {path name : String} (h : fileName? path = some name) :
    ∃ parent, parent? path = some parent ∧ words path = words parent ++ [name] ∧
      isAbsolute parent = isAbsolute path ∧ IsName name ∧ '/' ∉ name.toList := by
  obtain ⟨before, last, hmarks, hwordMarks, -, hisName, hslash⟩ := exists_mark h
  have hwords : words path = (before.filter (·.1 ≠ ".")).map (·.1) ++ [name] := by
    rw [← map_fst_wordMarks, hwordMarks, List.map_append]
    rfl
  suffices hparent : ∃ parent, parent? path = some parent ∧
      words parent = (before.filter (·.1 ≠ ".")).map (·.1) ∧
      isAbsolute parent = isAbsolute path by
    obtain ⟨parent, hparent, hinit, habsolute⟩ := hparent
    exact ⟨parent, hparent, by rw [hwords, hinit], habsolute, hisName, hslash⟩
  rcases List.eq_nil_or_concat' before with rfl | ⟨outer, dir, rfl⟩
  · refine ⟨if isAbsolute path then "/" else "", ?_, ?_, ?_⟩
    · rw [parent?, hmarks]
      rfl
    · split
      · decide
      · decide
    · split
      · next habsolute => exact habsolute.symm ▸ by decide
      · next habsolute => exact (Bool.eq_false_iff.mpr habsolute).symm ▸ by decide
  · have hdir : dir ∈ pieceMarks path := by
      refine (marks_sublist path).subset ?_
      rw [hmarks]
      simp
    have hpairwise := (pairwise_pieceMarks path).sublist (marks_sublist path)
    rw [hmarks] at hpairwise
    obtain ⟨houter, -, hbefore⟩ := List.pairwise_append.mp hpairwise
    refine ⟨upTo path dir.2, ?_, ?_, isAbsolute_upTo hdir⟩
    · rw [parent?, hmarks]
      simp
    · -- every name but the last one ends by then
      have hall : ∀ m' ∈ outer ++ [dir], m'.2 ≤ dir.2 := by
        intro m' hm'
        rcases List.mem_append.mp hm' with hm' | hm'
        · exact Nat.le_of_lt ((List.pairwise_append.mp houter).2.2 m' hm' dir List.mem_cons_self)
        · exact Nat.le_of_eq (congrArg Prod.snd (List.mem_singleton.mp hm'))
      have hlast : dir.2 < last := hbefore dir (by simp) _ List.mem_cons_self
      rw [words_upTo hdir, hwordMarks, List.filter_append,
        List.filter_cons_of_neg (by simpa using hlast), List.filter_nil, List.append_nil,
        List.filter_eq_self.mpr fun m' hm' => decide_eq_true (hall m' (List.mem_of_mem_filter hm'))]

/-! ## Names below a path -/

theorem isAbsolute_append {a : String} (b : String) (h : a ≠ "") :
    isAbsolute (a ++ b) = isAbsolute a := by
  have hne : a.toList ≠ [] := fun he => h (String.toList_eq_nil_iff.mp he)
  rw [isAbsolute, isAbsolute, String.toList_append, List.head?_append_of_ne_nil _ hne]

/-- A path goes on after a slash. -/
theorem pieces_append_slash (a b : String) : pieces (a ++ "/" ++ b) = pieces a ++ pieces b := by
  have hsplit : splitWhere (· == '/') (a.toList ++ '/' :: b.toList)
      = splitWhere (· == '/') a.toList ++ splitWhere (· == '/') b.toList :=
    splitWhere_append_sep rfl _ _
  have htext : (a ++ "/" ++ b).toList = a.toList ++ '/' :: b.toList := by
    rw [String.toList_append, String.toList_append, List.append_assoc]
    rfl
  rw [pieces, htext, hsplit, List.filter_append, List.map_append]
  rfl

section

variable {name : String} (hne : name ≠ "") (hslash : '/' ∉ name.toList)
include hne hslash

theorem pieces_of_name : pieces name = [name] := by
  have hchars : ∀ c ∈ name.toList, (c == '/') = false :=
    fun c hc => beq_false_of_ne fun h => hslash (h ▸ hc)
  have htext : name.toList ≠ [] := fun h => hne (String.toList_eq_nil_iff.mp h)
  rw [pieces, splitWhere_of_not_mem hchars, List.filter_cons_of_pos (by simpa using htext),
    List.filter_nil, List.map_cons, List.map_nil, String.ofList_toList]

/-- A name below a path is one more piece, and what the path ends in. -/
theorem join_name (path : String) : pieces (join path name) = pieces path ++ [name] ∧
    isAbsolute (join path name) = isAbsolute path ∧ endsInSlash (join path name) = false := by
  have hlast : ∀ a : String, endsInSlash (a ++ name) = false := by
    intro a
    have htext : name.toList ≠ [] := fun h => hne (String.toList_eq_nil_iff.mp h)
    rw [endsInSlash, String.toList_append, List.getLast?_append_of_ne_nil _ htext,
      List.getLast?_eq_some_getLast htext]
    refine beq_false_of_ne fun h => hslash ?_
    rw [← Option.some.inj h]
    exact List.getLast_mem htext
  have hname := pieces_of_name hne hslash
  rw [join]
  split
  · next hempty =>
    obtain rfl : path = "" := String.isEmpty_iff.mp hempty
    have htext : name.toList.head? ≠ some '/' :=
      fun h => hslash (List.mem_of_head? h)
    have hend := hlast ""
    rw [String.empty_append] at hend
    exact ⟨by rw [hname]; rfl, beq_false_of_ne htext, hend⟩
  · next hempty =>
    have hpath : path ≠ "" := fun h => hempty (String.isEmpty_iff.mpr h)
    split
    · next hend =>
      refine ⟨?_, isAbsolute_append name hpath, hlast path⟩
      obtain ⟨front, hfront⟩ := List.getLast?_eq_some_iff.mp (eq_of_beq hend)
      obtain rfl : path = String.ofList front ++ "/" := by
        rw [← String.toList_inj, hfront, String.toList_append, String.toList_ofList]
        rfl
      have hfront := pieces_append_slash (String.ofList front) ""
      rw [String.append_empty] at hfront
      rw [pieces_append_slash, hname, hfront]
      exact congrArg (· ++ [name]) (List.append_nil _).symm
    · refine ⟨by rw [pieces_append_slash, hname], ?_, hlast _⟩
      rw [String.append_assoc]
      exact isAbsolute_append _ hpath

end

/-- A slash at the end is no word. -/
theorem moves_steps (path : String) : moves (steps path) = words path := by
  rw [steps, moves_append, words]
  split
  · exact List.append_nil _
  · exact List.append_nil _

theorem steps_of_not_endsInSlash {path : String} (h : endsInSlash path = false) :
    steps path = pieces path := by
  rw [steps, h]
  exact List.append_nil _

/-! ## The path beside a path -/

theorem isName_tmp (name : String) : IsName (name ++ ".tmp") := by
  have hlength : ∀ other : String, other.length < 4 → name ++ ".tmp" ≠ other := by
    intro other h he
    rw [← he, String.length_append] at h
    have : ".tmp".length = 4 := by decide
    omega
  exact ⟨hlength "" (by decide), hlength "." (by decide), hlength ".." (by decide)⟩

theorem not_mem_tmp {name : String} (h : '/' ∉ name.toList) : '/' ∉ (name ++ ".tmp").toList := by
  rw [String.toList_append, List.mem_append, not_or]
  exact ⟨h, by decide⟩

/-- The path beside a path ends in a name, below what the path lies in or the path itself. -/
theorem sidePath_eq_join (path : String) : ∃ outer,
    Disk.sidePath path = join outer ((fileName? path).getD "" ++ ".tmp") ∧
      '/' ∉ ((fileName? path).getD "").toList ∧ isAbsolute outer = isAbsolute path ∧
      ∀ name, fileName? path = some name → IsName name ∧ words path = words outer ++ [name] := by
  rw [Disk.sidePath, withFileName]
  cases hname : fileName? path with
  | none => exact ⟨path, rfl, List.not_mem_nil, rfl, fun _ h => absurd h (by simp)⟩
  | some name =>
      obtain ⟨parent, hparent, hwords, habsolute, hisName, hslash⟩ := exists_parent hname
      rw [hparent]
      refine ⟨parent, rfl, hslash, habsolute, ?_⟩
      intro name' hname'
      obtain rfl := Option.some.inj hname'
      exact ⟨hisName, hwords⟩

theorem steps_sidePath (path : String) :
    ∃ init name, steps (Disk.sidePath path) = init ++ [name] ∧ IsName name := by
  obtain ⟨outer, hside, hslash, -⟩ := sidePath_eq_join path
  obtain ⟨hpieces, -, hend⟩ := join_name (isName_tmp _).ne_empty (not_mem_tmp hslash) outer
  rw [hside, steps_of_not_endsInSlash hend, hpieces]
  exact ⟨_, _, rfl, isName_tmp _⟩

theorem isAbsolute_sidePath (path : String) :
    isAbsolute (Disk.sidePath path) = isAbsolute path := by
  obtain ⟨outer, hside, hslash, habsolute, -⟩ := sidePath_eq_join path
  rw [hside, (join_name (isName_tmp _).ne_empty (not_mem_tmp hslash) outer).2.1, habsolute]

/-- **A path and the path beside it differ in their last word.** -/
theorem words_sidePath {path name : String} (h : fileName? path = some name) :
    ∃ init, words path = init ++ [name] ∧ IsName name ∧
      words (Disk.sidePath path) = init ++ [name ++ ".tmp"] := by
  obtain ⟨outer, hside, hslash, -, hwords⟩ := sidePath_eq_join path
  obtain ⟨hname, hwords⟩ := hwords name h
  obtain ⟨hpieces, -, -⟩ := join_name (isName_tmp _).ne_empty (not_mem_tmp hslash) outer
  refine ⟨words outer, hwords, hname, ?_⟩
  rw [hside, words, hpieces, h]
  exact FileSystem.moves_concat (isName_tmp name) _

end Path

end Reserved
