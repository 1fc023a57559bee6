import Reserved.Proofs.Files.Seat

/-!
# Paths with another extension

Another extension is given to the file name of a path, where that stands in the text. So the
new path lies below the same directory as the old one, with another last word, and what came
after the name in the old text is gone. Where a path ends in its name, nothing came after it,
and the two paths are the same only if the two names are.
-/

namespace Reserved

namespace Path

open FileSystem (moves moves_append moves_concat IsName IsIdle EndsInName)

/-! ## A name in its path -/

/-- What stands around a stretch of a text. -/
theorem exists_around_stretch (cs : List Char) {before : Nat} {s : List Char × Nat}
    (hs : s ∈ stretches before (splitWhere (· == '/') cs)) : ∃ front after,
      cs = front ++ (s.1 ++ after) ∧ before + front.length + s.1.length = s.2 ∧
      (front = [] ∨ front.getLast? = some '/') ∧ (after = [] ∨ after.head? = some '/') := by
  induction cs using piece_induction '/' generalizing before with
  | last cs hcs =>
      rw [splitWhere_of_not_mem hcs, stretches, stretches] at hs
      obtain rfl := List.mem_singleton.mp hs
      exact ⟨[], [], (List.append_nil cs).symm, rfl, Or.inl rfl, Or.inl rfl⟩
  | next a rest ha ih =>
      rw [splitWhere_append rfl rest ha, stretches] at hs
      rcases List.mem_cons.mp hs with rfl | hs
      · exact ⟨[], '/' :: rest, rfl, rfl, Or.inl rfl, Or.inr rfl⟩
      · obtain ⟨front, after, hrest, hlength, hfront, hafter⟩ := ih hs
        refine ⟨a ++ '/' :: front, after, ?_, ?_, Or.inr ?_, hafter⟩
        · rw [hrest, List.append_assoc]
          rfl
        · rw [List.length_append, List.length_cons]
          omega
        · rcases hfront with rfl | hfront
          · exact List.getLast?_concat
          · rw [List.getLast?_append, List.getLast?_cons, hfront]
            rfl

/-- Below a text that a name may follow, a name is what follows it. -/
theorem join_of_front {front : List Char} (h : front = [] ∨ front.getLast? = some '/')
    (name : String) : join (String.ofList front) name = String.ofList front ++ name := by
  unfold join
  rcases h with rfl | h
  · exact String.empty_append.symm
  · have hne : (String.ofList front).isEmpty = false := by
      refine Bool.eq_false_iff.mpr fun hempty => ?_
      rw [String.ofList_eq_empty_iff.mp (String.isEmpty_iff.mp hempty)] at h
      exact absurd h (by simp)
    have hend : endsInSlash (String.ofList front) = true := by
      rw [endsInSlash, String.toList_ofList, h]
      rfl
    rw [if_neg (by simp [hne]), if_pos hend]

theorem endsInSlash_append {b : String} (a : String) (h : b ≠ "") :
    endsInSlash (a ++ b) = endsInSlash b := by
  have hne : b.toList ≠ [] := fun he => h (String.toList_eq_nil_iff.mp he)
  rw [endsInSlash, endsInSlash, String.toList_append, List.getLast?_append_of_ne_nil _ hne]

/-- A text that does not end in a slash has a piece. -/
theorem pieces_ne_nil (path : String) (hne : path ≠ "") (hend : endsInSlash path = false) :
    pieces path ≠ [] := by
  by_cases hslash : '/' ∈ path.toList
  · obtain ⟨a, rest, hpath, -⟩ := List.eq_append_cons_of_mem hslash
    have htext : path = String.ofList a ++ "/" ++ String.ofList rest := by
      rw [← String.toList_inj, hpath]
      simp
    have hrest : String.ofList rest ≠ "" := by
      intro hempty
      rw [htext, hempty, String.append_empty, endsInSlash_append _ (by decide)] at hend
      exact absurd hend (by decide)
    rw [htext, endsInSlash_append _ hrest] at hend
    rw [htext, pieces_append_slash]
    exact List.append_ne_nil_of_right_ne_nil _ (pieces_ne_nil _ hrest hend)
  · rw [pieces_of_name hne hslash]
    exact List.cons_ne_nil _ _
termination_by path.toList.length
decreasing_by
  rw [hpath, String.toList_ofList, List.length_append, List.length_cons]
  omega

/-- Up to its file name, a path has all its words. -/
theorem words_upTo_last {path name : String} {before : List (String × Nat)} {last : Nat}
    (hmarks : marks path = before ++ [(name, last)])
    (hwordMarks : wordMarks path = before.filter (·.1 ≠ ".") ++ [(name, last)])
    (hmem : (name, last) ∈ pieceMarks path) : words (upTo path last) = words path := by
  have hpairwise := (pairwise_pieceMarks path).sublist (marks_sublist path)
  rw [hmarks] at hpairwise
  have hall : ∀ m ∈ wordMarks path, m.2 ≤ last := by
    intro m hm
    rw [hwordMarks] at hm
    rcases List.mem_append.mp hm with hm | hm
    · exact Nat.le_of_lt ((List.pairwise_append.mp hpairwise).2.2 m (List.mem_of_mem_filter hm)
        _ List.mem_cons_self)
    · exact Nat.le_of_eq (congrArg Prod.snd (List.mem_singleton.mp hm))
  rw [words_upTo hmem, List.filter_eq_self.mpr fun m hm => decide_eq_true (hall m hm),
    map_fst_wordMarks]

theorem endsInSlash_of_endsInName {path : String} (h : EndsInName path) :
    endsInSlash path = false := by
  obtain ⟨-, init, last, hsteps, hlast, -⟩ := h
  refine Bool.eq_false_iff.mpr fun hend => ?_
  rw [steps, if_pos hend] at hsteps
  obtain ⟨-, hempty⟩ := List.append_inj' hsteps rfl
  exact hlast.ne_empty (List.cons.inj hempty).1.symm

/-- A path that ends in a name has a file name. -/
theorem exists_fileName {path : String} (h : EndsInName path) :
    ∃ name, fileName? path = some name := by
  have hend := endsInSlash_of_endsInName h
  obtain ⟨-, init, name, hsteps, hname, -⟩ := h
  rw [steps_of_not_endsInSlash hend, ← map_fst_pieceMarks] at hsteps
  obtain ⟨before, lasts, hmarks, -, hlasts⟩ := List.map_eq_append_iff.mp hsteps
  obtain ⟨m, rfl, rfl⟩ := List.map_eq_singleton_iff.mp hlasts
  have hlast : (marks path).getLast? = some m := by
    rw [marks_eq, hmarks]
    cases before with
    | nil =>
        dsimp only [List.nil_append]
        rw [if_neg fun h => hname.ne_dot h.1]
        rfl
    | cons first rest =>
        dsimp only [List.cons_append]
        rw [List.filter_append, List.filter_cons_of_pos (by simpa using hname.ne_dot),
          List.filter_nil]
        split
        · exact List.getLast?_concat
        · rw [← List.cons_append]
          exact List.getLast?_concat
  refine ⟨m.1, ?_⟩
  rw [fileName?, names, List.getLast?_map, hlast, Option.map_some]
  exact Option.filter_some_pos (by simp [hname.ne_dot, hname.ne_dots])

/-- Nothing follows the last name of a path that ends in a name. -/
theorem eq_of_words_eq {path front : String} {after : List Char} (hpath : EndsInName path)
    (htext : path = front ++ String.ofList after) (hafter : after = [] ∨ after.head? = some '/')
    (hwords : words front = words path) : path = front := by
  have hend := endsInSlash_of_endsInName hpath
  obtain ⟨-, init, last, hsteps, hlast, -⟩ := hpath
  rcases hafter with rfl | hafter
  · rw [htext, String.ofList_nil, String.append_empty]
  obtain ⟨rest, rfl⟩ := List.head?_eq_some_iff.mp hafter
  have htext : path = front ++ "/" ++ String.ofList rest := by
    rw [htext, ← String.toList_inj]
    simp
  exfalso
  have hrest : String.ofList rest ≠ "" := by
    intro hempty
    rw [htext, hempty, String.append_empty, endsInSlash_append _ (by decide)] at hend
    exact absurd hend (by decide)
  have hne : pieces (String.ofList rest) ≠ [] := by
    refine pieces_ne_nil _ hrest ?_
    rwa [htext, endsInSlash_append _ hrest] at hend
  -- the last word would stand behind the words, which are all there are
  rw [steps_of_not_endsInSlash hend, htext, pieces_append_slash] at hsteps
  obtain ⟨others, piece, hpieces⟩ := (List.eq_nil_or_concat' _).resolve_left hne
  rw [hpieces, ← List.append_assoc] at hsteps
  obtain ⟨-, hpiece⟩ := List.append_inj' hsteps rfl
  obtain rfl : piece = last := (List.cons.inj hpiece).1
  rw [htext, words, words, pieces_append_slash, hpieces, moves_append, moves_concat hlast] at hwords
  have hlength := congrArg List.length hwords
  simp only [List.length_append, List.length_cons, List.length_nil] at hlength
  omega

/-! ## Another extension -/

/-- A file name keeps at least its first character when it loses its extension. -/
theorem stem_of_ne_nil {name : List Char} (h : name ≠ []) :
    stem name ≠ [] ∧ stem name <+: name := by
  have hstem : stem name = if ((name.reverse.dropWhile (· ≠ '.')).drop 1).isEmpty then name
      else ((name.reverse.dropWhile (· ≠ '.')).drop 1).reverse := rfl
  rw [hstem]
  split
  · exact ⟨h, List.prefix_refl _⟩
  · next hkept =>
    refine ⟨fun hnil => hkept (by simpa using hnil), ?_⟩
    rw [← List.reverse_suffix, List.reverse_reverse]
    exact (List.drop_suffix _ _).trans (List.dropWhile_suffix _)

/-- What stands where a file name has been given another extension. -/
theorem exists_tail {path name : String} {before : List (String × Nat)} {stop : Nat}
    {front after : List Char} (h : fileName? path = some name)
    (hmarks : marks path = before ++ [(name, stop)])
    (htext : path.toList = front ++ (name.toList ++ after))
    (hstop : front.length + name.toList.length = stop) {extension : String}
    (hextension : '/' ∉ extension.toList) : ∃ tail, '/' ∉ tail ∧
      withExtension path extension
        = String.ofList (front ++ (stem name.toList ++ '.' :: tail)) := by
  refine ⟨if stem name.toList = ['.'] && stop = path.toList.length then []
    else extension.toList, ?_, ?_⟩
  · split
    · exact List.not_mem_nil
    · exact hextension
  · rw [withExtension, h, hmarks, List.getLast?_concat]
    dsimp only
    rw [← hstop, Nat.add_sub_cancel, htext, List.take_left' rfl, List.append_assoc]

/-- **The path with another extension lies beside the path.** It is some word below a text that
the directory is reached by. If the path ends in its name, it is that name below the same text. -/
theorem exists_withExtension {path name : String} (h : fileName? path = some name)
    {extension : String} (hextension : '/' ∉ extension.toList) :
    ∃ outer last, withExtension path extension = join outer last ∧
      last ≠ "" ∧ '/' ∉ last.toList ∧ isAbsolute outer = isAbsolute path ∧
      words path = words outer ++ [name] ∧ (EndsInName path → path = join outer name) := by
  obtain ⟨before, stop, hmarks, hwordMarks, hmem, hname, hslash⟩ := exists_mark h
  obtain ⟨cs, -, hcs, hstretch⟩ := exists_of_mem_pieceMarks hmem
  obtain rfl : name.toList = cs := by
    rw [show name = String.ofList cs from hcs, String.toList_ofList]
  obtain ⟨front, after, htext, hstop, hfront, hafter⟩ := exists_around_stretch _ hstretch
  rw [Nat.zero_add] at hstop
  dsimp only at htext hstop
  have hupTo : upTo path stop = join (String.ofList front) name := by
    rw [join_of_front hfront, upTo, htext, ← List.append_assoc,
      List.take_left' (by rw [List.length_append, hstop]), String.ofList_append,
      String.ofList_toList]
  have hwords : words (join (String.ofList front) name) = words path := by
    rw [← hupTo]
    exact words_upTo_last hmarks hwordMarks hmem
  obtain ⟨hpieces, habsolute, -⟩ := join_name hname.ne_empty hslash (String.ofList front)
  obtain ⟨hstem, hbegins⟩ := stem_of_ne_nil fun hnil =>
    hname.ne_empty (String.toList_eq_nil_iff.mp hnil)
  obtain ⟨tail, htail, hnew⟩ := exists_tail h hmarks htext hstop hextension
  refine ⟨String.ofList front, String.ofList (stem name.toList ++ '.' :: tail), ?_, ?_, ?_, ?_, ?_,
    fun hpath => ?_⟩
  · rw [hnew, join_of_front hfront, String.ofList_append]
  · rw [ne_eq, String.ofList_eq_empty_iff]
    simp
  · rw [String.toList_ofList, List.mem_append, List.mem_cons, not_or, not_or]
    exact ⟨fun hmem => hslash (hbegins.subset hmem), by decide, htail⟩
  · rw [← habsolute, ← hupTo]
    exact isAbsolute_upTo (m := (name, stop)) hmem
  · rw [← hwords, words, hpieces, moves_concat hname]
    rfl
  · refine eq_of_words_eq hpath ?_ hafter hwords
    rw [join_of_front hfront, ← String.toList_inj, htext]
    simp

end Path

end Reserved
