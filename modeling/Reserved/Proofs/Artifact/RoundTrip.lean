import Reserved.Proofs.Artifact.Literal
import Reserved.Proofs.Table.Lookup
import Reserved.Proofs.Text.Trim
import Reserved.Table.Artifact

/-!
# What an artifact declares

The declaration of a table, read as source text, is the table. Each line of it is written
so that the machine that tells lexemes apart is between two of them before and after, whatever
the line holds: a text is escaped until nothing in it can end the literal, or the line. So the
lines can be read one by one, and only the first of them is a heading, whatever the file is
headed with.
-/

namespace Reserved

namespace Artifact

open Source

/-! ## The lines of a declaration -/

def fieldLine (lead : String) (value : List Char) : List Char :=
  lead.toList ++ (value ++ [','])

def displacementLine (d : Displacement) : List Char :=
  "        (".toList ++ (Nat.toDigits 10 d.factor.toNat
    ++ (',' :: ' ' :: (Nat.toDigits 10 d.shift.toNat ++ [')', ','])))

def slotLine (s : Slot) : List Char :=
  "        (".toList ++ ((quote s.text).toList
    ++ (", TokenKind::".toList ++ (s.kind.name.toList ++ [')', ','])))

/-- The lines after the heading. -/
def bodyLines (t : HashTable) : List (List Char) :=
  [fieldLine "    seed: " (hexWord t.seed).toList,
    fieldLine "    min_len: " (Nat.toDigits 10 t.minLen),
    fieldLine "    max_len: " (Nat.toDigits 10 t.maxLen),
    "    displacements: &[".toList]
    ++ (t.displacements.map displacementLine
    ++ (["    ],".toList, "    slots: &[".toList]
    ++ (t.slots.map slotLine
    ++ ["    ],".toList, "\x7d;".toList])))

theorem toList_renderDisplacement (d : Displacement) :
    (renderDisplacement d).toList = ended (displacementLine d) := by
  have hcomma : ", ".toList = [',', ' '] := by decide
  have hend : "),\n".toList = [')', ','] ++ ['\n'] := by decide
  unfold renderDisplacement displacementLine ended
  simp only [toString, String.toList_append, Nat.toList_repr, hcomma, hend, List.append_assoc,
    List.cons_append, List.nil_append]

theorem toList_renderSlot (s : Slot) : (renderSlot s).toList = ended (slotLine s) := by
  have hend : "),\n".toList = [')', ','] ++ ['\n'] := by decide
  unfold renderSlot slotLine ended
  simp only [toString, String.toList_append, hend, List.append_assoc]

theorem toList_renderTable (t : HashTable) :
    (renderTable t).toList = (heading :: bodyLines t).flatMap ended := by
  have hheading : "pub static KEYWORDS: StaticTable = StaticTable \x7b\n".toList
      = heading ++ ['\n'] := by decide
  have hfield : ",\n".toList = [','] ++ ['\n'] := by decide
  have hdisplacements : "    displacements: &[\n".toList
      = "    displacements: &[".toList ++ ['\n'] := by decide
  have hslots : "    slots: &[\n".toList = "    slots: &[".toList ++ ['\n'] := by decide
  have hlist : "    ],\n".toList = "    ],".toList ++ ['\n'] := by decide
  have hend : "\x7d;\n".toList = "\x7d;".toList ++ ['\n'] := by decide
  unfold renderTable bodyLines
  simp only [toString, String.toList_append, String.toList_join, Nat.toList_repr,
    List.flatMap_map, toList_renderDisplacement, toList_renderSlot, hheading, hfield,
    hdisplacements, hslots, hlist, hend, List.flatMap_cons, List.flatMap_append, List.flatMap_nil,
    fieldLine, ended, List.append_assoc, List.append_nil]

/-! ## No line of a declaration but the first is its heading -/

theorem not_mem_toDigits (n : Nat) : '\n' ∉ Nat.toDigits 10 n :=
  not_mem_of_isWordPart (Numeral.isWordPart_of_mem_decimal n) (by decide)

theorem not_mem_escapeChar (c : Char) : '\n' ∉ escapeChar c := by
  unfold escapeChar
  split
  · decide
  split
  · decide
  split
  · decide
  split
  · decide
  split
  · decide
  split
  · decide
  split
  · have hdigits : '\n' ∉ Nat.toDigits 16 c.toNat :=
      not_mem_of_isWordPart (Numeral.isWordPart_of_mem_hex c.toNat) (by decide)
    simp [hdigits]
  · rename_i hne _ _ _ _
    simpa using Ne.symm hne

/-- A line feed in a text is escaped. -/
theorem not_mem_quote (s : String) : '\n' ∉ (quote s).toList := by
  unfold quote
  simp [not_mem_escapeChar]

/-- A line that is indented is not the heading, whatever follows. -/
theorem ne_heading {lead l : List Char} (hlead : lead.head? = some ' ') (hline : '\n' ∉ lead)
    (hl : '\n' ∉ l) : '\n' ∉ lead ++ l ∧ lead ++ l ≠ heading := by
  refine ⟨fun h => (List.mem_append.mp h).elim hline hl, fun h => ?_⟩
  have hhead : (lead ++ l).head? = some 'p' := by
    rw [h]
    decide
  rw [List.head?_append, hlead] at hhead
  exact absurd hhead (by simp)

theorem ne_heading_of_mem_bodyLines (t : HashTable) :
    ∀ l ∈ bodyLines t, '\n' ∉ l ∧ l ≠ heading := by
  intro l hl
  simp only [bodyLines, List.mem_append, List.mem_cons, List.not_mem_nil, or_false,
    List.mem_map] at hl
  rcases hl with (rfl | rfl | rfl | rfl) | ⟨d, -, rfl⟩ | (rfl | rfl) | ⟨s, -, rfl⟩ | rfl | rfl
  · have hword : '\n' ∉ (hexWord t.seed).toList :=
      not_mem_of_isWordPart (fun _ => isWordPart_of_mem_hexWord) (by decide)
    exact ne_heading (by decide) (by decide) (by simp [hword])
  · exact ne_heading (by decide) (by decide) (by simp [not_mem_toDigits])
  · exact ne_heading (by decide) (by decide) (by simp [not_mem_toDigits])
  · decide
  · exact ne_heading (by decide) (by decide) (by simp [not_mem_toDigits])
  · decide
  · decide
  · refine ne_heading (by decide) (by decide) ?_
    have hname : '\n' ∉ s.kind.name.toList :=
      not_mem_of_isWordPart (isWordPart_of_mem_name s.kind) (by decide)
    simp [not_mem_quote, hname]
  · decide
  · decide

theorem exists_before_heading (t : HashTable) (h : Header) :
    ∃ before, (renderHeader t h).toList = before ++ ['\n'] := by
  have hend : "\n\n".toList = ['\n'] ++ ['\n'] := by decide
  unfold renderHeader
  simp only [toString, String.toList_append, hend, ← List.append_assoc]
  exact ⟨_, rfl⟩

/-- The declaration of a table is the part of its artifact from the heading on. -/
theorem declaration?_render (t : HashTable) (h : Header) :
    declaration? (render t h).toList = some (renderTable t).toList := by
  obtain ⟨before, hbefore⟩ := exists_before_heading t h
  -- nothing after the heading is taken for it, so it is the last one
  have hnone : fromLast? heading true ((bodyLines t).flatMap ended) = none :=
    fromLast?_lines (by decide) _ (ne_heading_of_mem_bodyLines t)
  have hpart : fromLast? heading true (renderTable t).toList = some (renderTable t).toList := by
    have hline : '\n' ∉ heading := by decide
    rw [toList_renderTable, List.flatMap_cons, ended, List.append_assoc]
    show fromLast? heading true (heading ++ '\n' :: (bodyLines t).flatMap ended) = _
    rw [fromLast?_line _ true hline, hnone, if_pos ⟨rfl, rfl⟩]
    rfl
  unfold declaration? render
  rw [String.toList_append, hbefore, List.append_assoc]
  exact fromLast?_before hpart before true

/-! ## The lexemes of a declaration -/

def fieldLexemes (name : String) (value : List Char) : List Lexeme :=
  [.word name.toList, .mark ':', .word value, .mark ',']

def displacementLexemes (d : Displacement) : List Lexeme :=
  [.mark '(', .word (Nat.toDigits 10 d.factor.toNat), .mark ',',
    .word (Nat.toDigits 10 d.shift.toNat), .mark ')', .mark ',']

def slotLexemes (s : Slot) : List Lexeme :=
  [.mark '(', .text s.text.toList, .mark ',', .word "TokenKind".toList, .mark ':', .mark ':',
    .word s.kind.name.toList, .mark ')', .mark ',']

def tableLexemes (t : HashTable) : List Lexeme :=
  headingLexemes ++ (fieldLexemes "seed" (hexWord t.seed).toList
    ++ (fieldLexemes "min_len" (Nat.toDigits 10 t.minLen)
    ++ (fieldLexemes "max_len" (Nat.toDigits 10 t.maxLen)
    ++ (listOpening "displacements" ++ (t.displacements.flatMap displacementLexemes
    ++ ([.mark ']', .mark ','] ++ (listOpening "slots" ++ (t.slots.flatMap slotLexemes
    ++ ([.mark ']', .mark ','] ++ [.mark '\x7d', .mark ';'])))))))))

theorem reads_fieldLine {lead name : String} {value : List Char}
    (hlead : Reads lead.toList [.word name.toList, .mark ':']) (hne : value ≠ [])
    (hvalue : ∀ c ∈ value, isWordPart c = true) :
    Reads (ended (fieldLine lead value)) (fieldLexemes name value) := by
  have hend : Reads [',', '\n'] [.mark ','] := by decide
  have hword := Reads.word hne hvalue (by decide) hend
  unfold ended fieldLine
  rw [List.append_assoc, List.append_assoc]
  exact hlead.append hword

theorem reads_numberLine {lead name : String}
    (hlead : Reads lead.toList [.word name.toList, .mark ':']) (n : Nat) :
    Reads (ended (fieldLine lead (Nat.toDigits 10 n))) (fieldLexemes name (Nat.toDigits 10 n)) :=
  reads_fieldLine hlead Nat.toDigits_ne_nil (Numeral.isWordPart_of_mem_decimal n)

theorem reads_displacementLine (d : Displacement) :
    Reads (ended (displacementLine d)) (displacementLexemes d) := by
  have hlead : Reads "        (".toList [.mark '('] := by decide
  have hspace : Reads [',', ' '] [.mark ','] := by decide
  have hend : Reads [')', ',', '\n'] [.mark ')', .mark ','] := by decide
  have hshift := Reads.decimal d.shift.toNat (by decide) hend
  have hfactor := Reads.decimal d.factor.toNat (by decide) (hspace.append hshift)
  unfold ended displacementLine
  simp only [List.append_assoc, List.cons_append, List.nil_append] at hfactor ⊢
  exact hlead.append hfactor

theorem reads_slotLine (s : Slot) : Reads (ended (slotLine s)) (slotLexemes s) := by
  have hlead : Reads "        (".toList [.mark '('] := by decide
  have hpath : Reads ", TokenKind::".toList
      [.mark ',', .word "TokenKind".toList, .mark ':', .mark ':'] := by decide
  have hend : Reads [')', ',', '\n'] [.mark ')', .mark ','] := by decide
  have hname := Reads.word (name_ne_nil s.kind) (isWordPart_of_mem_name s.kind) (by decide) hend
  have hline := hlead.append ((Reads.quote s.text).append (hpath.append hname))
  unfold ended slotLine
  simp only [List.append_assoc, List.cons_append, List.nil_append] at hline ⊢
  exact hline

/-- The text of a declaration is read as its lexemes. -/
theorem reads_renderTable (t : HashTable) : Reads (renderTable t).toList (tableLexemes t) := by
  have hheading : Reads (ended heading) headingLexemes := by decide
  have hseed : Reads (ended (fieldLine "    seed: " (hexWord t.seed).toList))
      (fieldLexemes "seed" (hexWord t.seed).toList) :=
    reads_fieldLine (by decide) (hexWord_ne_nil t.seed) fun _ => isWordPart_of_mem_hexWord
  have hmin : Reads (ended (fieldLine "    min_len: " (Nat.toDigits 10 t.minLen)))
      (fieldLexemes "min_len" (Nat.toDigits 10 t.minLen)) := reads_numberLine (by decide) _
  have hmax : Reads (ended (fieldLine "    max_len: " (Nat.toDigits 10 t.maxLen)))
      (fieldLexemes "max_len" (Nat.toDigits 10 t.maxLen)) := reads_numberLine (by decide) _
  have hds : Reads (ended "    displacements: &[".toList) (listOpening "displacements") := by
    decide
  have hslots : Reads (ended "    slots: &[".toList) (listOpening "slots") := by decide
  have hlist : Reads (ended "    ],".toList) [.mark ']', .mark ','] := by decide
  have hend : Reads (ended "\x7d;".toList) [.mark '\x7d', .mark ';'] := by decide
  rw [toList_renderTable]
  simp only [bodyLines, List.flatMap_cons, List.flatMap_append, List.flatMap_nil, List.flatMap_map,
    List.append_nil, List.append_assoc]
  exact hheading.append (hseed.append (hmin.append (hmax.append (hds.append
    ((Reads.flatMap reads_displacementLine _).append (hlist.append (hslots.append
    ((Reads.flatMap reads_slotLine _).append (hlist.append hend)))))))))

/-! ## The table of a declaration -/

theorem after?_append (wanted rest : List Lexeme) : after? wanted (wanted ++ rest) = some rest := by
  unfold after?
  rw [if_pos (List.isPrefixOf_iff_prefix.mpr (List.prefix_append _ _)), List.drop_left]

theorem field?_append (name : String) (value : List Char) (rest : List Lexeme) :
    field? name (fieldLexemes name value ++ rest) = some (value, rest) := by
  have h := after?_append [.word name.toList, .mark ':'] (.word value :: .mark ',' :: rest)
  unfold field?
  show (after? _ ([.word name.toList, .mark ':'] ++ .word value :: .mark ',' :: rest)).bind _ = _
  rw [h]
  rfl

/-- The displacements of a list are read in order, up to its end. -/
theorem pairs?_append (rest : List Lexeme) : ∀ ds : List Displacement,
    pairs? (ds.flatMap displacementLexemes ++ ([.mark ']', .mark ','] ++ rest))
      = some (ds.map fun d => (d.factor, d.shift), rest)
  | [] => rfl
  | d :: ds => by
      have ih := pairs?_append rest ds
      rw [List.flatMap_cons, List.append_assoc]
      show pairs? (.mark '(' :: .word (Nat.toDigits 10 d.factor.toNat) :: .mark ','
        :: .word (Nat.toDigits 10 d.shift.toNat) :: .mark ')' :: .mark ','
        :: (ds.flatMap displacementLexemes ++ ([.mark ']', .mark ','] ++ rest))) = _
      rw [pairs?, word32?_toDigits, word32?_toDigits, ih]
      rfl

/-- The slots of a list are read in order, up to its end. -/
theorem slots?_append (rest : List Lexeme) : ∀ slots : List Slot,
    slots? (slots.flatMap slotLexemes ++ ([.mark ']', .mark ','] ++ rest))
      = some (slots.map fun s => (s.text, s.kind), rest)
  | [] => rfl
  | s :: slots => by
      have ih := slots?_append rest slots
      rw [List.flatMap_cons, List.append_assoc]
      show slots? (.mark '(' :: .text s.text.toList :: .mark ',' :: .word "TokenKind".toList
        :: .mark ':' :: .mark ':' :: .word s.kind.name.toList :: .mark ')' :: .mark ','
        :: (slots.flatMap slotLexemes ++ ([.mark ']', .mark ','] ++ rest))) = _
      rw [slots?, if_pos rfl, ih, String.ofList_toList, String.ofList_toList,
        TokenKind.ofName?_name]
      rfl

theorem table?_tableLexemes (t : HashTable) : table? (tableLexemes t) = some t.toStatic := by
  unfold table? tableLexemes
  simp only [after?_append, field?_append, pairs?_append, slots?_append, Option.bind_eq_bind,
    Option.bind_some, word64?_hexWord, number?_toDigits, if_pos]
  rfl

/-- The declaration of a table is read as the data of the table. -/
theorem read?_renderTable (t : HashTable) : read? (renderTable t).toList = some t.toStatic := by
  unfold read?
  rw [(reads_renderTable t).lexemes?, Option.bind_eq_bind, Option.bind_some]
  exact table?_tableLexemes t

/-- **An artifact denotes the table it is written for.** Whatever the file is headed with, its
part from the last heading line on is read as a declaration of the table's seed, lengths,
displacements and slots, all in order. So the data declared answers every lookup as the table
does, and no other table has an artifact with this declaration. -/
theorem render_denotes_table (t : HashTable) (h : Header) :
    ∃ part, declaration? (render t h).toList = some part ∧
      (∃ data, read? part = some data ∧
        data.seed = t.seed ∧ data.minLen = t.minLen ∧ data.maxLen = t.maxLen ∧
        data.displacements = t.displacements.map (fun d => (d.factor, d.shift)) ∧
        data.slots = t.slots.map (fun s => (s.text, s.kind)) ∧
        ∀ word, data.classify? word = t.lookup? word) ∧
      ∀ t' h', declaration? (render t' h').toList = some part → t' = t := by
  have hread := read?_renderTable t
  refine ⟨(renderTable t).toList, declaration?_render t h,
    ⟨t.toStatic, hread, rfl, rfl, rfl, rfl, rfl, t.classify?_toStatic⟩, ?_⟩
  intro t' h' hpart
  rw [declaration?_render, Option.some_inj] at hpart
  have hread' := read?_renderTable t'
  rw [hpart, hread, Option.some_inj] at hread'
  exact HashTable.toStatic_injective hread'.symm

end Artifact

end Reserved
