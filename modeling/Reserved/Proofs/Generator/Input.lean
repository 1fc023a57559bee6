import Reserved.Generator.Input
import Reserved.Proofs.Spec.Keywords
import Reserved.Proofs.Spec.Spelling

/-!
# Reading a generator's input as a keyword file

The input of a generator is written line by line, and a keyword file is read line by line. The
declarations come to stand above the first delimiter, whatever header and type they name, since
none of their lines trims to one. Below it every line spells the entry it was written for: the
type in front of a kind may hold anything but a comma, as the kind is what follows the last
`::`. The entries are in order already, so sorting them again changes nothing.
-/

namespace Reserved

namespace GeneratorConfig

open KeywordSpec

variable {cfg : GeneratorConfig} {spec : KeywordSpec}

/-! ## The lines that are written -/

/-- Lines, each ended by a line feed. -/
def ended (ls : List String) : String :=
  String.join (ls.map (· ++ "\n"))

def declarations (cfg : GeneratorConfig) : List String :=
  ["%\x7b", "#include \"" ++ cfg.headerInclude ++ "\"", "#include <cstring>", "%\x7d",
    "%language=C++", "%struct-type", "%readonly-tables", "%global-table", "%compare-lengths",
    "%define class-name perfect_hash", "%define lookup-function-name get_token",
    "struct keyword_hash_entry \x7b const char* name; " ++ cfg.kindType ++ " kind; \x7d;"]

def entryLine (cfg : GeneratorConfig) (e : KeywordEntry) : String :=
  e.text ++ ", " ++ cfg.kindType ++ "::" ++ e.kind.name

/-- The keyword section with its two delimiters. -/
def sectionLines (cfg : GeneratorConfig) (spec : KeywordSpec) : List String :=
  "%%" :: (spec.entries.map (entryLine cfg) ++ ["%%"])

theorem toList_ended (ls : List String) :
    (ended ls).toList = (ls.map String.toList).flatMap (· ++ ['\n']) := by
  simp [ended, String.toList_join, List.flatMap_map]

theorem getLast?_ended {ls : List String} (h : ls ≠ []) :
    (ended ls).toList.getLast? = some '\n' := by
  obtain ⟨front, last, rfl⟩ := (List.eq_nil_or_concat ls).resolve_left h
  rw [toList_ended, List.concat_eq_append, List.map_append, List.flatMap_append, List.map_singleton,
    List.flatMap_singleton, ← List.append_assoc, List.getLast?_concat]

theorem lines_toList_ended {ls : List String} (h : ∀ line ∈ ls, '\n' ∉ line.toList) :
    lines (ended ls).toList = (ls.map String.toList).map dropReturn := by
  rw [toList_ended, lines_ended]
  intro line hline
  obtain ⟨s, hs, rfl⟩ := List.mem_map.mp hline
  exact h s hs

theorem renderDeclarations_eq (cfg : GeneratorConfig) :
    cfg.renderDeclarations = ended (declarations cfg) := by
  unfold renderDeclarations declarations entryStruct ended String.join
  simp only [List.map_cons, List.map_nil, List.foldl_cons, List.foldl_nil, toString,
    String.empty_append, String.append_assoc, String.reduceAppend]

theorem inputText_eq (cfg : GeneratorConfig) (spec : KeywordSpec) :
    cfg.inputText spec = ended (declarations cfg) ++ ended (sectionLines cfg spec) := by
  rw [← String.toList_inj]
  simp [inputText, renderDeclarations_eq, renderEntry, sectionLines, entryLine, toList_ended,
    String.toList_join, List.flatMap_map, toString]

/-! ## The declarations -/

/-- A type or a header that stays on its line. -/
structure OneLine (cfg : GeneratorConfig) : Prop where
  kindType : '\n' ∉ cfg.kindType.toList
  headerInclude : '\n' ∉ cfg.headerInclude.toList

/-- **No declaration is a delimiter**, and none has a line feed in it. -/
theorem declaration_plain (h : OneLine cfg) :
    ∀ line ∈ declarations cfg, '\n' ∉ line.toList ∧ trim line.toList ≠ ['%', '%'] := by
  have hhead : ∀ {c : Char} (rest : List Char), isBlank c = false → c ≠ '%' →
      trim (c :: rest) ≠ ['%', '%'] := by
    intro c rest hblank hc heq
    have hfirst := head?_trim hblank rest
    rw [heq] at hfirst
    exact hc (Option.some.inj hfirst).symm
  simp only [declarations, List.forall_mem_cons]
  refine ⟨by decide, ⟨?_, ?_⟩, by decide, by decide, by decide, by decide, by decide, by decide,
    by decide, by decide, by decide, ⟨?_, ?_⟩, by simp⟩
  · simp only [String.toList_append, List.mem_append, h.headerInclude, or_false]
    decide
  · rw [String.toList_append, String.toList_append]
    exact hhead _ (by decide) (by decide)
  · simp only [String.toList_append, List.mem_append, h.kindType, or_false]
    decide
  · rw [String.toList_append, String.toList_append]
    exact hhead _ (by decide) (by decide)

/-- The declarations stand above the keyword section. -/
theorem heading_declarations (h : OneLine cfg) : Heading (ended (declarations cfg)).toList := by
  refine ⟨Or.inr (getLast?_ended (List.cons_ne_nil _ _)), fun line hline => ?_⟩
  rw [lines_toList_ended fun line hline => (declaration_plain h line hline).1] at hline
  obtain ⟨raw, hraw, rfl⟩ := List.mem_map.mp hline
  obtain ⟨s, hs, rfl⟩ := List.mem_map.mp hraw
  rw [trim_dropReturn]
  exact (declaration_plain h s hs).2

theorem length_declarations (h : OneLine cfg) :
    (lines (ended (declarations cfg)).toList).length = 12 := by
  rw [lines_toList_ended fun line hline => (declaration_plain h line hline).1, List.length_map,
    List.length_map]
  rfl

/-! ## The entries -/

/-- **The line of an entry spells it**, whatever the type is but for a comma. -/
theorem spells_entryLine {text : List Char} {e : KeywordEntry} (hkind : ',' ∉ cfg.kindType.toList)
    (h : Spells text e.text e.kind) : Spells (trim (entryLine cfg e).toList) e.text e.kind := by
  obtain ⟨_, -, hname, -, hident⟩ := h
  have hline : (entryLine cfg e).toList
      = e.text.toList ++ ',' :: ((' ' :: cfg.kindType.toList) ++ ':' :: ':' :: e.kind.name.toList) := by
    simp [entryLine, String.toList_append]
  have hword : ',' ∉ e.text.toList := not_mem_of_isWordPart hname.isWordPart (by decide)
  have hcomma : ',' ∉ e.kind.name.toList :=
    not_mem_of_isWordPart (Source.isWordPart_of_mem_name e.kind) (by decide)
  rw [hline]
  refine spells_trim.mpr ⟨hword, ?_, ?_, hname, (qualified_name e.kind).prepend _, hident⟩
  · simp [hkind, hcomma]
  · rw [hname.trim_eq]
    exact hname.unquotes

/-- Entries on lines from number `n + 1` on. -/
def relined (n : Nat) (entries : List KeywordEntry) : List KeywordEntry :=
  (entries.zipIdx n).map fun (e, i) => { e with line := i + 1 }

theorem relined_cons (n : Nat) (e : KeywordEntry) (rest : List KeywordEntry) :
    relined n (e :: rest) = { e with line := n + 1 } :: relined (n + 1) rest :=
  rfl

theorem map_relined {α : Type} (f : String → TokenKind → α) (n : Nat)
    (entries : List KeywordEntry) :
    (relined n entries).map (fun e => f e.text e.kind) = entries.map fun e => f e.text e.kind := by
  induction entries generalizing n with
  | nil => rfl
  | cons e rest ih => rw [relined_cons, List.map_cons, List.map_cons, ih]

/-- Entries that increase are spelled by their lines without repetition. -/
theorem entries_numbered {entries : List KeywordEntry} (hinc : Increasing entries)
    (hspells : ∀ e ∈ entries, Spells (trim (entryLine cfg e).toList) e.text e.kind) (n : Nat)
    {seen : List KeywordEntry} (hseen : ∀ s ∈ seen, ∀ e ∈ entries, s.text ≠ e.text) :
    Entries seen (numbered n (entries.map fun e => (entryLine cfg e).toList))
      (relined n entries) := by
  induction entries generalizing n seen with
  | nil => exact .nil
  | cons e rest ih =>
      obtain ⟨hfirst, hrest⟩ := List.pairwise_cons.mp hinc
      have hnew : ∀ s ∈ seen, s.text ≠ e.text := fun s hs => hseen s hs e List.mem_cons_self
      rw [List.map_cons, numbered_cons, relined_cons]
      refine .cons (hspells e List.mem_cons_self) hnew
        (ih hrest (fun x hx => hspells x (List.mem_cons_of_mem e hx)) (n + 1) ?_)
      intro s hs x hx
      rcases List.mem_cons.mp hs with rfl | hs
      · intro heq
        have hlt := hfirst x hx
        rw [← heq] at hlt
        exact absurd hlt (List.lt_irrefl _)
      · exact hseen s hs x (List.mem_cons_of_mem e hx)

/-- Entries that increase are sorted already, whatever lines they are on. -/
theorem mergeSort_relined {entries : List KeywordEntry} (hinc : Increasing entries) (n : Nat) :
    (relined n entries).mergeSort entryLE = relined n entries := by
  refine List.mergeSort_of_pairwise ?_
  have htexts : (entries.map KeywordEntry.text).Pairwise fun a b => compareBytes a b = .lt :=
    List.pairwise_map.mpr (hinc.imp compareBytes_eq_lt.mpr)
  have hmap : (relined n entries).map KeywordEntry.text = entries.map KeywordEntry.text :=
    map_relined (fun text _ => text) n entries
  rw [← hmap, List.pairwise_map] at htexts
  refine htexts.imp fun {a b} hlt => ?_
  unfold entryLE
  rw [hlt]
  rfl

/-! ## The section -/

/-- No line of the section has a line feed in it. -/
theorem sectionLine_plain (hfeed : '\n' ∉ cfg.kindType.toList)
    (hnames : ∀ e ∈ spec.entries, IsName e.text.toList) :
    ∀ line ∈ sectionLines cfg spec, '\n' ∉ line.toList := by
  have hdelim : '\n' ∉ "%%".toList := by decide
  intro line hline
  rcases List.mem_cons.mp hline with rfl | hline
  · exact hdelim
  rcases List.mem_append.mp hline with hline | hline
  · obtain ⟨e, he, rfl⟩ := List.mem_map.mp hline
    have hword : '\n' ∉ e.text.toList :=
      not_mem_of_isWordPart (hnames e he).isWordPart (by decide)
    have hname : '\n' ∉ e.kind.name.toList :=
      not_mem_of_isWordPart (Source.isWordPart_of_mem_name e.kind) (by decide)
    simp [entryLine, String.toList_append, hword, hfeed, hname]
  · rw [List.mem_singleton.mp hline]
    exact hdelim

/-- The live lines of the section are those of the entries. -/
theorem liveLines_section (hplain : ∀ line ∈ sectionLines cfg spec, '\n' ∉ line.toList)
    (hspells : ∀ e ∈ spec.entries, Spells (trim (entryLine cfg e).toList) e.text e.kind) :
    liveLines (ended (sectionLines cfg spec)).toList
      = numbered 1 (spec.entries.map fun e => (entryLine cfg e).toList) := by
  have hlines : (lines (ended (sectionLines cfg spec)).toList).map trim
      = ((sectionLines cfg spec).map String.toList).map trim := by
    rw [lines_toList_ended hplain, List.map_map]
    exact List.map_congr_left fun line _ => trim_dropReturn line
  have hnumbered : numberedLines (ended (sectionLines cfg spec)).toList
      = [] ++ (1, ['%', '%']) :: (numbered 1 (spec.entries.map fun e => (entryLine cfg e).toList)
        ++ (1 + spec.entries.length + 1, ['%', '%']) :: []) := by
    refine (numbered_congr hlines 0).trans ?_
    rw [sectionLines, List.map_cons, List.map_append, List.map_map, numbered_cons, numbered_append,
      List.length_map]
    rfl
  have hentry : ∀ l ∈ numbered 1 (spec.entries.map fun e => (entryLine cfg e).toList),
      ∃ e : KeywordEntry, Spells l.2 e.text e.kind := by
    intro l hl
    obtain ⟨_, hmem, hline⟩ := exists_of_mem_numbered hl
    obtain ⟨e, he, rfl⟩ := List.mem_map.mp hmem
    exact ⟨e, hline ▸ hspells e he⟩
  unfold liveLines
  rw [hnumbered, keywordSection_between (by simp) rfl (fun l hl => ?_) rfl,
    List.filter_eq_self.mpr fun l hl => ?_]
  · obtain ⟨e, he⟩ := hentry l hl
    rw [he.not_comment]
    rfl
  · obtain ⟨e, he⟩ := hentry l hl
    exact he.not_delimiter

/-- **What a generator is given to read is a keyword file for the same keywords**, in the same
order. The first entry is on line 14, below the declarations and the delimiter, and the others
follow it line by line. The type may hold anything but a comma and a line feed, and the header
anything but a line feed. -/
theorem parse_inputText {src : List Char} {spec : KeywordSpec} (h : parse src = .ok spec)
    {cfg : GeneratorConfig} (hcomma : ',' ∉ cfg.kindType.toList)
    (hfeed : '\n' ∉ cfg.kindType.toList) (hheader : '\n' ∉ cfg.headerInclude.toList) :
    ∃ spec', parse (cfg.inputText spec).toList = .ok spec' ∧ spec'.pairs = spec.pairs ∧
      ∀ i e, spec'.entries[i]? = some e → e.line = 14 + i := by
  have honeLine : OneLine cfg := ⟨hfeed, hheader⟩
  obtain ⟨hinc, hentries⟩ := (describes_of_parse h).2
  have hspells : ∀ e ∈ spec.entries, Spells (trim (entryLine cfg e).toList) e.text e.kind := by
    intro e he
    obtain ⟨_, _, hspells⟩ := (hentries e).mp he
    exact spells_entryLine hcomma hspells
  have hplain : ∀ line ∈ sectionLines cfg spec, '\n' ∉ line.toList := by
    refine sectionLine_plain hfeed fun e he => ?_
    obtain ⟨_, -, hname, -⟩ := hspells e he
    exact hname
  have hdelim : ∃ j, Delimits (ended (sectionLines cfg spec)).toList j := by
    refine ⟨0, ['%', '%'], ?_, by decide⟩
    rw [lines_toList_ended hplain]
    rfl
  -- the section moves down by the declarations
  have hlive : liveLines (cfg.inputText spec).toList
      = numbered 13 (spec.entries.map fun e => (entryLine cfg e).toList) := by
    rw [inputText_eq, String.toList_append, (heading_declarations honeLine).liveLines_append hdelim,
      length_declarations honeLine, liveLines_section hplain hspells, map_below_numbered]
  have hne : relined 13 spec.entries ≠ [] := by
    simpa [relined] using entries_ne_nil_of_parse h
  have hrun : Entries [] (liveLines (cfg.inputText spec).toList) (relined 13 spec.entries) := by
    rw [hlive]
    exact entries_numbered hinc hspells 13 (by simp)
  refine ⟨⟨relined 13 spec.entries⟩, ?_, map_relined Prod.mk 13 spec.entries, fun i e hi => ?_⟩
  · refine parse_eq_ok.mpr ⟨_, hrun, hne, ?_⟩
    rw [mergeSort_relined hinc]
  · show e.line = 14 + i
    simp only [relined, List.getElem?_map, List.getElem?_zipIdx, Option.map_map,
      Option.map_eq_some_iff] at hi
    obtain ⟨_, _, rfl⟩ := hi
    show 13 + i + 1 = 14 + i
    omega

/-- The type looks like a comment, a delimiter and a path at once. -/
theorem parse_inputText_odd_type :
    ∃ spec, parse (inputText { standard with kindType := "\"# %%::", headerInclude := "%%" }
        ⟨[⟨"if", .ifWord, 1⟩]⟩).toList = .ok spec ∧
      spec.pairs = [("if", .ifWord)] ∧ ∀ i e, spec.entries[i]? = some e → e.line = 14 + i := by
  have hparse : parse "if,If".toList = .ok ⟨[⟨"if", .ifWord, 1⟩]⟩ := by
    decide +kernel
  exact parse_inputText hparse (by decide) (by decide) (by decide)

end GeneratorConfig

end Reserved
