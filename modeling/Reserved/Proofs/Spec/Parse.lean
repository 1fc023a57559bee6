import Mathlib.Data.List.Pairwise
import Reserved.Proofs.Spec.Entry
import Reserved.Proofs.Spec.Order
import Reserved.Proofs.Spec.Section

/-!
# What a keyword file means

A keyword file is accepted when it has a live line, every live line spells an entry and no
keyword occurs on two of them. Otherwise it is rejected, and for one reason only: the fault
of the first live line that is not well formed or repeats a keyword, or that there is no live
line at all.

Both sides are stated on lines and their numbers. The parser is compared with them in one
induction over the live lines, which ends in acceptance or at the first fault; that the two
exclude each other and the first fault is unique turns this into an equivalence.
-/

namespace Reserved

namespace KeywordSpec

/-! ## The meaning of a file -/

/-- A file that defines keywords. -/
structure Accepted (src : List Char) : Prop where
  /-- There is a live line. -/
  some_line : ∃ n text, Live src n text
  /-- Every live line is well formed. -/
  well_formed : ∀ n text, Live src n text → ∃ word k, Spells text word k
  /-- No keyword occurs on two live lines. -/
  distinct : ∀ n m text text' word k k', Live src n text → Live src m text' →
    Spells text word k → Spells text' word k' → n = m

/-- The live lines before number `n` are well formed, and no keyword occurs on two of
them. -/
structure GoodBefore (src : List Char) (n : Nat) : Prop where
  well_formed : ∀ m < n, ∀ text, Live src m text → ∃ word k, Spells text word k
  distinct : ∀ m < n, ∀ m' < n, ∀ text text' word k k', Live src m text →
    Live src m' text' → Spells text word k → Spells text' word k' → m = m'

/-- What is wrong with the live line `n`. -/
inductive Fault (src : List Char) (n : Nat) : SpecError → Prop
  | offence {text : List Char} {e : SpecError} : Live src n text → Offence n text e →
      Fault src n e
  | duplicate {m : Nat} {text text' : List Char} {word : String} {k k' : TokenKind} :
      Live src n text → Spells text word k → m < n → Live src m text' →
      Spells text' word k' → Fault src n (.duplicate n m word)

/-- Why a file defines no keywords. -/
inductive Rejected (src : List Char) : SpecError → Prop
  | empty : (∀ n text, ¬ Live src n text) → Rejected src .empty
  | fault {n : Nat} {e : SpecError} : GoodBefore src n → Fault src n e → Rejected src e

/-! ## The first fault is unique -/

theorem Spells.unique {text : List Char} {word word' : String} {k k' : TokenKind}
    (h : Spells text word k) (h' : Spells text word' k') : word = word' ∧ k = k' := by
  have heq := (entryOfLine_of_spells 0 h).symm.trans (entryOfLine_of_spells 0 h')
  have hentry := Except.ok.inj heq
  exact ⟨congrArg KeywordEntry.text hentry, congrArg KeywordEntry.kind hentry⟩

theorem Spells.not_offence {n : Nat} {text : List Char} {word : String} {k : TokenKind}
    {e : SpecError} (h : Spells text word k) : ¬ Offence n text e := by
  intro hoffence
  have heq := (entryOfLine_of_spells n h).symm.trans (entryOfLine_of_offence hoffence)
  exact absurd heq (by simp)

theorem Live.unique {src : List Char} {n : Nat} {text text' : List Char}
    (h : Live src n text) (h' : Live src n text') : text = text' := by
  obtain ⟨raw, hraw, rfl⟩ := h.line
  obtain ⟨raw', hraw', rfl⟩ := h'.line
  rw [hraw] at hraw'
  rw [Option.some.inj hraw']

theorem GoodBefore.not_fault {src : List Char} {n m : Nat} {e : SpecError}
    (h : GoodBefore src n) (hm : m < n) : ¬ Fault src m e := by
  intro hfault
  cases hfault with
  | offence hlive hoffence =>
      obtain ⟨_, _, hspells⟩ := h.well_formed m hm _ hlive
      exact hspells.not_offence hoffence
  | @duplicate m' _ _ _ _ _ hlive hspells hlt hlive' hspells' =>
      have := h.distinct m hm m' (Nat.lt_trans hlt hm) _ _ _ _ _ hlive hlive' hspells hspells'
      omega

theorem Fault.unique {src : List Char} {n : Nat} {e e' : SpecError} (hgood : GoodBefore src n)
    (h : Fault src n e) (h' : Fault src n e') : e = e' := by
  cases h with
  | offence hlive hoffence =>
      cases h' with
      | offence hlive' hoffence' =>
          obtain rfl := hlive.unique hlive'
          have heq := (entryOfLine_of_offence hoffence).symm.trans
            (entryOfLine_of_offence hoffence')
          exact Except.error.inj heq
      | duplicate hlive' hspells' =>
          obtain rfl := hlive.unique hlive'
          exact absurd hoffence hspells'.not_offence
  | @duplicate m _ text₁ word _ _ hlive hspells hlt hfirst hfirstSpells =>
      cases h' with
      | offence hlive' hoffence' =>
          obtain rfl := hlive.unique hlive'
          exact absurd hoffence' hspells.not_offence
      | @duplicate m' _ _ _ _ _ hlive' hspells' hlt' hfirst' hfirstSpells' =>
          obtain rfl := hlive.unique hlive'
          obtain ⟨rfl, _⟩ := hspells.unique hspells'
          obtain rfl := hgood.distinct m hlt m' hlt' _ _ _ _ _ hfirst hfirst' hfirstSpells
            hfirstSpells'
          rfl

theorem Rejected.unique {src : List Char} {e e' : SpecError} (h : Rejected src e)
    (h' : Rejected src e') : e = e' := by
  have hlive : ∀ {n e}, Fault src n e → ∃ text, Live src n text := by
    intro n e hfault
    cases hfault with
    | offence hlive _ => exact ⟨_, hlive⟩
    | duplicate hlive => exact ⟨_, hlive⟩
  cases h with
  | empty hnone =>
      cases h' with
      | empty _ => rfl
      | fault _ hfault =>
          obtain ⟨text, ht⟩ := hlive hfault
          exact absurd ht (hnone _ text)
  | @fault n _ hgood hfault =>
      cases h' with
      | empty hnone =>
          obtain ⟨text, ht⟩ := hlive hfault
          exact absurd ht (hnone _ text)
      | @fault n' _ hgood' hfault' =>
          rcases Nat.lt_trichotomy n n' with hlt | rfl | hgt
          · exact absurd hfault (hgood'.not_fault hlt)
          · exact hfault.unique hgood hfault'
          · exact absurd hfault' (hgood.not_fault hgt)

theorem Accepted.not_rejected {src : List Char} {e : SpecError} (h : Accepted src) :
    ¬ Rejected src e := by
  intro hrejected
  cases hrejected with
  | empty hnone =>
      obtain ⟨n, text, hlive⟩ := h.some_line
      exact hnone n text hlive
  | @fault n _ _ hfault =>
      have hgood : GoodBefore src (n + 1) :=
        ⟨fun m _ => h.well_formed m, fun m _ m' _ => h.distinct m m'⟩
      exact hgood.not_fault (Nat.lt_succ_self n) hfault

/-! ## Runs of lines -/

/-- The entries that lines spell, when no keyword of theirs is among those of `seen` or is
repeated. -/
inductive Entries : List KeywordEntry → List NumberedLine → List KeywordEntry → Prop
  | nil {seen : List KeywordEntry} : Entries seen [] []
  | cons {seen entries : List KeywordEntry} {line : NumberedLine} {rest : List NumberedLine}
      {word : String} {k : TokenKind} : Spells line.2 word k → (∀ s ∈ seen, s.text ≠ word) →
      Entries (⟨word, k, line.1⟩ :: seen) rest entries →
      Entries seen (line :: rest) (⟨word, k, line.1⟩ :: entries)

/-- An entry comes from a line that spells it. -/
theorem Entries.exists_line {seen entries : List KeywordEntry} {ls : List NumberedLine}
    (h : Entries seen ls entries) :
    ∀ e ∈ entries, ∃ l ∈ ls, e.line = l.1 ∧ Spells l.2 e.text e.kind := by
  induction h with
  | nil => exact fun e he => absurd he (by simp)
  | cons hspells _ _ ih =>
      intro e he
      rcases List.mem_cons.mp he with rfl | he
      · exact ⟨_, List.mem_cons_self, rfl, hspells⟩
      · obtain ⟨l, hl, hline⟩ := ih e he
        exact ⟨l, List.mem_cons_of_mem _ hl, hline⟩

/-- A line leads to the entry that it spells. -/
theorem Entries.exists_entry {seen entries : List KeywordEntry} {ls : List NumberedLine}
    (h : Entries seen ls entries) :
    ∀ l ∈ ls, ∃ e ∈ entries, e.line = l.1 ∧ Spells l.2 e.text e.kind := by
  induction h with
  | nil => exact fun l hl => absurd hl (by simp)
  | cons hspells _ _ ih =>
      intro l hl
      rcases List.mem_cons.mp hl with rfl | hl
      · exact ⟨_, List.mem_cons_self, rfl, hspells⟩
      · obtain ⟨e, he, hline⟩ := ih l hl
        exact ⟨e, List.mem_cons_of_mem _ he, hline⟩

/-- No entry repeats a keyword seen before it. -/
theorem Entries.fresh {seen entries : List KeywordEntry} {ls : List NumberedLine}
    (h : Entries seen ls entries) : ∀ e ∈ entries, ∀ s ∈ seen, s.text ≠ e.text := by
  induction h with
  | nil => exact fun e he => absurd he (by simp)
  | cons _ hnew _ ih =>
      intro e he s hs
      rcases List.mem_cons.mp he with rfl | he
      · exact hnew s hs
      · exact ih e he s (List.mem_cons_of_mem _ hs)

theorem Entries.distinct {seen entries : List KeywordEntry} {ls : List NumberedLine}
    (h : Entries seen ls entries) : entries.Pairwise fun a b => a.text ≠ b.text := by
  induction h with
  | nil => exact List.Pairwise.nil
  | cons _ _ hrest ih =>
      exact List.Pairwise.cons (fun e he => hrest.fresh e he _ List.mem_cons_self) ih

/-- Entries with the same keyword come from the same line. -/
theorem Entries.line_unique {seen entries : List KeywordEntry} {ls : List NumberedLine}
    (h : Entries seen ls entries) {l l' : NumberedLine} {word : String} {k k' : TokenKind}
    (hl : l ∈ ls) (hl' : l' ∈ ls) (hspells : Spells l.2 word k)
    (hspells' : Spells l'.2 word k') : l.1 = l'.1 := by
  obtain ⟨e, he, hline, hword⟩ := h.exists_entry l hl
  obtain ⟨e', he', hline', hword'⟩ := h.exists_entry l' hl'
  have htext : e.text = e'.text :=
    (hword.unique hspells).1.trans (hword'.unique hspells').1.symm
  refine Classical.byContradiction fun hne => ?_
  have hne' : e ≠ e' := fun heq => hne (hline ▸ hline' ▸ congrArg KeywordEntry.line heq)
  have hsymm : Std.Symm fun a b : KeywordEntry => a.text ≠ b.text := ⟨fun _ _ => Ne.symm⟩
  exact h.distinct.forall he he' hne' htext

/-- Lines that spell the same keywords have the same entries, but for the line numbers. -/
theorem Entries.respelled {seen entries : List KeywordEntry} {ls : List NumberedLine}
    (h : Entries seen ls entries) {ls' : List NumberedLine}
    (hls : List.Forall₂ (fun l l' => ∀ word k, Spells l.2 word k → Spells l'.2 word k) ls ls')
    {seen' : List KeywordEntry}
    (hseen : seen'.map KeywordEntry.text = seen.map KeywordEntry.text) :
    ∃ entries', Entries seen' ls' entries' ∧
      entries'.map (fun e => (e.text, e.kind)) = entries.map fun e => (e.text, e.kind) := by
  induction h generalizing ls' seen' with
  | nil =>
      cases hls
      exact ⟨[], .nil, rfl⟩
  | @cons seen entries line rest word k hspells hnew _ ih =>
      cases hls with
      | @cons _ line' _ rest' hline hrest =>
          have hseen' : (⟨word, k, line'.1⟩ :: seen').map KeywordEntry.text
              = (⟨word, k, line.1⟩ :: seen).map KeywordEntry.text := by
            simp [hseen]
          obtain ⟨entries', hentries', heq⟩ := ih hrest hseen'
          have hnew' : ∀ s ∈ seen', s.text ≠ word := by
            intro s hs he
            have hmem : s.text ∈ seen.map KeywordEntry.text := hseen ▸ List.mem_map_of_mem hs
            obtain ⟨t, ht, htext⟩ := List.mem_map.mp hmem
            exact hnew t ht (htext.trans he)
          exact ⟨_, .cons (hline word k hspells) hnew' hentries', by simp [heq]⟩

/-- What is wrong with a line after the entries of `seen`. -/
inductive LineFault (seen : List KeywordEntry) (l : NumberedLine) : SpecError → Prop
  | offence {e : SpecError} : Offence l.1 l.2 e → LineFault seen l e
  | duplicate {word : String} {k : TokenKind} {first : KeywordEntry} : Spells l.2 word k →
      first ∈ seen → first.text = word → LineFault seen l (.duplicate l.1 first.line word)

/-- A line that spells a new keyword adds its entry to those of the lines after it. -/
theorem entriesOfLines_cons {seen : List KeywordEntry} {n : Nat} {text : List Char}
    {word : String} {k : TokenKind} (hspells : Spells text word k)
    (hnew : ∀ s ∈ seen, s.text ≠ word) (rest : List NumberedLine) :
    entriesOfLines seen ((n, text) :: rest)
      = (entriesOfLines (⟨word, k, n⟩ :: seen) rest).map (⟨word, k, n⟩ :: ·) := by
  have hfind : (seen.find? fun s => s.text == word) = none :=
    List.find?_eq_none.mpr fun s hs he => hnew s hs (beq_iff_eq.mp he)
  rw [entriesOfLines, entryOfLine_of_spells n hspells]
  dsimp only [bind, Except.bind]
  rw [hfind]
  cases entriesOfLines (⟨word, k, n⟩ :: seen) rest <;> rfl

theorem Entries.run {seen entries : List KeywordEntry} {ls : List NumberedLine}
    (h : Entries seen ls entries) : entriesOfLines seen ls = .ok entries := by
  induction h with
  | nil => rfl
  | cons hspells hnew _ ih =>
      rw [entriesOfLines_cons hspells hnew, ih]
      rfl

/-- **The parser goes through all lines or stops at the first fault.** -/
theorem entriesOfLines_cases (ls : List NumberedLine) :
    ∀ seen : List KeywordEntry,
      (∃ entries, Entries seen ls entries ∧ entriesOfLines seen ls = .ok entries) ∨
      ∃ before l after entries e, ls = before ++ l :: after ∧ Entries seen before entries ∧
        LineFault (entries.reverse ++ seen) l e ∧ entriesOfLines seen ls = .error e := by
  induction ls with
  | nil => exact fun seen => Or.inl ⟨[], .nil, rfl⟩
  | cons l rest ih =>
      intro seen
      obtain ⟨n, text⟩ := l
      rcases spells_or_offence n text with ⟨word, k, hspells⟩ | ⟨e, hoffence⟩
      · cases hfind : seen.find? fun s => s.text == word with
        | some first =>
            -- the first line with a keyword seen before ends the run
            have hfirst : first.text = word := by simpa using List.find?_some hfind
            refine Or.inr ⟨[], (n, text), rest, [], _, rfl, .nil,
              .duplicate hspells (List.mem_of_find?_eq_some hfind) hfirst, ?_⟩
            rw [entriesOfLines, entryOfLine_of_spells n hspells]
            dsimp only [bind, Except.bind]
            rw [hfind]
            rfl
        | none =>
            have hnew : ∀ s ∈ seen, s.text ≠ word := by
              intro s hs he
              exact List.find?_eq_none.mp hfind s hs (beq_iff_eq.mpr he)
            have hrun := entriesOfLines_cons (n := n) hspells hnew rest
            -- a fault further on is the fault of this run too
            rcases ih (⟨word, k, n⟩ :: seen) with ⟨entries, hentries, hok⟩ |
              ⟨before, l, after, entries, e, rfl, hentries, hfault, herr⟩
            · exact Or.inl ⟨_, .cons hspells hnew hentries, by rw [hrun, hok]; rfl⟩
            · refine Or.inr ⟨(n, text) :: before, l, after, _, e, rfl,
                .cons hspells hnew hentries, ?_, by rw [hrun, herr]; rfl⟩
              rw [List.reverse_cons, List.append_assoc]
              exact hfault
      · refine Or.inr ⟨[], (n, text), rest, [], e, rfl, .nil, .offence hoffence, ?_⟩
        rw [entriesOfLines, entryOfLine_of_offence hoffence]
        rfl

/-! ## Files -/

/-- What a specification says of the file it was parsed from. -/
structure Describes (spec : KeywordSpec) (src : List Char) : Prop where
  /-- The entries increase strictly by the bytes of their keywords. -/
  increasing : Increasing spec.entries
  /-- They are the entries that the live lines spell, with their line numbers. -/
  entries : ∀ e, e ∈ spec.entries ↔ ∃ text, Live src e.line text ∧ Spells text e.text e.kind

/-- **A specification holds the entries of the live lines, sorted**, and there is one of them. -/
theorem parse_eq_ok {src : List Char} {spec : KeywordSpec} :
    parse src = .ok spec ↔
      ∃ entries, Entries [] (liveLines src) entries ∧ entries ≠ [] ∧
        spec = ⟨entries.mergeSort entryLE⟩ := by
  have hparse : ∀ {entries}, Entries [] (liveLines src) entries → entries ≠ [] →
      parse src = .ok ⟨entries.mergeSort entryLE⟩ := by
    intro entries hentries hne
    unfold parse
    rw [hentries.run]
    show (if entries.isEmpty = true then _ else _) = _
    rw [if_neg (by simpa using hne)]
    rfl
  constructor
  · intro h
    rcases entriesOfLines_cases (liveLines src) [] with ⟨entries, hentries, hrun⟩ |
      ⟨_, _, _, _, _, _, _, _, hrun⟩
    · by_cases hne : entries = []
      · unfold parse at h
        rw [hrun, hne] at h
        exact absurd h (by simp [bind, Except.bind, throw, throwThe, MonadExceptOf.throw])
      · rw [hparse hentries hne] at h
        exact ⟨entries, hentries, hne, (Except.ok.inj h).symm⟩
    · unfold parse at h
      rw [hrun] at h
      exact absurd h (by simp [bind, Except.bind])
  · rintro ⟨entries, hentries, hne, rfl⟩
    exact hparse hentries hne

/-- A file whose live lines spell entries without repetition is accepted. -/
theorem parse_of_entries {src : List Char} {entries : List KeywordEntry}
    (h : Entries [] (liveLines src) entries) (hne : entries ≠ []) :
    ∃ spec, parse src = .ok spec ∧ Accepted src ∧ Describes spec src := by
  refine ⟨⟨entries.mergeSort entryLE⟩, parse_eq_ok.mpr ⟨entries, h, hne, rfl⟩, ⟨?_, ?_, ?_⟩,
    ⟨?_, ?_⟩⟩
  · obtain ⟨e, he⟩ := List.exists_mem_of_ne_nil _ hne
    obtain ⟨l, hl, _⟩ := h.exists_line e he
    exact ⟨l.1, l.2, mem_liveLines.mp hl⟩
  · intro n text hlive
    obtain ⟨e, _, _, hspells⟩ := h.exists_entry _ (mem_liveLines.mpr hlive)
    exact ⟨e.text, e.kind, hspells⟩
  · intro n m text text' word k k' hlive hlive' hspells hspells'
    exact h.line_unique (mem_liveLines.mpr hlive) (mem_liveLines.mpr hlive') hspells hspells'
  · exact increasing_mergeSort h.distinct
  · intro e
    show e ∈ entries.mergeSort entryLE ↔ _
    rw [List.mem_mergeSort]
    constructor
    · intro he
      obtain ⟨l, hl, hline, hspells⟩ := h.exists_line e he
      exact ⟨l.2, hline ▸ mem_liveLines.mp hl, hspells⟩
    · rintro ⟨text, hlive, hspells⟩
      obtain ⟨e', he', hline, hspells'⟩ := h.exists_entry _ (mem_liveLines.mpr hlive)
      obtain ⟨htext, hkind⟩ := hspells'.unique hspells
      -- the line determines the entry, so it is the one the parser made
      have heq : e' = e := by
        cases e
        cases e'
        rw [KeywordEntry.mk.injEq]
        exact ⟨htext, hkind, hline⟩
      exact heq ▸ he'

/-- The lines before the first fault are those with smaller numbers, and they are good. -/
theorem goodBefore_of_entries {src : List Char} {before after : List NumberedLine}
    {l : NumberedLine} {entries : List KeywordEntry} (hls : liveLines src = before ++ l :: after)
    (h : Entries [] before entries) : GoodBefore src l.1 := by
  have hsorted := pairwise_liveLines src
  rw [hls, List.pairwise_append, List.pairwise_cons] at hsorted
  have hbefore : ∀ m < l.1, ∀ text, Live src m text → (m, text) ∈ before := by
    intro m hm text hlive
    have hmem := mem_liveLines.mpr hlive
    rw [hls, List.mem_append, List.mem_cons] at hmem
    rcases hmem with hmem | rfl | hmem
    · exact hmem
    · exact absurd hm (Nat.lt_irrefl _)
    · exact absurd hm (Nat.lt_asymm (hsorted.2.1.1 _ hmem))
  refine ⟨fun m hm text hlive => ?_, fun m hm m' hm' text text' word k k' hlive hlive' => ?_⟩
  · obtain ⟨e, _, _, hspells⟩ := h.exists_entry _ (hbefore m hm text hlive)
    exact ⟨e.text, e.kind, hspells⟩
  · exact h.line_unique (hbefore m hm text hlive) (hbefore m' hm' text' hlive')

/-- The fault of a line is a fault of the file. -/
theorem fault_of_lineFault {src : List Char} {before after : List NumberedLine}
    {l : NumberedLine} {entries : List KeywordEntry} {e : SpecError}
    (hls : liveLines src = before ++ l :: after) (h : Entries [] before entries)
    (hfault : LineFault (entries.reverse ++ []) l e) : Fault src l.1 e := by
  have hlive : Live src l.1 l.2 :=
    mem_liveLines.mp (hls ▸ List.mem_append_right _ List.mem_cons_self)
  cases hfault with
  | offence hoffence => exact .offence hlive hoffence
  | @duplicate word k first hspells hmem hword =>
      rw [List.append_nil, List.mem_reverse] at hmem
      obtain ⟨l', hl', hline, hspells'⟩ := h.exists_line first hmem
      have hsorted := pairwise_liveLines src
      rw [hls, List.pairwise_append] at hsorted
      have hlt : first.line < l.1 := hline ▸ hsorted.2.2 l' hl' l List.mem_cons_self
      have hlive' : Live src first.line l'.2 :=
        hline ▸ mem_liveLines.mp (hls ▸ List.mem_append_left _ hl')
      exact .duplicate hlive hspells hlt hlive' (hword ▸ hspells')

/-- **Parsing accepts a file or rejects it, as the file deserves.** -/
theorem parse_cases (src : List Char) :
    (∃ spec, parse src = .ok spec ∧ Accepted src ∧ Describes spec src) ∨
      ∃ e, parse src = .error e ∧ Rejected src e := by
  rcases entriesOfLines_cases (liveLines src) [] with ⟨entries, hentries, hrun⟩ |
    ⟨before, l, after, entries, e, hls, hentries, hfault, hrun⟩
  · by_cases hne : entries = []
    · refine Or.inr ⟨.empty, ?_, .empty fun n text hlive => ?_⟩
      · unfold parse
        rw [hrun, hne]
        rfl
      · obtain ⟨_, he, _⟩ := hentries.exists_entry _ (mem_liveLines.mpr hlive)
        rw [hne] at he
        exact absurd he (by simp)
    · exact Or.inl (parse_of_entries hentries hne)
  · refine Or.inr ⟨e, ?_, .fault (goodBefore_of_entries hls hentries)
      (fault_of_lineFault hls hentries hfault)⟩
    unfold parse
    rw [hrun]
    rfl

/-- What is known of a specification that was parsed. -/
theorem describes_of_parse {src : List Char} {spec : KeywordSpec} (h : parse src = .ok spec) :
    Accepted src ∧ Describes spec src := by
  rcases parse_cases src with ⟨spec', hok, haccepted, hdescribes⟩ | ⟨e, herr, _⟩
  · rw [hok] at h
    exact ⟨haccepted, Except.ok.inj h ▸ hdescribes⟩
  · rw [herr] at h
    exact absurd h (by simp)

/-- A parsed specification has an entry. -/
theorem entries_ne_nil_of_parse {src : List Char} {spec : KeywordSpec}
    (h : parse src = .ok spec) : spec.entries ≠ [] := by
  obtain ⟨haccepted, hdescribes⟩ := describes_of_parse h
  obtain ⟨n, text, hlive⟩ := haccepted.some_line
  obtain ⟨word, k, hspells⟩ := haccepted.well_formed n text hlive
  have hmem : ⟨word, k, n⟩ ∈ spec.entries := (hdescribes.entries _).mpr ⟨text, hlive, hspells⟩
  exact List.ne_nil_of_mem hmem

/-- No entry of a parsed specification has the sentinel as its kind. -/
theorem kind_ne_sentinel_of_parse {src : List Char} {spec : KeywordSpec}
    (h : parse src = .ok spec) : ∀ e ∈ spec.entries, e.kind ≠ .sentinel := by
  intro e he
  obtain ⟨_, _, _, _, _, _, hkind⟩ := ((describes_of_parse h).2.entries e).mp he
  exact hkind

/-- **A keyword file is accepted exactly when its live lines are well formed and do not
repeat a keyword.** The entries are then those of the live lines, sorted; otherwise the
error is the one the file deserves, that of its first fault. -/
theorem parse_meets_grammar (src : List Char) :
    ((∃ spec, parse src = .ok spec) ↔ Accepted src) ∧
    (∀ spec, parse src = .ok spec → Increasing spec.entries ∧
      ∀ e, e ∈ spec.entries ↔ ∃ text, Live src e.line text ∧ Spells text e.text e.kind) ∧
    (∀ e, parse src = .error e ↔ Rejected src e) := by
  refine ⟨⟨fun ⟨spec, h⟩ => (describes_of_parse h).1, fun h => ?_⟩, fun spec h => ?_,
    fun e => ⟨fun h => ?_, fun h => ?_⟩⟩
  · rcases parse_cases src with ⟨spec, hok, _⟩ | ⟨e, _, hrejected⟩
    · exact ⟨spec, hok⟩
    · exact absurd hrejected h.not_rejected
  · exact ⟨(describes_of_parse h).2.increasing, (describes_of_parse h).2.entries⟩
  · rcases parse_cases src with ⟨spec, hok, _⟩ | ⟨e', herr, hrejected⟩
    · rw [hok] at h
      exact absurd h (by simp)
    · rw [herr] at h
      exact Except.error.inj h ▸ hrejected
  · rcases parse_cases src with ⟨spec, _, haccepted, _⟩ | ⟨e', herr, hrejected⟩
    · exact absurd h haccepted.not_rejected
    · rw [herr, hrejected.unique h]

end KeywordSpec

end Reserved
