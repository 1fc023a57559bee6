import Mathlib.Data.List.Forall2
import Mathlib.Data.List.Nodup
import Mathlib.Data.List.Perm.Basic
import Reserved.Proofs.Spec.Parse

/-!
# The keywords that a file defines

A file defines a keyword by a live line that spells it. The specification keeps the keyword,
its kind and the number of the line, in the order of the keywords. So two files that define
the same keywords have specifications that differ in the line numbers and in nothing else: a
sorted list without repetition is determined by its members.

Files whose live lines spell the same one by one define the same keywords, and if one of them is
accepted so is the other. A heading above the keyword section is such a difference: it moves the
lines down, and defines nothing.
-/

namespace Reserved

namespace KeywordSpec

/-- A live line of the file spells `word` with the kind `k`. -/
def Defines (src : List Char) (word : String) (k : TokenKind) : Prop :=
  ∃ n text, Live src n text ∧ Spells text word k

/-- The keywords with their kinds, without the lines they are from. -/
def pairs (spec : KeywordSpec) : List (String × TokenKind) :=
  spec.entries.map fun e => (e.text, e.kind)

theorem mem_pairs_iff {src : List Char} {spec : KeywordSpec} (h : parse src = .ok spec)
    {word : String} {k : TokenKind} : (word, k) ∈ spec.pairs ↔ Defines src word k := by
  have hentries := (describes_of_parse h).2.entries
  constructor
  · intro hmem
    obtain ⟨e, he, heq⟩ := List.mem_map.mp hmem
    obtain ⟨rfl, rfl⟩ := Prod.mk.inj heq
    obtain ⟨text, hlive, hspells⟩ := (hentries e).mp he
    exact ⟨e.line, text, hlive, hspells⟩
  · rintro ⟨n, text, hlive, hspells⟩
    exact List.mem_map.mpr ⟨⟨word, k, n⟩, (hentries _).mpr ⟨text, hlive, hspells⟩, rfl⟩

/-- The keywords increase strictly by their bytes. -/
theorem pairwise_pairs {src : List Char} {spec : KeywordSpec} (h : parse src = .ok spec) :
    spec.pairs.Pairwise fun a b => a.1.utf8 < b.1.utf8 :=
  List.pairwise_map.mpr (describes_of_parse h).2.increasing

theorem nodup_pairs {src : List Char} {spec : KeywordSpec} (h : parse src = .ok spec) :
    spec.pairs.Nodup := by
  refine List.Nodup.of_map Prod.fst ?_
  rw [pairs, List.map_map]
  exact (describes_of_parse h).2.increasing.nodup_texts

/-- The order of the keywords is no choice. -/
theorem pairs_eq_of_perm {src src' : List Char} {spec spec' : KeywordSpec}
    (h : parse src = .ok spec) (h' : parse src' = .ok spec')
    (hperm : spec.pairs.Perm spec'.pairs) : spec.pairs = spec'.pairs := by
  refine List.Perm.eq_of_pairwise (fun a b _ _ hab hba => ?_) (pairwise_pairs h)
    (pairwise_pairs h') hperm
  exact absurd hba (List.lt_asymm hab)

/-- **Files that define the same keywords have the same keywords in the same order.** -/
theorem pairs_eq_of_defines {src src' : List Char} {spec spec' : KeywordSpec}
    (h : parse src = .ok spec) (h' : parse src' = .ok spec')
    (hsame : ∀ word k, Defines src word k ↔ Defines src' word k) : spec.pairs = spec'.pairs := by
  refine pairs_eq_of_perm h h' ?_
  refine (List.perm_ext_iff_of_nodup (nodup_pairs h) (nodup_pairs h')).mpr fun ⟨word, k⟩ => ?_
  rw [mem_pairs_iff h, mem_pairs_iff h']
  exact hsame word k

/-! ## Lines that agree -/

/-- The second line delimits if the first one does, and spells what the first one spells. -/
structure Agree (l l' : NumberedLine) : Prop where
  delimiter : isDelimiter l' = isDelimiter l
  spells : ∀ word k, Spells l.2 word k → Spells l'.2 word k

theorem agree_of_text {l l' : NumberedLine} (h : l.2 = l'.2) : Agree l l' := by
  refine ⟨?_, fun word k hspells => h ▸ hspells⟩
  unfold isDelimiter
  rw [h]

/-- Files whose live lines agree have the same keywords. -/
theorem parse_of_agree {src src' : List Char} {spec : KeywordSpec} (h : parse src = .ok spec)
    (hlines : List.Forall₂ Agree (liveLines src) (liveLines src')) :
    ∃ spec', parse src' = .ok spec' ∧ spec'.pairs = spec.pairs := by
  obtain ⟨entries, hentries, hne, rfl⟩ := parse_eq_ok.mp h
  obtain ⟨entries', hentries', heq⟩ :=
    hentries.respelled (hlines.imp fun _ _ hl => hl.spells) rfl
  have hne' : entries' ≠ [] := by
    rintro rfl
    exact hne (List.map_eq_nil_iff.mp heq.symm)
  have h' := parse_eq_ok.mpr ⟨entries', hentries', hne', rfl⟩
  refine ⟨_, h', pairs_eq_of_perm h' h ?_⟩
  have hsorted : ∀ es : List KeywordEntry, (pairs ⟨es.mergeSort entryLE⟩).Perm
      (es.map fun e => (e.text, e.kind)) :=
    fun es => (List.mergeSort_perm es entryLE).map _
  exact (hsorted entries').trans (heq ▸ (hsorted entries).symm)

/-- **Below a heading the same keywords are defined.** -/
theorem Heading.parse_append {heading src : List Char} (h : Heading heading)
    (hsrc : ∃ j, Delimits src j) {spec : KeywordSpec} (hspec : parse src = .ok spec) :
    ∃ spec', parse (heading ++ src) = .ok spec' ∧ spec'.pairs = spec.pairs := by
  refine parse_of_agree hspec ?_
  rw [h.liveLines_append hsrc, List.forall₂_map_right_iff]
  exact List.forall₂_same.mpr fun l _ => agree_of_text rfl

end KeywordSpec

end Reserved
