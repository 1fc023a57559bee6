import Mathlib.Data.List.Iterate
import Mathlib.Data.List.Permutation
import Reserved.Proofs.Spec.Lookup
import Reserved.Proofs.Table.Search
import Reserved.Table.Build

/-!
# The table that is built

A perfect placement says everything about the table: its slots are the entries in another
order, and the position of a keyword is the slot with its entry. A word that is no keyword
also comes to some slot, but the slot holds the bytes of a keyword, so the comparison turns
it away.

The table therefore passes its own verification, and building it can only fail where the
search does.
-/

namespace Reserved

namespace KeywordSpec

/-- The bytes of the keywords. -/
def words (spec : KeywordSpec) : List (List UInt8) :=
  spec.entries.map fun e => e.text.utf8

theorem length_words (spec : KeywordSpec) : spec.words.length = spec.length := by
  rw [words, List.length_map, length]

end KeywordSpec

namespace HashTable

/-! ## The slots -/

/-- The slot that holds an entry. -/
def slotOfEntry (e : KeywordEntry) : Slot := ⟨e.text, e.kind⟩

/-- The slot that holds the entry with a number. -/
def slotOfNumber (entries : List KeywordEntry) (i : Nat) : Option Slot :=
  entries[i]?.map slotOfEntry

theorem slots_ofPlacement (spec : KeywordSpec) (p : Placement) :
    (ofPlacement spec p).slots
      = p.order.filterMap fun word => word.bind (slotOfNumber spec.entries) := rfl

/-- All numbers in order give all entries in order. -/
theorem filterMap_slotOfNumber_range :
    ∀ entries : List KeywordEntry,
      (List.range entries.length).filterMap (slotOfNumber entries) = entries.map slotOfEntry
  | [] => rfl
  | e :: rest => by
      have hrest : slotOfNumber (e :: rest) ∘ Nat.succ = slotOfNumber rest := by
        funext i
        rfl
      have hfirst : slotOfNumber (e :: rest) 0 = some (slotOfEntry e) := rfl
      rw [List.length_cons, List.range_succ_eq_map, List.filterMap_cons_some hfirst,
        List.filterMap_map, hrest, filterMap_slotOfNumber_range rest, List.map_cons]

/-- Where nothing is left out, positions are kept. -/
theorem getElem?_filterMap_of_isSome {α β : Type} {f : α → Option β} :
    ∀ {l : List α}, (∀ x ∈ l, (f x).isSome = true) →
      ∀ i : Nat, (l.filterMap f)[i]? = (l[i]?).bind f
  | [], _, i => by simp
  | x :: rest, h, i => by
      obtain ⟨y, hy⟩ := Option.isSome_iff_exists.mp (h x List.mem_cons_self)
      rw [List.filterMap_cons_some hy]
      cases i with
      | zero => exact hy.symm
      | succ i =>
          rw [List.getElem?_cons_succ, List.getElem?_cons_succ]
          exact getElem?_filterMap_of_isSome (fun z hz => h z (List.mem_cons_of_mem _ hz)) i

section Perfect

variable {spec : KeywordSpec} {p : Placement}

/-- **The slots are the entries, in another order.** -/
theorem slots_perm (h : Placement.Perfect spec.words p) :
    (ofPlacement spec p).slots.Perm (spec.entries.map slotOfEntry) := by
  have hcomplete := h.complete.filterMap (slotOfNumber spec.entries)
  rw [List.filterMap_filterMap, KeywordSpec.length_words, KeywordSpec.length,
    filterMap_slotOfNumber_range] at hcomplete
  rw [slots_ofPlacement]
  exact hcomplete

theorem length_slots (h : Placement.Perfect spec.words p) :
    (ofPlacement spec p).slots.length = spec.length := by
  rw [(slots_perm h).length_eq, List.length_map, KeywordSpec.length]

/-- A slot with the number of a word holds the entry of that word. -/
theorem getElem?_slots (h : Placement.Perfect spec.words p) {slot i : Nat} {e : KeywordEntry}
    (hslot : p.order[slot]? = some (some i)) (he : spec.entries[i]? = some e) :
    (ofPlacement spec p).slots[slot]? = some (slotOfEntry e) := by
  -- no slot is free, so none is left out and the entries stand where their words stand
  have hsome : ∀ x ∈ p.order, (x.bind (slotOfNumber spec.entries)).isSome = true := by
    intro x hx
    obtain ⟨j, rfl⟩ := Option.isSome_iff_exists.mp (h.full x hx)
    have hj : j ∈ List.range spec.words.length :=
      h.complete.subset (List.mem_filterMap.mpr ⟨some j, hx, rfl⟩)
    rw [List.mem_range, KeywordSpec.length_words] at hj
    have hget : spec.entries[j]? = some spec.entries[j] := List.getElem?_eq_getElem hj
    show (Option.map slotOfEntry (spec.entries[j]?)).isSome = true
    rw [hget]
    rfl
  rw [slots_ofPlacement, getElem?_filterMap_of_isSome hsome, hslot]
  show Option.map slotOfEntry (spec.entries[i]?) = _
  rw [he]
  rfl

/-! ## Lookups -/

theorem displacements_ne_nil (h : Placement.Perfect spec.words p) (hne : spec.entries ≠ []) :
    p.displacements ≠ [] := by
  intro hnil
  have hlength := h.length_displacements
  rw [hnil, KeywordSpec.length_words] at hlength
  have hpos : 0 < spec.length := List.length_pos_iff.mpr hne
  have : 0 = (spec.length + 4) / 5 := hlength
  omega

/-- **A keyword is found as its own kind.** -/
theorem lookup?_of_mem (h : Placement.Perfect spec.words p) {e : KeywordEntry}
    (he : e ∈ spec.entries) : (ofPlacement spec p).lookup? e.text.utf8 = some e.kind := by
  have hne : spec.entries ≠ [] := List.ne_nil_of_mem he
  obtain ⟨i, hi⟩ := List.mem_iff_getElem?.mp he
  have hword : spec.words[i]? = some e.text.utf8 := by
    rw [KeywordSpec.words, List.getElem?_map, hi]
    rfl
  obtain ⟨slot, hposition, hslot⟩ := h.stands i _ hword
  -- the search counted words where a lookup counts slots
  rw [KeywordSpec.length_words, ← length_slots h] at hposition
  have hlen : spec.minLen ≤ e.text.utf8.length ∧ e.text.utf8.length ≤ spec.maxLen :=
    ⟨(KeywordSpec.minLen_spec hne).2 e he, (KeywordSpec.maxLen_spec hne).2 e he⟩
  rw [lookup?_of_position hlen (displacements_ne_nil h hne) hposition (getElem?_slots h hslot hi)]
  exact congrArg some (if_pos rfl)

/-- **Any other word is no keyword.** -/
theorem lookup?_of_not_mem (h : Placement.Perfect spec.words p) (hn : spec.length < 2 ^ 32)
    {word : List UInt8} (hword : ∀ e ∈ spec.entries, e.text.utf8 ≠ word) :
    (ofPlacement spec p).lookup? word = some .sentinel := by
  have hbuckets : p.displacements.length < 2 ^ 32 := by
    rw [h.length_displacements, KeywordSpec.length_words]
    exact Placement.bucketCount_lt hn
  have hslots : (ofPlacement spec p).slots.length < 2 ^ 32 := by
    rw [length_slots h]
    exact hn
  refine lookup?_of_absent hslots hbuckets fun slot hslot => ?_
  -- whatever stands in a slot came from an entry
  obtain ⟨e, he, rfl⟩ := List.mem_map.mp ((slots_perm h).subset hslot)
  exact hword e he

end Perfect

/-! ## Building -/

/-- Verification goes on after entries that are found as their own kinds. -/
theorem verifyEntries_append {t : HashTable} {rest : List KeywordEntry} :
    ∀ {found : List KeywordEntry},
      (∀ e ∈ found, t.lookup? e.text.utf8 = some e.kind) →
      (∀ e ∈ found, e.kind ≠ .sentinel) → t.verifyEntries (found ++ rest) = t.verifyEntries rest
  | [], _, _ => rfl
  | e :: found, hfound, hkind => by
      have hne : ¬ (e.kind ≠ e.kind ∨ e.kind = .sentinel) := by
        rintro (h | h)
        · exact h rfl
        · exact hkind e List.mem_cons_self h
      rw [List.cons_append, verifyEntries, hfound e List.mem_cons_self]
      dsimp only
      rw [if_neg hne]
      exact verifyEntries_append (fun x hx => hfound x (List.mem_cons_of_mem _ hx))
        fun x hx => hkind x (List.mem_cons_of_mem _ hx)

/-- A table in which every keyword is found as its own kind passes verification. -/
theorem verifyEntries_eq_ok {t : HashTable} {entries : List KeywordEntry}
    (hfound : ∀ e ∈ entries, t.lookup? e.text.utf8 = some e.kind)
    (hkind : ∀ e ∈ entries, e.kind ≠ .sentinel) : t.verifyEntries entries = .ok () := by
  rw [← List.append_nil entries, verifyEntries_append hfound hkind]
  rfl

/-- Building keeps to the placement that the search finds. -/
theorem build_of_find? {spec : KeywordSpec} {salt : UInt64} {p : Placement}
    (hfind : Placement.find? spec.words salt = some p) (h : Placement.Perfect spec.words p)
    (hkind : ∀ e ∈ spec.entries, e.kind ≠ .sentinel) :
    build salt spec = .ok (ofPlacement spec p) := by
  have hverify : verify spec (ofPlacement spec p) = .ok () :=
    verifyEntries_eq_ok (fun e he => lookup?_of_mem h he) hkind
  have hwords : Placement.find? (spec.entries.map fun e => e.text.utf8) salt = some p := hfind
  unfold build
  rw [hwords]
  show (verify spec (ofPlacement spec p) >>= _) = _
  rw [hverify]
  rfl

/-- Whenever the search stops, building gives a table. -/
theorem exists_build_of_stopsAt {src : List Char} {spec : KeywordSpec}
    (hspec : KeywordSpec.parse src = .ok spec) (hn : spec.length < 2 ^ 32) {salt : UInt64}
    {k : Nat} (hstop : Placement.StopsAt spec.words salt k) : ∃ t, build salt spec = .ok t := by
  have hwords : spec.words.length < 2 ^ 32 := by
    rw [KeywordSpec.length_words]
    exact hn
  obtain ⟨p, hfind, _, hperfect⟩ := Placement.exists_perfect_of_stopsAt hwords hstop
  exact ⟨_, build_of_find? hfind hperfect (KeywordSpec.kind_ne_sentinel_of_parse hspec)⟩

/-- A table that has been built is that of the placement that the search finds. -/
theorem exists_placement_of_build {spec : KeywordSpec} {salt : UInt64} {t : HashTable}
    (h : build salt spec = .ok t) :
    ∃ p, Placement.find? spec.words salt = some p ∧ t = ofPlacement spec p := by
  unfold build at h
  split at h
  · contradiction
  · next p hfind =>
    refine ⟨p, hfind, ?_⟩
    cases hverify : verify spec (ofPlacement spec p) with
    | ok _ =>
        simp only [hverify, bind, Except.bind] at h
        exact (Except.ok.inj h).symm
    | error e =>
        simp only [hverify, bind, Except.bind] at h
        contradiction

/-- **The table of a specification is a perfect hash of its keywords.** Whenever the search
stops, building gives a table. Its seed is the key the search stopped at, combined with the
salt. Its slots are the entries, each once, and its displacements are one for every five
words begun, both numbers of each below the number of words. Its lengths are those of the
shortest and the longest keyword. A lookup answers the kind of the keyword whose bytes it is
given, and the sentinel for all other bytes. -/
theorem build_perfect_hash {src : List Char} {spec : KeywordSpec}
    (hspec : KeywordSpec.parse src = .ok spec) (hn : spec.length < 2 ^ 32) {salt : UInt64}
    {k : Nat} (hstop : Placement.StopsAt spec.words salt k) :
    ∃ t, build salt spec = .ok t ∧
      t.seed = (KeyStream.after k).key ^^^ salt ∧
      t.slots.Perm (spec.entries.map fun e => ⟨e.text, e.kind⟩) ∧
      t.displacements.length = (spec.length + 4) / 5 ∧
      (∀ d ∈ t.displacements, d.factor.toNat < spec.length ∧ d.shift.toNat < spec.length) ∧
      ((∃ e ∈ spec.entries, e.text.utf8.length = t.minLen) ∧
        ∀ e ∈ spec.entries, t.minLen ≤ e.text.utf8.length) ∧
      ((∃ e ∈ spec.entries, e.text.utf8.length = t.maxLen) ∧
        ∀ e ∈ spec.entries, e.text.utf8.length ≤ t.maxLen) ∧
      (∀ e ∈ spec.entries, t.lookup? e.text.utf8 = some e.kind) ∧
      ∀ word, (∀ e ∈ spec.entries, e.text.utf8 ≠ word) → t.lookup? word = some .ident := by
  have hne := KeywordSpec.entries_ne_nil_of_parse hspec
  have hwords : spec.words.length < 2 ^ 32 := by
    rw [KeywordSpec.length_words]
    exact hn
  obtain ⟨p, hfind, hseed, hperfect⟩ := Placement.exists_perfect_of_stopsAt hwords hstop
  have hlength := KeywordSpec.length_words spec
  exact ⟨ofPlacement spec p,
    build_of_find? hfind hperfect (KeywordSpec.kind_ne_sentinel_of_parse hspec),
    hseed, slots_perm hperfect, hlength ▸ hperfect.length_displacements,
    hlength ▸ hperfect.small, KeywordSpec.minLen_spec hne, KeywordSpec.maxLen_spec hne,
    fun e he => lookup?_of_mem hperfect he,
    fun word hword => lookup?_of_not_mem hperfect hn hword⟩

/-- Two keywords, and a salt under which the first key has no placement and the second one
has. -/
theorem build_perfect_hash_second_key :
    ∃ t, build 1 ⟨[⟨"if", .ifWord, 2⟩, ⟨"in", .inWord, 1⟩]⟩ = .ok t ∧
      t.seed = (KeyStream.after 1).key ^^^ 1 ∧ t.lookup? "if".utf8 = some .ifWord ∧
      t.lookup? [0x69, 0xFF] = some .ident := by
  have hparse : KeywordSpec.parse "in,In\nif,If".toList
      = .ok ⟨[⟨"if", .ifWord, 2⟩, ⟨"in", .inWord, 1⟩]⟩ := by cbv
  have hstop : Placement.StopsAt
      (KeywordSpec.words ⟨[⟨"if", .ifWord, 2⟩, ⟨"in", .inWord, 1⟩]⟩) 1 1 := by
    refine ⟨by cbv, fun j hj => ?_⟩
    obtain rfl : j = 0 := by omega
    cbv
  obtain ⟨t, hbuild, hseed, _, _, _, _, _, hfound, hother⟩ :=
    build_perfect_hash hparse (by decide) hstop
  refine ⟨t, hbuild, hseed, hfound ⟨"if", .ifWord, 2⟩ (by simp), hother _ ?_⟩
  intro e he
  simp only [List.mem_cons, List.not_mem_nil, or_false] at he
  rcases he with rfl | rfl <;> decide

end HashTable

end Reserved
