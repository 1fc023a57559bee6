import Mathlib.Data.List.Perm.Subperm
import Reserved.Proofs.Table.Build

/-!
# What verification proves

Verification looks up the keywords and nothing else, in a table that may come from anywhere.
It is nevertheless a complete check if the table has as many slots as there are keywords. Each
keyword is found, so it stands in a slot; keywords are distinct, so they stand in distinct
slots; and then there is no slot left for anything else. A word that is no keyword is compared
with a keyword, and turned away.
-/

namespace Reserved

namespace HashTable

/-- `e` is the first entry, by the bytes of the keywords, that is not found as its own kind;
it is found as `found`. -/
structure FirstFailure (t : HashTable) (entries : List KeywordEntry) (e : KeywordEntry)
    (found : TokenKind) : Prop where
  mem : e ∈ entries
  lookup : t.lookup? e.text.utf8 = some found
  wrong : found ≠ e.kind
  first : ∀ x ∈ entries, x.text.utf8 < e.text.utf8 → t.lookup? x.text.utf8 = some x.kind

section

variable {t : HashTable} {entries : List KeywordEntry}

theorem verifyEntries_of_first {before after : List KeywordEntry} {e : KeywordEntry}
    {found : TokenKind} (hkind : ∀ x ∈ before ++ e :: after, x.kind ≠ .sentinel)
    (hbefore : ∀ x ∈ before, t.lookup? x.text.utf8 = some x.kind)
    (hfound : t.lookup? e.text.utf8 = some found) (hne : found ≠ e.kind) :
    t.verifyEntries (before ++ e :: after) = .error (.verification e.text e.kind found) := by
  rw [verifyEntries_append hbefore fun x hx => hkind x (List.mem_append_left _ hx),
    verifyEntries, hfound]
  exact if_pos (Or.inl hne)

/-- All entries are found as their own kinds, or there is a first one that is not. -/
theorem exists_wrong (hlookup : ∀ word, ∃ k, t.lookup? word = some k)
    (entries : List KeywordEntry) :
    (∀ e ∈ entries, t.lookup? e.text.utf8 = some e.kind) ∨
      ∃ before e after found, entries = before ++ e :: after ∧
        (∀ x ∈ before, t.lookup? x.text.utf8 = some x.kind) ∧
        t.lookup? e.text.utf8 = some found ∧ found ≠ e.kind := by
  induction entries with
  | nil => exact Or.inl fun e he => absurd he (by simp)
  | cons e rest ih =>
      obtain ⟨found, hfound⟩ := hlookup e.text.utf8
      by_cases hkind : found = e.kind
      · subst hkind
        have hcons : ∀ {xs : List KeywordEntry},
            (∀ x ∈ xs, t.lookup? x.text.utf8 = some x.kind) →
            ∀ x ∈ e :: xs, t.lookup? x.text.utf8 = some x.kind := by
          intro xs hxs x hx
          rcases List.mem_cons.mp hx with rfl | hx
          · exact hfound
          · exact hxs x hx
        rcases ih with hall | ⟨before, x, after, found, rfl, hbefore, hx, hne⟩
        · exact Or.inl (hcons hall)
        · exact Or.inr ⟨e :: before, x, after, found, rfl, hcons hbefore, hx, hne⟩
      · exact Or.inr ⟨[], e, rest, found, rfl, fun x hx => absurd hx (by simp), hfound, hkind⟩

/-- In a list sorted by the keywords, those before an entry have the smaller keywords. -/
theorem mem_before_of_lt {before after : List KeywordEntry} {e x : KeywordEntry}
    (h : KeywordSpec.Increasing (before ++ e :: after)) (hx : x ∈ before ++ e :: after)
    (hlt : x.text.utf8 < e.text.utf8) : x ∈ before := by
  rcases List.mem_append.mp hx with hx | hx
  · exact hx
  · rcases List.mem_cons.mp hx with rfl | hx
    · exact absurd hlt (List.lt_irrefl _)
    · obtain ⟨_, htail, _⟩ := List.pairwise_append.mp h
      have hgt := (List.pairwise_cons.mp htail).1 x hx
      exact absurd hlt (List.lt_asymm hgt)

/-- **Verification reports the first entry that fails.** -/
theorem verifyEntries_eq_error_iff (hlookup : ∀ word, ∃ k, t.lookup? word = some k)
    (hkind : ∀ e ∈ entries, e.kind ≠ .sentinel) (hinc : KeywordSpec.Increasing entries)
    {err : BuildError} :
    t.verifyEntries entries = .error err ↔
      ∃ e found, FirstFailure t entries e found ∧ err = .verification e.text e.kind found := by
  constructor
  · intro h
    rcases exists_wrong hlookup entries with hall |
      ⟨before, e, after, found, rfl, hbefore, hfound, hne⟩
    · rw [verifyEntries_eq_ok hall hkind] at h
      exact absurd h (by simp)
    · rw [verifyEntries_of_first hkind hbefore hfound hne] at h
      refine ⟨e, found, ⟨by simp, hfound, hne, fun x hx hlt => ?_⟩, (Except.error.inj h).symm⟩
      exact hbefore x (mem_before_of_lt hinc hx hlt)
  · rintro ⟨e, found, hfail, rfl⟩
    obtain ⟨before, after, rfl⟩ := List.append_of_mem hfail.mem
    -- entries before this one are smaller, so they are not the failure
    have hbefore : ∀ x ∈ before, t.lookup? x.text.utf8 = some x.kind := by
      intro x hx
      have hlt := (List.pairwise_append.mp hinc).2.2 x hx e List.mem_cons_self
      exact hfail.first x (List.mem_append_left _ hx) hlt
    exact verifyEntries_of_first hkind hbefore hfail.lookup hfail.wrong

theorem verifyEntries_eq_ok_iff (hlookup : ∀ word, ∃ k, t.lookup? word = some k)
    (hkind : ∀ e ∈ entries, e.kind ≠ .sentinel) :
    t.verifyEntries entries = .ok () ↔
      ∀ e ∈ entries, t.lookup? e.text.utf8 = some e.kind := by
  refine ⟨fun h => ?_, fun h => verifyEntries_eq_ok h hkind⟩
  rcases exists_wrong hlookup entries with hall |
    ⟨before, e, after, found, rfl, hbefore, hfound, hne⟩
  · exact hall
  · rw [verifyEntries_of_first hkind hbefore hfound hne] at h
    exact absurd h (by simp)

/-! ## No slot is left for anything else -/

theorem map_text_slotOfEntry (entries : List KeywordEntry) :
    (entries.map slotOfEntry).map Slot.text = entries.map KeywordEntry.text :=
  List.map_map

/-- Entries with distinct keywords take distinct slots. -/
theorem nodup_slotOfEntry (h : KeywordSpec.Increasing entries) :
    (entries.map slotOfEntry).Nodup := by
  refine List.Nodup.of_map Slot.text ?_
  rw [map_text_slotOfEntry]
  exact h.nodup_texts

/-- **If every entry is found and there are no more slots than entries, the slots are the
entries.** -/
theorem slots_perm_of_found (hslots : t.slots.length < 2 ^ 32)
    (hbuckets : t.displacements.length < 2 ^ 32) (hinc : KeywordSpec.Increasing entries)
    (hkind : ∀ e ∈ entries, e.kind ≠ .sentinel)
    (hfound : ∀ e ∈ entries, t.lookup? e.text.utf8 = some e.kind)
    (hlength : t.slots.length = entries.length) :
    t.slots.Perm (entries.map slotOfEntry) := by
  have hsubset : entries.map slotOfEntry ⊆ t.slots := by
    intro slot hslot
    obtain ⟨e, he, rfl⟩ := List.mem_map.mp hslot
    obtain ⟨slot, hslot, htext, hslotKind, _⟩ :=
      exists_slot_of_lookup? hslots hbuckets (hfound e he) (hkind e he)
    have heq : slot = slotOfEntry e := by
      cases slot
      rw [slotOfEntry, Slot.mk.injEq]
      exact ⟨utf8_inj htext, hslotKind⟩
    exact heq ▸ hslot
  have hsub := List.subperm_of_subset (nodup_slotOfEntry hinc) hsubset
  refine (hsub.perm_of_length_le ?_).symm
  rw [List.length_map, hlength]

end

/-- **Verification is a complete check for tables of the right size.** It passes exactly when
every keyword is found as its own kind, and otherwise reports the first keyword that is not.
When it passes for a table with one slot for each keyword, the slots hold the keywords, each
once, and a lookup answers the kind of the keyword whose bytes it is given, and the sentinel
for all other bytes. -/
theorem verify_complete {src : List Char} {spec : KeywordSpec}
    (hspec : KeywordSpec.parse src = .ok spec) {t : HashTable}
    (hslots : t.slots.length < 2 ^ 32) (hbuckets : t.displacements.length < 2 ^ 32) :
    (∀ word, verify spec t ≠ .error (.noPosition word)) ∧
      (verify spec t = .ok () ↔ ∀ e ∈ spec.entries, t.lookup? e.text.utf8 = some e.kind) ∧
      (∀ err, verify spec t = .error err ↔ ∃ e found,
        FirstFailure t spec.entries e found ∧ err = .verification e.text e.kind found) ∧
      (verify spec t = .ok () → t.slots.length = spec.length →
        (t.slots.map Slot.text).Nodup ∧
        t.slots.Perm (spec.entries.map fun e => ⟨e.text, e.kind⟩) ∧
        (∀ e ∈ spec.entries, t.lookup? e.text.utf8 = some e.kind) ∧
        ∀ word, (∀ e ∈ spec.entries, e.text.utf8 ≠ word) → t.lookup? word = some .ident) := by
  have hinc := (KeywordSpec.describes_of_parse hspec).2.increasing
  have hkind := KeywordSpec.kind_ne_sentinel_of_parse hspec
  have hlookup := exists_lookup? hslots hbuckets
  have hok : verify spec t = .ok () ↔
      ∀ e ∈ spec.entries, t.lookup? e.text.utf8 = some e.kind :=
    verifyEntries_eq_ok_iff hlookup hkind
  have herror : ∀ err, verify spec t = .error err ↔ ∃ e found,
      FirstFailure t spec.entries e found ∧ err = .verification e.text e.kind found :=
    fun err => verifyEntries_eq_error_iff hlookup hkind hinc
  refine ⟨fun word h => ?_, hok, herror, fun hverify hlength => ?_⟩
  · obtain ⟨e, found, _, herr⟩ := (herror _).mp h
    exact absurd herr (by simp)
  · have hfound := hok.mp hverify
    have hperm := slots_perm_of_found hslots hbuckets hinc hkind hfound hlength
    refine ⟨?_, hperm, hfound, fun word hword => ?_⟩
    · refine (hperm.map Slot.text).nodup_iff.mpr ?_
      exact (map_text_slotOfEntry spec.entries).symm ▸ hinc.nodup_texts
    · -- the slot that decides holds a keyword, and the word is none
      refine lookup?_of_absent hslots hbuckets fun slot hslot => ?_
      obtain ⟨e, he, rfl⟩ := List.mem_map.mp (hperm.subset hslot)
      exact hword e he

/-- A table that no search has made: its lengths are too wide, but its slots are the keywords. -/
theorem verify_complete_wide_lengths :
    ∃ t : HashTable, t.minLen = 0 ∧ t.maxLen = 9 ∧
      verify ⟨[⟨"if", .ifWord, 2⟩, ⟨"in", .inWord, 1⟩]⟩ t = .ok () ∧
      (t.slots.map Slot.text).Nodup ∧ t.lookup? "in".utf8 = some .inWord ∧
      t.lookup? [0x69, 0xFF, 0x6E] = some .ident := by
  have hparse : KeywordSpec.parse "in,In\nif,If".toList
      = .ok ⟨[⟨"if", .ifWord, 2⟩, ⟨"in", .inWord, 1⟩]⟩ := by cbv
  have hverify : verify ⟨[⟨"if", .ifWord, 2⟩, ⟨"in", .inWord, 1⟩]⟩
      ⟨12913932095322966823, 0, 9, [⟨0, 0⟩], [⟨"in", .inWord⟩, ⟨"if", .ifWord⟩]⟩ = .ok () := by
    cbv
  obtain ⟨_, _, _, hcomplete⟩ := verify_complete hparse
    (t := ⟨12913932095322966823, 0, 9, [⟨0, 0⟩], [⟨"in", .inWord⟩, ⟨"if", .ifWord⟩]⟩)
    (by decide) (by decide)
  obtain ⟨hnodup, _, hfound, hother⟩ := hcomplete hverify (by decide)
  refine ⟨_, rfl, rfl, hverify, hnodup, hfound ⟨"in", .inWord, 1⟩ (by simp), hother _ ?_⟩
  intro e he
  simp only [List.mem_cons, List.not_mem_nil, or_false] at he
  rcases he with rfl | rfl <;> decide

end HashTable

end Reserved
