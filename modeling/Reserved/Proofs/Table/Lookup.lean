import Mathlib.Algebra.Group.Nat.Defs
import Reserved.Table.Basic

/-!
# What a lookup does

A lookup goes one of two ways. A word whose length no keyword has is turned away before it
is hashed; any other is hashed to a position, and the slot there decides. Positions are
computed with 32-bit counts, so everything here asks for fewer than `2 ^ 32` slots and
buckets; above zero such a count divides. Nothing else is asked of a table: a lookup has an
answer in any table, also in one that no search has made.

The table as data answers exactly as the table it was made from.
-/

namespace Reserved

theorem ofNat_ne_zero {n : Nat} (h0 : 0 < n) (hn : n < 2 ^ 32) : UInt32.ofNat n ≠ 0 := by
  intro h
  have hnat : (UInt32.ofNat n).toNat = 0 := congrArg UInt32.toNat h
  rw [UInt32.toNat_ofNat_of_lt' hn] at hnat
  omega

/-- The remainder by a count is below the count. -/
theorem toNat_mod_ofNat_lt (x : UInt32) {n : Nat} (h0 : 0 < n) (hn : n < 2 ^ 32) :
    (x % UInt32.ofNat n).toNat < n := by
  rw [UInt32.toNat_mod, UInt32.toNat_ofNat_of_lt' hn]
  exact Nat.mod_lt _ h0

/-- The displacement of a word's bucket gives its position. -/
theorem position?_eq_some {seed : UInt64} {displacements : List Displacement} {slotCount : Nat}
    {word : List UInt8} {d : Displacement} (hbuckets : displacements.length < 2 ^ 32)
    (h0 : 0 < slotCount) (hslots : slotCount < 2 ^ 32)
    (hd : displacements[((Hashes.of seed word).bucket %
      UInt32.ofNat displacements.length).toNat]? = some d) :
    position? seed displacements slotCount word =
      some (d.apply (Hashes.of seed word) % UInt32.ofNat slotCount).toNat := by
  have hpos : 0 < displacements.length :=
    Nat.lt_of_le_of_lt (Nat.zero_le _) (List.getElem?_eq_some_iff.mp hd).1
  unfold position?
  dsimp only
  rw [if_neg (not_or.mpr ⟨ofNat_ne_zero hpos hbuckets, ofNat_ne_zero h0 hslots⟩), hd]
  rfl

/-- **Every word has a position**, and it is one of the slots. -/
theorem exists_position? (seed : UInt64) {displacements : List Displacement} {slotCount : Nat}
    (word : List UInt8) (hpos : 0 < displacements.length)
    (hbuckets : displacements.length < 2 ^ 32) (h0 : 0 < slotCount)
    (hslots : slotCount < 2 ^ 32) :
    ∃ i < slotCount, position? seed displacements slotCount word = some i := by
  have hlt := toNat_mod_ofNat_lt (Hashes.of seed word).bucket hpos hbuckets
  exact ⟨_, toNat_mod_ofNat_lt _ h0 hslots,
    position?_eq_some hbuckets h0 hslots (List.getElem?_eq_getElem hlt)⟩

namespace HashTable

/-- A length that no keyword has is not hashed. -/
theorem lookup?_of_length {t : HashTable} {word : List UInt8}
    (h : ¬ (t.minLen ≤ word.length ∧ word.length ≤ t.maxLen)) :
    t.lookup? word = some .sentinel := by
  unfold lookup?
  rw [if_pos]
  simp only [Bool.or_eq_true, Bool.not_eq_true', Bool.and_eq_false_iff, decide_eq_false_iff_not]
  exact Or.inr (Decidable.not_and_iff_not_or_not.mp h)

/-- Otherwise the slot at the word's position decides. -/
theorem lookup?_of_position {t : HashTable} {word : List UInt8} {i : Nat} {slot : Slot}
    (hlen : t.minLen ≤ word.length ∧ word.length ≤ t.maxLen) (hd : t.displacements ≠ [])
    (hi : position? t.seed t.displacements t.slots.length word = some i)
    (hslot : t.slots[i]? = some slot) :
    t.lookup? word = some (if slot.text.utf8 = word then slot.kind else .sentinel) := by
  have hslots : t.slots ≠ [] := List.ne_nil_of_mem (List.mem_of_getElem? hslot)
  unfold lookup?
  rw [if_neg]
  · rw [hi]
    show (t.slots[i]?).bind _ = _
    rw [hslot]
    rfl
  · simp only [Bool.or_eq_true, Bool.not_eq_true', Bool.and_eq_false_iff,
      decide_eq_false_iff_not, List.isEmpty_iff]
    rintro ((h | h) | h | h)
    · exact hslots h
    · exact hd h
    · exact h hlen.1
    · exact h hlen.2

/-- Without slots or without displacements nothing is hashed either. -/
theorem lookup?_of_empty {t : HashTable} (h : t.slots = [] ∨ t.displacements = [])
    (word : List UInt8) : t.lookup? word = some .sentinel := by
  unfold lookup?
  rw [if_pos]
  simp only [Bool.or_eq_true, List.isEmpty_iff]
  exact Or.inl h

/-- **A lookup always has an answer**: the word is turned away, or one of the slots decides.
This holds of any table, whatever its seed, its displacements and the order of its slots. -/
theorem lookup?_cases {t : HashTable} (hslots : t.slots.length < 2 ^ 32)
    (hbuckets : t.displacements.length < 2 ^ 32) (word : List UInt8) :
    t.lookup? word = some .sentinel ∨
      ∃ slot ∈ t.slots, (t.minLen ≤ word.length ∧ word.length ≤ t.maxLen) ∧
        t.lookup? word = some (if slot.text.utf8 = word then slot.kind else .sentinel) := by
  by_cases hempty : t.slots = [] ∨ t.displacements = []
  · exact Or.inl (lookup?_of_empty hempty word)
  · by_cases hlen : t.minLen ≤ word.length ∧ word.length ≤ t.maxLen
    · rw [not_or] at hempty
      obtain ⟨hs, hd⟩ := hempty
      obtain ⟨i, hi, hposition⟩ := exists_position? t.seed word (List.length_pos_iff.mpr hd)
        hbuckets (List.length_pos_iff.mpr hs) hslots
      refine Or.inr ⟨t.slots[i], List.getElem_mem hi, hlen, ?_⟩
      exact lookup?_of_position hlen hd hposition (List.getElem?_eq_getElem hi)
    · exact Or.inl (lookup?_of_length hlen)

theorem exists_lookup? {t : HashTable} (hslots : t.slots.length < 2 ^ 32)
    (hbuckets : t.displacements.length < 2 ^ 32) (word : List UInt8) :
    ∃ k, t.lookup? word = some k := by
  rcases lookup?_cases hslots hbuckets word with h | ⟨slot, _, _, h⟩
  · exact ⟨_, h⟩
  · exact ⟨_, h⟩

/-- An answer other than the sentinel is the kind of a slot that holds the very word. -/
theorem exists_slot_of_lookup? {t : HashTable} {word : List UInt8} {k : TokenKind}
    (hslots : t.slots.length < 2 ^ 32) (hbuckets : t.displacements.length < 2 ^ 32)
    (h : t.lookup? word = some k) (hk : k ≠ .sentinel) :
    ∃ slot ∈ t.slots, slot.text.utf8 = word ∧ slot.kind = k ∧
      t.minLen ≤ word.length ∧ word.length ≤ t.maxLen := by
  rcases lookup?_cases hslots hbuckets word with hnone | ⟨slot, hslot, hlen, hfound⟩
  · rw [hnone] at h
    exact absurd (Option.some.inj h).symm hk
  · rw [hfound] at h
    have hif := Option.some.inj h
    by_cases htext : slot.text.utf8 = word
    · rw [if_pos htext] at hif
      exact ⟨slot, hslot, htext, hif, hlen⟩
    · rw [if_neg htext] at hif
      exact absurd hif.symm hk

/-- A word that no slot holds is no keyword. -/
theorem lookup?_of_absent {t : HashTable} {word : List UInt8}
    (hslots : t.slots.length < 2 ^ 32) (hbuckets : t.displacements.length < 2 ^ 32)
    (h : ∀ slot ∈ t.slots, slot.text.utf8 ≠ word) : t.lookup? word = some .sentinel := by
  rcases lookup?_cases hslots hbuckets word with hnone | ⟨slot, hslot, _, hfound⟩
  · exact hnone
  · rw [hfound, if_neg (h slot hslot)]

/-- **The table as data classifies as the table looks up.** -/
theorem classify?_toStatic (t : HashTable) (word : List UInt8) :
    t.toStatic.classify? word = t.lookup? word := by
  have hdisplacements : (t.toStatic.displacements.map
      fun x => (⟨x.1, x.2⟩ : Displacement)) = t.displacements := by
    show (t.displacements.map fun d => (d.factor, d.shift)).map _ = t.displacements
    rw [List.map_map]
    exact List.map_id _
  have hslots : t.toStatic.slots = t.slots.map fun s => (s.text, s.kind) := rfl
  have hseed : t.toStatic.seed = t.seed := rfl
  -- both turn a word away for the same four reasons, tested in another order
  have hguard : (word.length < t.toStatic.minLen ∨ t.toStatic.maxLen < word.length ∨
      t.toStatic.slots = [] ∨ t.toStatic.displacements = []) ↔
      (t.slots.isEmpty || t.displacements.isEmpty
        || !(decide (t.minLen ≤ word.length) && decide (word.length ≤ t.maxLen))) = true := by
    show (word.length < t.minLen ∨ t.maxLen < word.length ∨
      t.slots.map _ = [] ∨ t.displacements.map _ = []) ↔ _
    simp only [List.map_eq_nil_iff, Bool.or_eq_true, List.isEmpty_iff, Bool.not_eq_true',
      Bool.and_eq_false_iff, decide_eq_false_iff_not, Nat.not_le]
    constructor
    · rintro (h | h | h | h)
      · exact Or.inr (Or.inl h)
      · exact Or.inr (Or.inr h)
      · exact Or.inl (Or.inl h)
      · exact Or.inl (Or.inr h)
    · rintro ((h | h) | h | h)
      · exact Or.inr (Or.inr (Or.inl h))
      · exact Or.inr (Or.inr (Or.inr h))
      · exact Or.inl h
      · exact Or.inr (Or.inl h)
  unfold StaticTable.classify? lookup?
  dsimp only
  by_cases hout : (t.slots.isEmpty || t.displacements.isEmpty
      || !(decide (t.minLen ≤ word.length) && decide (word.length ≤ t.maxLen))) = true
  · rw [if_pos (hguard.mpr hout), if_pos hout]
  · rw [if_neg (mt hguard.mp hout), if_neg hout, hdisplacements, hslots, hseed,
      List.length_map]
    cases position? t.seed t.displacements t.slots.length word with
    | none => rfl
    | some i =>
        show ((t.slots.map fun s => (s.text, s.kind))[i]?).map _ = (t.slots[i]?).bind _
        rw [List.getElem?_map, Option.map_map]
        cases t.slots[i]? <;> rfl

/-- The data of a table determine it. -/
theorem toStatic_injective {t t' : HashTable} (h : t.toStatic = t'.toStatic) : t = t' := by
  have hdisplacements : t.displacements = t'.displacements := by
    refine (List.map_inj_right fun d d' hd => ?_).mp (congrArg StaticTable.displacements h)
    cases d
    cases d'
    simpa using hd
  have hslots : t.slots = t'.slots := by
    refine (List.map_inj_right fun s s' hs => ?_).mp (congrArg StaticTable.slots h)
    cases s
    cases s'
    simpa using hs
  cases t
  cases t'
  obtain rfl : _ = _ := hdisplacements
  obtain rfl : _ = _ := hslots
  simpa [toStatic] using h

/-- **Lookups in an untrusted table are safe and sound.** Whatever the seed, the displacements,
the bounds and the slots of a table are, every word has an answer, and the table as data gives
the same one. A kind other than the sentinel's is only ever given to the text of a slot, and
only within the bounds. -/
theorem lookup?_untrusted {t : HashTable} (hslots : t.slots.length < 2 ^ 32)
    (hbuckets : t.displacements.length < 2 ^ 32) (word : List UInt8) :
    ∃ k, t.lookup? word = some k ∧ t.toStatic.classify? word = some k ∧
      (k ≠ .ident → ∃ slot ∈ t.slots, slot.text.utf8 = word ∧ slot.kind = k ∧
        t.minLen ≤ word.length ∧ word.length ≤ t.maxLen) := by
  obtain ⟨k, hk⟩ := exists_lookup? hslots hbuckets word
  refine ⟨k, hk, ?_, exists_slot_of_lookup? hslots hbuckets hk⟩
  rw [classify?_toStatic, hk]

/-- A table that no search makes: one keyword stands in two slots with different kinds, the
bounds admit every word, and the displacement wraps around. -/
def misplaced : HashTable where
  seed := 1
  minLen := 0
  maxLen := 0xFFFFFFFFFFFFFFFF
  displacements := [⟨0xFFFFFFFF, 0xFFFFFFFF⟩]
  slots := [⟨"if", .ifWord⟩, ⟨"if", .eof⟩]

/-- Here the word is found, so the slot it is found in exists. -/
theorem lookup?_untrusted_misplaced :
    ∃ k, misplaced.lookup? "if".utf8 = some k ∧ k ≠ .ident ∧
      ∃ slot ∈ misplaced.slots, slot.text.utf8 = "if".utf8 ∧ slot.kind = k := by
  obtain ⟨k, hlookup, _, hsound⟩ :=
    lookup?_untrusted (t := misplaced) (by decide) (by decide) "if".utf8
  have hk : k ≠ .ident := by
    have hfound : misplaced.lookup? "if".utf8 ≠ some .ident := by decide +kernel
    rintro rfl
    exact hfound hlookup
  obtain ⟨slot, hslot, htext, hkind, _⟩ := hsound hk
  exact ⟨k, hlookup, hk, slot, hslot, htext, hkind⟩

end HashTable

/-- The table that is declared with these data. -/
def StaticTable.toTable (t : StaticTable) : HashTable where
  seed := t.seed
  minLen := t.minLen
  maxLen := t.maxLen
  displacements := t.displacements.map fun (factor, shift) => ⟨factor, shift⟩
  slots := t.slots.map fun (text, kind) => ⟨text, kind⟩

/-- All data are the data of a table. -/
theorem StaticTable.toStatic_toTable (t : StaticTable) : t.toTable.toStatic = t := by
  have hdisplacements : t.toTable.toStatic.displacements = t.displacements := by
    show (t.displacements.map _).map _ = t.displacements
    rw [List.map_map]
    exact List.map_id _
  have hslots : t.toTable.toStatic.slots = t.slots := by
    show (t.slots.map _).map _ = t.slots
    rw [List.map_map]
    exact List.map_id _
  show StaticTable.mk t.seed t.minLen t.maxLen t.toTable.toStatic.displacements
    t.toTable.toStatic.slots = t
  rw [hdisplacements, hslots]

/-- A word that stands in no slot of the data is no keyword of theirs. -/
theorem StaticTable.classify?_of_absent {t : StaticTable} {word : List UInt8}
    (hslots : t.slots.length < 2 ^ 32) (hbuckets : t.displacements.length < 2 ^ 32)
    (h : ∀ slot ∈ t.slots, slot.1.utf8 ≠ word) : t.classify? word = some .sentinel := by
  rw [← t.toStatic_toTable, HashTable.classify?_toStatic]
  refine HashTable.lookup?_of_absent ?_ ?_ fun slot hslot => ?_
  · rwa [toTable, List.length_map]
  · rwa [toTable, List.length_map]
  · obtain ⟨entry, hentry, rfl⟩ := List.mem_map.mp hslot
    exact h entry hentry

end Reserved
