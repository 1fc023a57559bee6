import Reserved.Proofs.Table.Build

/-!
# What another salt changes

The salt enters a table by its seed alone: the seed is the key at which the search stops, combined
with the salt, and the seed decides the rest. So tables differ exactly if their seeds do.

Two salts that lead the search to the same key have different seeds. But the search passes over
keys without a placement, and then the difference of two keys can make up for the difference of
two salts. Wherever a search passes over keys this happens: some other salt meets, at its first
key, the very seed at which that search stops.
-/

namespace Reserved

/-! ## Words that are combined -/

theorem xor_swap {a b c d : UInt64} (h : a ^^^ c = b ^^^ d) : a ^^^ b = c ^^^ d := by
  calc a ^^^ b = (a ^^^ c) ^^^ (c ^^^ b) := by
        rw [UInt64.xor_assoc, ← UInt64.xor_assoc c, UInt64.xor_self, UInt64.zero_xor]
    _ = (b ^^^ d) ^^^ (b ^^^ c) := by rw [h, UInt64.xor_comm c b]
    _ = c ^^^ d := by
        rw [UInt64.xor_comm b d, UInt64.xor_assoc, ← UInt64.xor_assoc b, UInt64.xor_self,
          UInt64.zero_xor, UInt64.xor_comm]

namespace Placement

variable {words : List (List UInt8)} {salt salt' : UInt64} {k k' : Nat}

/-- Two seeds agree if the keys differ exactly where the salts do. -/
theorem seedAt_eq_iff :
    seedAt salt k = seedAt salt' k' ↔
      (KeyStream.after k).key ^^^ (KeyStream.after k').key = salt ^^^ salt' :=
  ⟨xor_swap, xor_swap⟩

/-- **A search that passes over keys has a twin**: another salt with which the search stops at its
first key, under the same seed. -/
theorem StopsAt.exists_twin (h : StopsAt words salt k) (hk : 0 < k) :
    ∃ twin, twin ≠ salt ∧ StopsAt words twin 0 ∧ seedAt twin 0 = seedAt salt k := by
  let twin := salt ^^^ ((KeyStream.after 0).key ^^^ (KeyStream.after k).key)
  have hseed : seedAt twin 0 = seedAt salt k := by
    rw [seedAt_eq_iff]
    show _ = salt ^^^ _ ^^^ salt
    rw [UInt64.xor_comm salt, UInt64.xor_assoc, UInt64.xor_self, UInt64.xor_zero]
  have hsome : (underSeed? words (seedAt twin 0)).isSome = true := by
    rw [hseed]
    exact h.1
  refine ⟨twin, ?_, ⟨hsome, fun j hj => absurd hj (Nat.not_lt_zero j)⟩, hseed⟩
  -- with the same salt the first key would have a placement, but it was passed over
  intro hsame
  rw [hsame, h.2 0 hk] at hsome
  contradiction

end Placement

namespace HashTable

variable {spec : KeywordSpec} {salt salt' : UInt64} {t t' : HashTable}

/-- The seed of a table is that of the key at which the search stopped. -/
theorem exists_stop_of_build (h : build salt spec = .ok t) :
    ∃ k p, Placement.StopsAt spec.words salt k ∧ t.seed = Placement.seedAt salt k ∧
      Placement.underSeed? spec.words t.seed = some p ∧ t = ofPlacement spec p := by
  obtain ⟨p, hfind, rfl⟩ := exists_placement_of_build h
  obtain ⟨k, hstop, hp⟩ := Placement.exists_stop_of_find? hfind
  have hseed : p.seed = Placement.seedAt salt k := Placement.seed_of_underSeed? hp
  refine ⟨k, p, hstop, hseed, ?_, rfl⟩
  show Placement.underSeed? spec.words p.seed = some p
  rw [hseed]
  exact hp

/-- **The seed decides the table.** -/
theorem eq_of_seed_eq (h : build salt spec = .ok t) (h' : build salt' spec = .ok t')
    (hseed : t.seed = t'.seed) : t = t' := by
  obtain ⟨-, p, -, -, hp, rfl⟩ := exists_stop_of_build h
  obtain ⟨-, p', -, -, hp', rfl⟩ := exists_stop_of_build h'
  rw [hseed, hp'] at hp
  rw [Option.some.inj hp]

/-- Different salts give tables with different seeds. -/
def SaltsTell (spec : KeywordSpec) : Prop :=
  ∀ salt salt' t t', salt ≠ salt' → build salt spec = .ok t → build salt' spec = .ok t' →
    t.seed ≠ t'.seed

/-- Where no search passes over a key, different salts are told apart. -/
theorem saltsTell_of_first (h : ∀ salt k, Placement.StopsAt spec.words salt k → k = 0) :
    SaltsTell spec := by
  intro salt salt' t t' hne ht ht' hseed
  obtain ⟨k, -, hstop, hk, -⟩ := exists_stop_of_build ht
  obtain ⟨k', -, hstop', hk', -⟩ := exists_stop_of_build ht'
  rw [hk, hk', Placement.seedAt_eq_iff, h _ _ hstop, h _ _ hstop', UInt64.xor_self] at hseed
  -- the keys are the same, so the salts would be too
  have hsame : salt ^^^ 0 = salt' ^^^ 0 := xor_swap (by rw [← hseed, UInt64.xor_self])
  exact hne (by simpa using hsame)

theorem seed_of_stopsAt {k : Nat} (h : build salt spec = .ok t)
    (hstop : Placement.StopsAt spec.words salt k) : t.seed = Placement.seedAt salt k := by
  obtain ⟨k', -, hstop', hseed, -⟩ := exists_stop_of_build h
  rw [hseed, hstop.unique hstop']

/-- Where a search passes over a key, it shares its table with the search of another salt. -/
theorem first_of_saltsTell {src : List Char} (hspec : KeywordSpec.parse src = .ok spec)
    (hn : spec.length < 2 ^ 32) (h : SaltsTell spec) {k : Nat}
    (hstop : Placement.StopsAt spec.words salt k) : k = 0 := by
  refine Nat.eq_zero_of_not_pos fun hpos => ?_
  obtain ⟨twin, hne, hstop', hseed⟩ := hstop.exists_twin hpos
  obtain ⟨t, ht⟩ := exists_build_of_stopsAt hspec hn hstop
  obtain ⟨t', ht'⟩ := exists_build_of_stopsAt hspec hn hstop'
  refine h twin salt t' t hne ht' ht ?_
  rw [seed_of_stopsAt ht hstop, seed_of_stopsAt ht' hstop', hseed]

/-- **When two salts are told apart.** The seeds of the two tables differ exactly if the keys at
which the two searches stop do not differ where the salts do, and tables with the same seed are
the same. Every salt is told from every other exactly if no search passes over a key. -/
theorem build_seeds_differ_iff {src : List Char} (hspec : KeywordSpec.parse src = .ok spec) :
    (∀ salt salt' k k' t t', Placement.StopsAt spec.words salt k →
      Placement.StopsAt spec.words salt' k' → build salt spec = .ok t →
      build salt' spec = .ok t' →
      (t.seed ≠ t'.seed ↔
        (KeyStream.after k).key ^^^ (KeyStream.after k').key ≠ salt ^^^ salt') ∧
      (t ≠ t' ↔ t.seed ≠ t'.seed)) ∧
    (spec.length < 2 ^ 32 →
      (∀ salt k, Placement.StopsAt spec.words salt k → ∃ t, build salt spec = .ok t) ∧
      (SaltsTell spec ↔ ∀ salt k, Placement.StopsAt spec.words salt k → k = 0)) := by
  refine ⟨fun salt salt' k k' t t' hstop hstop' ht ht' => ⟨?_, ?_⟩, fun hn => ⟨?_, ?_⟩⟩
  · rw [seed_of_stopsAt ht hstop, seed_of_stopsAt ht' hstop', not_iff_not]
    exact Placement.seedAt_eq_iff
  · exact ⟨fun hne hseed => hne (eq_of_seed_eq ht ht' hseed),
      fun hne hsame => hne (congrArg seed hsame)⟩
  · exact fun _ _ hstop => exists_build_of_stopsAt hspec hn hstop
  · exact ⟨fun htell _ _ hstop => first_of_saltsTell hspec hn htell hstop, saltsTell_of_first⟩

/-! ## Two keywords -/

/-- Two keywords that fall into one slot under the first key, with the salt zero. -/
def twoKeywords : KeywordSpec :=
  ⟨[⟨"a", .inWord, 1⟩, ⟨"e", .ifWord, 2⟩]⟩

theorem parse_twoKeywords : KeywordSpec.parse "a,In\ne,If".toList = .ok twoKeywords := by
  cbv

theorem stopsAt_zero : Placement.StopsAt twoKeywords.words 0 1 := by
  refine ⟨by cbv, fun j hj => ?_⟩
  obtain rfl : j = 0 := by omega
  cbv

theorem stopsAt_one : Placement.StopsAt twoKeywords.words 1 0 :=
  ⟨by cbv, fun j hj => absurd hj (Nat.not_lt_zero j)⟩

/-- The salts zero and one give different tables, but not all salts do. -/
theorem build_seeds_differ_iff_zero_one :
    ∃ t t', build 0 twoKeywords = .ok t ∧ build 1 twoKeywords = .ok t' ∧ t.seed ≠ t'.seed ∧
      ¬ SaltsTell twoKeywords := by
  obtain ⟨hpair, hall⟩ := build_seeds_differ_iff parse_twoKeywords
  obtain ⟨hbuilt, htell⟩ := hall (by decide)
  obtain ⟨t, ht⟩ := hbuilt 0 1 stopsAt_zero
  obtain ⟨t', ht'⟩ := hbuilt 1 0 stopsAt_one
  have hkeys : (KeyStream.after 1).key ^^^ (KeyStream.after 0).key ≠ (0 : UInt64) ^^^ 1 := by
    decide
  refine ⟨t, t', ht, ht', (hpair 0 1 1 0 t t' stopsAt_zero stopsAt_one ht ht').1.mpr hkeys, ?_⟩
  exact fun h => absurd (htell.mp h 0 1 stopsAt_zero) (by decide)

/-- With another salt the first key leads to the table that the salt zero has from the second. -/
theorem two_salts_one_table :
    KeywordSpec.parse "a,In\ne,If".toList = .ok twoKeywords ∧
      (0 : UInt64) ≠ 0x659eb3e57584b4aa ∧
      ∃ t, build 0 twoKeywords = .ok t ∧ build 0x659eb3e57584b4aa twoKeywords = .ok t := by
  have hseed : Placement.seedAt 0x659eb3e57584b4aa 0 = Placement.seedAt 0 1 := by decide
  have hsome := stopsAt_zero.1
  rw [← hseed] at hsome
  have hstop : Placement.StopsAt twoKeywords.words 0x659eb3e57584b4aa 0 :=
    ⟨hsome, fun j hj => absurd hj (Nat.not_lt_zero j)⟩
  obtain ⟨t, ht⟩ := exists_build_of_stopsAt parse_twoKeywords (by decide) stopsAt_zero
  obtain ⟨t', ht'⟩ := exists_build_of_stopsAt parse_twoKeywords (by decide) hstop
  refine ⟨parse_twoKeywords, by decide, t, ht, ?_⟩
  rw [eq_of_seed_eq ht ht' ?_, ht']
  rw [seed_of_stopsAt ht stopsAt_zero, seed_of_stopsAt ht' hstop, hseed]

end HashTable

end Reserved
