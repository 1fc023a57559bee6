import Reserved.Proofs.Hash.KeyStream
import Reserved.Proofs.Table.Lookup
import Reserved.Proofs.Table.Placement

/-!
# What the search for a placement finds

Every word falls into exactly one bucket, so the invariant of the placing loop speaks of all
words when the loop has gone through all buckets: a placement that is found is **perfect**.
The position of a word, computed from the displacements alone, is the slot where the search
left it, and the slots hold every word once.

The search itself tries one key after the other. It finds the placement under the first key
that has one, whenever there is such a key at all: its limit is as long as the stream. And what it
finds is always that.
-/

namespace Reserved

namespace Placement

/-! ## Buckets -/

theorem bucketCount_lt {n : Nat} (hn : n < 2 ^ 32) : bucketCount n < 2 ^ 32 := by
  show (n + 4) / 5 < 2 ^ 32
  omega

theorem bucketOf_lt {n : Nat} (hn : n < 2 ^ 32) (h0 : 0 < n) (m : Member) :
    bucketOf (bucketCount n) m < bucketCount n := by
  have hpos : 0 < bucketCount n := by
    show 0 < (n + 4) / 5
    omega
  exact toNat_mod_ofNat_lt _ hpos (bucketCount_lt hn)

/-- The first buckets hold the members that belong to them, each once. -/
theorem flatMap_filter_perm (ms : List Member) (key : Member → Nat) :
    ∀ count, ((List.range count).flatMap fun b => ms.filter fun m => key m = b).Perm
      (ms.filter fun m => key m < count)
  | 0 => by simp
  | count + 1 => by
      rw [List.range_succ, List.flatMap_append, List.flatMap_singleton]
      refine (List.Perm.append_right _ (flatMap_filter_perm ms key count)).trans ?_
      -- those up to `count` are those below it and those at it
      have hlow : ms.filter (fun m => key m < count)
          = (ms.filter fun m => key m < count + 1).filter fun m => key m < count := by
        rw [List.filter_filter]
        refine List.filter_congr fun m _ => ?_
        simp only [← Bool.decide_and, decide_eq_decide]
        omega
      have hhigh : ms.filter (fun m => key m = count)
          = (ms.filter fun m => key m < count + 1).filter fun m => ! (key m < count : Bool) := by
        rw [List.filter_filter]
        refine List.filter_congr fun m _ => ?_
        simp only [← decide_not, ← Bool.decide_and, decide_eq_decide]
        omega
      rw [hlow, hhigh]
      exact List.filter_append_perm _ _

/-- All buckets together hold every member once. -/
theorem flatMap_buckets_perm {count : Nat} {ms : List Member}
    (h : ∀ m ∈ ms, bucketOf count m < count) :
    ((buckets count ms).flatMap Bucket.members).Perm ms := by
  have hall : ms.filter (fun m => bucketOf count m < count) = ms :=
    List.filter_eq_self.mpr fun m hm => decide_eq_true (h m hm)
  have hperm := flatMap_filter_perm ms (bucketOf count) count
  rw [hall] at hperm
  rw [buckets, List.flatMap_map]
  exact hperm

theorem bySize_perm (bs : List Bucket) : (bySize bs).Perm bs :=
  List.mergeSort_perm _ _

theorem map_index_buckets (count : Nat) (ms : List Member) :
    (buckets count ms).map Bucket.index = List.range count := by
  rw [buckets, List.map_map]
  exact List.map_id _

/-- A member of a bucket belongs to it. -/
theorem mem_buckets {count : Nat} {ms : List Member} {m : Member} (hm : m ∈ ms)
    (h : bucketOf count m < count) :
    ∃ b ∈ buckets count ms, b.index = bucketOf count m ∧ m ∈ b.members := by
  refine ⟨⟨bucketOf count m, ms.filter fun x => bucketOf count x = bucketOf count m⟩, ?_, rfl, ?_⟩
  · exact List.mem_map.mpr ⟨_, List.mem_range.mpr h, rfl⟩
  · exact List.mem_filter.mpr ⟨hm, decide_eq_true rfl⟩

theorem map_word_members (seed : UInt64) (words : List (List UInt8)) :
    (members seed words).map Member.word = List.range words.length := by
  rw [members, List.map_map]
  show words.zipIdx.map Prod.snd = List.range words.length
  rw [List.zipIdx_map_snd, List.range_eq_range']

theorem mem_members {seed : UInt64} {words : List (List UInt8)} {i : Nat} {word : List UInt8}
    (h : words[i]? = some word) : (⟨i, Hashes.of seed word⟩ : Member) ∈ members seed words :=
  List.mem_map.mpr ⟨(word, i), List.mem_zipIdx_iff_getElem?.mpr h, rfl⟩

/-! ## A placement that is found is perfect -/

/-- Every word has a slot of its own, every slot has a word, and the displacements lead from
a word to its slot. -/
structure Perfect (words : List (List UInt8)) (p : Placement) : Prop where
  /-- The slots hold the words, each once. -/
  complete : (p.order.filterMap id).Perm (List.range words.length)
  /-- There are as many slots as words. -/
  length_order : p.order.length = words.length
  /-- There is one displacement for every five words begun. -/
  length_displacements : p.displacements.length = bucketCount words.length
  /-- Both numbers of a displacement are below the number of words. -/
  small : ∀ d ∈ p.displacements, d.factor.toNat < words.length ∧ d.shift.toNat < words.length
  /-- The position of a word is the slot it stands in. -/
  stands : ∀ i word, words[i]? = some word → ∃ slot,
    position? p.seed p.displacements words.length word = some slot ∧
      p.order[slot]? = some (some i)

/-- What the placing loop leaves under one seed: all buckets are placed, the largest first. -/
theorem placed_of_underSeed? {words : List (List UInt8)} {seed : UInt64} {p : Placement}
    (hn : words.length < 2 ^ 32) (h : underSeed? words seed = some p) :
    ∃ (taken : Array (Option Nat)) (displacements : Array Displacement),
      p = ⟨seed, displacements.toList, taken.toList⟩ ∧
      displacements.size = bucketCount words.length ∧
      Placed words.length
        (bySize (buckets (bucketCount words.length) (members seed words))).reverse
        taken displacements := by
  unfold underSeed? at h
  dsimp only at h
  obtain ⟨⟨taken, displacements⟩, hplace, rfl⟩ := Option.map_eq_some_iff.mp h
  -- sorting the buckets leaves each its number, so every number occurs once
  have hindex : ((bySize (buckets (bucketCount words.length) (members seed words))).map
      Bucket.index).Perm (List.range (bucketCount words.length)) :=
    map_index_buckets (bucketCount words.length) (members seed words) ▸ (bySize_perm _).map _
  have hlt : ∀ b ∈ bySize (buckets (bucketCount words.length) (members seed words)),
      b.index < (Array.replicate (bucketCount words.length) (⟨0, 0⟩ : Displacement)).size := by
    intro b hb
    rw [Array.size_replicate]
    exact List.mem_range.mp (hindex.subset (List.mem_map_of_mem hb))
  have hinit : Placed words.length [] (Array.replicate words.length none)
      (Array.replicate (bucketCount words.length) ⟨0, 0⟩) := by
    refine placed_init fun hcount => ?_
    have : 0 < (words.length + 4) / 5 := hcount
    omega
  obtain ⟨hplaced, hsize⟩ := placed_of_placeBuckets hn hplace hinit hlt
    (hindex.nodup_iff.mpr List.nodup_range) (fun b _ x hx => absurd hx (by simp))
  rw [Array.size_replicate] at hsize
  rw [List.append_nil] at hplaced
  exact ⟨taken, displacements, rfl, hsize, hplaced⟩

theorem bucketOf_lt_of_mem_members {words : List (List UInt8)} {seed : UInt64}
    (hn : words.length < 2 ^ 32) :
    ∀ m ∈ members seed words, bucketOf (bucketCount words.length) m < bucketCount words.length := by
  intro m hm
  have hpos : 0 < (members seed words).length := List.length_pos_of_mem hm
  rw [members, List.length_map, List.length_zipIdx] at hpos
  exact bucketOf_lt hn hpos m

/-- **A placement that is found is perfect.** -/
theorem perfect_of_underSeed? {words : List (List UInt8)} {seed : UInt64} {p : Placement}
    (hn : words.length < 2 ^ 32) (h : underSeed? words seed = some p) : Perfect words p := by
  obtain ⟨taken, displacements, rfl, hsize, hplaced⟩ := placed_of_underSeed? hn h
  have hbelow := @bucketOf_lt_of_mem_members words seed hn
  have hperm := bySize_perm (buckets (bucketCount words.length) (members seed words))
  have hlength : displacements.toList.length = bucketCount words.length := by
    rw [Array.length_toList, hsize]
  refine ⟨?_, by rw [Array.length_toList, hplaced.size], hlength,
    fun d hd => hplaced.small d (Array.mem_toList_iff.mp hd), ?_⟩
  · -- the words of the buckets are the words of the members, hence all
    show (standing taken).Perm _
    refine hplaced.words.trans ?_
    rw [← List.map_flatMap, ← map_word_members seed words]
    refine List.Perm.map _ ?_
    refine (List.Perm.flatMap_right _ ((List.reverse_perm _).trans hperm)).trans ?_
    exact flatMap_buckets_perm hbelow
  · intro i word hi
    -- the word stands where the displacement of its own bucket sends it
    have hm : (⟨i, Hashes.of seed word⟩ : Member) ∈ members seed words := mem_members hi
    obtain ⟨b, hb, hbi, hmb⟩ := mem_buckets hm (hbelow _ hm)
    have hdone : b ∈ (bySize (buckets (bucketCount words.length) (members seed words))).reverse :=
      List.mem_reverse.mpr (hperm.mem_iff.mpr hb)
    obtain ⟨d, hd, hstands⟩ := hplaced.stands b hdone
    rw [hbi] at hd
    have hpos : 0 < words.length :=
      Nat.lt_of_le_of_lt (Nat.zero_le i) (List.getElem?_eq_some_iff.mp hi).1
    refine ⟨slotOf words.length d ⟨i, Hashes.of seed word⟩, ?_, ?_⟩
    · refine position?_eq_some (hlength ▸ bucketCount_lt hn) hpos hn ?_
      rw [Array.getElem?_toList, hlength]
      exact hd
    · rw [Array.getElem?_toList]
      exact hstands _ hmb

/-- No slot of a perfect placement is left free. -/
theorem Perfect.full {words : List (List UInt8)} {p : Placement} (h : Perfect words p) :
    ∀ slot ∈ p.order, slot.isSome = true := by
  have hlen : (p.order.filterMap id).length = p.order.length := by
    rw [h.complete.length_eq, List.length_range, h.length_order]
  exact List.filterMap_length_eq_length.mp hlen

/-! ## The search -/

/-- The seed of the `k`-th key: the key combined with the salt. -/
def seedAt (salt : UInt64) (k : Nat) : UInt64 :=
  (KeyStream.after k).key ^^^ salt

/-- The search stops at key `k`: this is the first key under which all words find a slot. -/
def StopsAt (words : List (List UInt8)) (salt : UInt64) (k : Nat) : Prop :=
  (underSeed? words (seedAt salt k)).isSome = true ∧
    ∀ j < k, underSeed? words (seedAt salt j) = none

theorem seed_of_underSeed? {words : List (List UInt8)} {seed : UInt64} {p : Placement}
    (h : underSeed? words seed = some p) : p.seed = seed := by
  unfold underSeed? at h
  obtain ⟨_, _, rfl⟩ := Option.map_eq_some_iff.mp h
  rfl

/-- The search passes over the keys without a placement. -/
theorem search_eq_of_first {words : List (List UInt8)} {salt : UInt64} {tries k : Nat}
    {keys : KeyStream} (hk : k < tries)
    (hnone : ∀ j < k, underSeed? words ((KeyStream.next^[j] keys).key ^^^ salt) = none)
    (hsome : (underSeed? words ((KeyStream.next^[k] keys).key ^^^ salt)).isSome = true) :
    search words salt tries keys = underSeed? words ((KeyStream.next^[k] keys).key ^^^ salt) := by
  induction tries generalizing k keys with
  | zero => exact absurd hk (Nat.not_lt_zero _)
  | succ tries ih =>
      rw [search]
      cases k with
      | zero =>
          obtain ⟨p, hp⟩ := Option.isSome_iff_exists.mp hsome
          rw [Function.iterate_zero_apply] at hp ⊢
          rw [hp]
      | succ k =>
          -- the key at hand has no placement, and the others are those of the next state
          have h0 := hnone 0 (Nat.succ_pos k)
          rw [Function.iterate_zero_apply] at h0
          rw [Function.iterate_succ_apply] at hsome ⊢
          rw [h0]
          refine ih (Nat.lt_of_succ_lt_succ hk) (fun j hj => ?_) hsome
          rw [← Function.iterate_succ_apply]
          exact hnone (j + 1) (Nat.succ_lt_succ hj)

/-- **The search finds the placement under the first key that has one**, however late in the
stream that key comes. -/
theorem find?_of_stopsAt {words : List (List UInt8)} {salt : UInt64} {k : Nat}
    (h : StopsAt words salt k) : find? words salt = underSeed? words (seedAt salt k) := by
  obtain ⟨hsome, hnone⟩ := h
  have hk : k < searchLimit := by
    refine KeyStream.first_lt (s := KeyStream.initial)
      (p := fun s => (underSeed? words (s.key ^^^ salt)).isSome = true) hsome ?_
    intro j hj hjs
    have hj0 : underSeed? words ((KeyStream.next^[j] KeyStream.initial).key ^^^ salt) = none :=
      hnone j hj
    rw [hj0] at hjs
    exact absurd hjs (by simp)
  exact search_eq_of_first hk hnone hsome

/-- The seed of the placement that is found is the key the search stopped at, combined with
the salt, and the placement is perfect. -/
theorem exists_perfect_of_stopsAt {words : List (List UInt8)} {salt : UInt64} {k : Nat}
    (hn : words.length < 2 ^ 32) (h : StopsAt words salt k) :
    ∃ p, find? words salt = some p ∧ p.seed = seedAt salt k ∧ Perfect words p := by
  obtain ⟨p, hp⟩ := Option.isSome_iff_exists.mp h.1
  exact ⟨p, (find?_of_stopsAt h).trans hp, seed_of_underSeed? hp, perfect_of_underSeed? hn hp⟩

theorem StopsAt.unique {words : List (List UInt8)} {salt : UInt64} {k k' : Nat}
    (h : StopsAt words salt k) (h' : StopsAt words salt k') : k = k' := by
  have hle : ∀ {i j}, StopsAt words salt i → StopsAt words salt j → i ≤ j := by
    intro i j hi hj
    refine Nat.le_of_not_lt fun hlt => ?_
    have hsome := hj.1
    rw [hi.2 j hlt] at hsome
    contradiction
  exact Nat.le_antisymm (hle h h') (hle h' h)

/-- A placement that the search finds is that of the first key that has one. -/
theorem exists_first_of_search {words : List (List UInt8)} {salt : UInt64} {tries : Nat}
    {keys : KeyStream} {p : Placement} (h : search words salt tries keys = some p) :
    ∃ k, underSeed? words ((KeyStream.next^[k] keys).key ^^^ salt) = some p ∧
      ∀ j < k, underSeed? words ((KeyStream.next^[j] keys).key ^^^ salt) = none := by
  induction tries generalizing keys with
  | zero => contradiction
  | succ tries ih =>
      rw [search] at h
      split at h
      · next p' hp =>
        obtain rfl := Option.some.inj h
        exact ⟨0, hp, fun j hj => absurd hj (Nat.not_lt_zero j)⟩
      · next hnone =>
        obtain ⟨k, hk, hfirst⟩ := ih h
        refine ⟨k + 1, hk, fun j hj => ?_⟩
        cases j with
        | zero => exact hnone
        | succ j => exact hfirst j (Nat.lt_of_succ_lt_succ hj)

/-- A search that finds a placement stops at some key, and the placement is the one under the seed
of that key. -/
theorem exists_stop_of_find? {words : List (List UInt8)} {salt : UInt64} {p : Placement}
    (h : find? words salt = some p) :
    ∃ k, StopsAt words salt k ∧ underSeed? words (seedAt salt k) = some p := by
  unfold find? at h
  obtain ⟨k, hk, hfirst⟩ := exists_first_of_search h
  exact ⟨k, ⟨Option.isSome_iff_exists.mpr ⟨p, hk⟩, hfirst⟩, hk⟩

end Placement

end Reserved
