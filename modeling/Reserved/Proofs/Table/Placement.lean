import Mathlib.Algebra.Group.Nat.Defs
import Reserved.Table.Placement

/-!
# Why a placement is perfect

The placing loop goes through the buckets with two arrays: the slots, each free or taken by
the number of a word, and the displacements chosen so far. Three facts about them are kept
by every bucket, and they are all a lookup needs:

* **The slots hold the words placed so far, each once.** The words that stand in slots are a
  permutation of the members of the buckets done. A bucket writes only to free slots, so
  nothing is overwritten.
* **A word stands where its displacement sends it**, and the displacement of a bucket is
  final once it is chosen: no two buckets have the same number.
* **Displacements are small**: both numbers are below the number of slots.

After the last bucket the first fact becomes a count. There are as many slots as words, so
no slot is left free and the slots are a permutation of all words.
-/

namespace Reserved

namespace Placement

/-! ## One bucket -/

theorem fits_iff {taken : Array (Option Nat)} {slots : List Nat} :
    fits taken slots = true ↔ (∀ i ∈ slots, taken[i]? = some none) ∧ slots.Nodup := by
  simp [fits]

/-- A displacement that is found is small, and sends the members to free, distinct slots. -/
theorem firstFit_eq_some {n : Nat} {taken : Array (Option Nat)} {ms : List Member}
    {d : Displacement} (hn : n < 2 ^ 32) (h : firstFit n taken ms = some d) :
    (d.factor.toNat < n ∧ d.shift.toNat < n) ∧ fits taken (ms.map (slotOf n d)) = true := by
  unfold firstFit at h
  obtain ⟨factor, hf, h⟩ := List.exists_of_findSome?_eq_some h
  obtain ⟨shift, hs, h⟩ := List.exists_of_findSome?_eq_some h
  rw [List.mem_range] at hf hs
  dsimp only at h
  split at h
  · rename_i hfits
    obtain rfl := Option.some.inj h
    -- the numbers tried are below `n`, so none of them wraps around at 32 bits
    refine ⟨⟨?_, ?_⟩, hfits⟩
    · show (UInt32.ofNat factor).toNat < n
      rw [UInt32.toNat_ofNat_of_lt' (by exact Nat.lt_trans hf hn)]
      exact hf
    · show (UInt32.ofNat shift).toNat < n
      rw [UInt32.toNat_ofNat_of_lt' (by exact Nat.lt_trans hs hn)]
      exact hs
  · exact absurd h (by simp)

/-- The words that stand in slots, in the order of the slots. -/
def standing (taken : Array (Option Nat)) : List Nat :=
  taken.toList.filterMap id

/-- Writing a word into a free slot adds this word and loses none. -/
theorem filterMap_set_perm {w : Nat} :
    ∀ {slots : List (Option Nat)} {i : Nat}, slots[i]? = some none →
      ((slots.set i (some w)).filterMap id).Perm (w :: slots.filterMap id)
  | [], _, h => absurd h (by simp)
  | slot :: rest, 0, h => by
      obtain rfl : slot = none := by simpa using h
      simp
  | slot :: rest, i + 1, h => by
      have hrest : rest[i]? = some none := by simpa using h
      cases slot with
      | none => simpa using filterMap_set_perm hrest
      | some v =>
          simp only [List.set_cons_succ, List.filterMap_cons_some (f := id) rfl]
          exact (List.Perm.cons v (filterMap_set_perm hrest)).trans (List.Perm.swap w v _)

theorem standing_set_perm {taken : Array (Option Nat)} {i w : Nat} (h : taken[i]? = some none) :
    (standing (taken.setIfInBounds i (some w))).Perm (w :: standing taken) := by
  unfold standing
  rw [Array.toList_setIfInBounds]
  exact filterMap_set_perm (by rw [Array.getElem?_toList]; exact h)

/-- Where the first of several slots is taken, the others are still free. -/
theorem fits_set {taken : Array (Option Nat)} {i w : Nat} {slots : List Nat}
    (h : fits taken (i :: slots) = true) :
    fits (taken.setIfInBounds i (some w)) slots = true := by
  rw [fits_iff, List.nodup_cons] at h
  obtain ⟨hfree, hi, hnd⟩ := h
  refine fits_iff.mpr ⟨?_, hnd⟩
  intro j hj
  have hne : i ≠ j := fun he => hi (he ▸ hj)
  rw [Array.getElem?_setIfInBounds_ne hne]
  exact hfree j (List.mem_cons_of_mem _ hj)

theorem occupy_cons (n : Nat) (d : Displacement) (taken : Array (Option Nat)) (m : Member)
    (ms : List Member) :
    occupy n d taken (m :: ms)
      = occupy n d (taken.setIfInBounds (slotOf n d m) (some m.word)) ms := rfl

theorem size_occupy {n : Nat} {d : Displacement} :
    ∀ (ms : List Member) (taken : Array (Option Nat)), (occupy n d taken ms).size = taken.size
  | [], _ => rfl
  | m :: ms, taken => by rw [occupy_cons, size_occupy ms, Array.size_setIfInBounds]

/-- **Earlier placements are untouched.** -/
theorem occupy_of_taken {n : Nat} {d : Displacement} {i w : Nat} :
    ∀ {ms : List Member} {taken : Array (Option Nat)},
      fits taken (ms.map (slotOf n d)) = true → taken[i]? = some (some w) →
      (occupy n d taken ms)[i]? = some (some w)
  | [], _, _, h => h
  | m :: ms, taken, hfits, h => by
      rw [occupy_cons]
      refine occupy_of_taken (fits_set hfits) ?_
      have hfree := (fits_iff.mp hfits).1 (slotOf n d m) List.mem_cons_self
      -- a member sent to `i` would have needed it free
      have hne : slotOf n d m ≠ i := by
        intro he
        rw [he, h] at hfree
        exact absurd hfree (by simp)
      rw [Array.getElem?_setIfInBounds_ne hne]
      exact h

/-- Every member stands in the slot that its displacement gives it. -/
theorem occupy_of_mem {n : Nat} {d : Displacement} :
    ∀ {ms : List Member} {taken : Array (Option Nat)},
      fits taken (ms.map (slotOf n d)) = true →
      ∀ m ∈ ms, (occupy n d taken ms)[slotOf n d m]? = some (some m.word)
  | [], _, _, m, hm => absurd hm (by simp)
  | m :: ms, taken, hfits, x, hx => by
      rw [occupy_cons]
      rcases List.mem_cons.mp hx with rfl | hx
      · have hfree := (fits_iff.mp hfits).1 (slotOf n d x) List.mem_cons_self
        obtain ⟨hlt, _⟩ := Array.getElem?_eq_some_iff.mp hfree
        exact occupy_of_taken (fits_set hfits) (Array.getElem?_setIfInBounds_self_of_lt hlt)
      · exact occupy_of_mem (fits_set hfits) x hx

/-- The words of the members join those that stand already. -/
theorem standing_occupy {n : Nat} {d : Displacement} :
    ∀ {ms : List Member} {taken : Array (Option Nat)},
      fits taken (ms.map (slotOf n d)) = true →
      (standing (occupy n d taken ms)).Perm (ms.map Member.word ++ standing taken)
  | [], _, _ => List.Perm.refl _
  | m :: ms, taken, hfits => by
      have hfree := (fits_iff.mp hfits).1 (slotOf n d m) List.mem_cons_self
      rw [occupy_cons]
      refine (standing_occupy (fits_set hfits)).trans ?_
      refine (List.Perm.append_left _ (standing_set_perm hfree)).trans ?_
      exact List.perm_middle

/-! ## All buckets -/

/-- What holds of the two arrays when the buckets of `done` have been placed. -/
structure Placed (n : Nat) (done : List Bucket) (taken : Array (Option Nat))
    (displacements : Array Displacement) : Prop where
  /-- There are as many slots as words. -/
  size : taken.size = n
  /-- The slots hold the words of the buckets done, each once. -/
  words : (standing taken).Perm (done.flatMap fun b => b.members.map Member.word)
  /-- A word stands where the displacement of its bucket sends it. -/
  stands : ∀ b ∈ done, ∃ d, displacements[b.index]? = some d ∧
    ∀ m ∈ b.members, taken[slotOf n d m]? = some (some m.word)
  /-- Both numbers of a displacement are below the number of slots. -/
  small : ∀ d ∈ displacements, d.factor.toNat < n ∧ d.shift.toNat < n

/-- Before the first bucket. -/
theorem placed_init {n count : Nat} (h : 0 < count → 0 < n) :
    Placed n [] (Array.replicate n none) (Array.replicate count ⟨0, 0⟩) := by
  refine ⟨by simp, ?_, fun b hb => absurd hb (by simp), ?_⟩
  · unfold standing
    rw [Array.toList_replicate, List.filterMap_replicate_of_none rfl]
    exact List.Perm.refl _
  · intro d hd
    obtain ⟨hcount, rfl⟩ := Array.mem_replicate.mp hd
    have : 0 < n := h (by omega)
    exact ⟨this, this⟩

/-- **One bucket keeps the invariant.** Its number must be new: otherwise it would move
words that stand already. -/
theorem Placed.place {n : Nat} {done : List Bucket} {taken : Array (Option Nat)}
    {displacements : Array Displacement} {b : Bucket} {d : Displacement} (hn : n < 2 ^ 32)
    (h : Placed n done taken displacements) (hb : b.index < displacements.size)
    (hnew : ∀ x ∈ done, x.index ≠ b.index) (hd : firstFit n taken b.members = some d) :
    Placed n (b :: done) (occupy n d taken b.members)
      (displacements.setIfInBounds b.index d) := by
  obtain ⟨hsmall, hfits⟩ := firstFit_eq_some hn hd
  refine ⟨(size_occupy _ _).trans h.size, ?_, ?_, ?_⟩
  · rw [List.flatMap_cons]
    exact (standing_occupy hfits).trans (List.Perm.append_left _ h.words)
  · intro x hx
    rcases List.mem_cons.mp hx with rfl | hx
    · exact ⟨d, Array.getElem?_setIfInBounds_self_of_lt hb, occupy_of_mem hfits⟩
    · -- the number is new, so an earlier bucket keeps its displacement
      obtain ⟨d', hd', hstands⟩ := h.stands x hx
      refine ⟨d', ?_, fun m hm => occupy_of_taken hfits (hstands m hm)⟩
      rw [Array.getElem?_setIfInBounds_ne (hnew x hx).symm]
      exact hd'
  · intro x hx
    rcases Array.mem_or_eq_of_mem_setIfInBounds hx with hx | rfl
    · exact h.small x hx
    · exact hsmall

/-- **The invariant over the whole loop.** -/
theorem placed_of_placeBuckets {n : Nat} (hn : n < 2 ^ 32) :
    ∀ {bs done : List Bucket} {taken taken' : Array (Option Nat)}
      {displacements displacements' : Array Displacement},
      placeBuckets n taken displacements bs = some (taken', displacements') →
      Placed n done taken displacements →
      (∀ b ∈ bs, b.index < displacements.size) →
      (bs.map Bucket.index).Nodup → (∀ b ∈ bs, ∀ x ∈ done, x.index ≠ b.index) →
      Placed n (bs.reverse ++ done) taken' displacements'
        ∧ displacements'.size = displacements.size
  | [], done, taken, taken', displacements, displacements', h, hp, _, _, _ => by
      obtain ⟨rfl, rfl⟩ := Prod.mk.inj (Option.some.inj h)
      exact ⟨hp, rfl⟩
  | b :: bs, done, taken, taken', displacements, displacements', h, hp, hlt, hnd, hnew => by
      rw [placeBuckets] at h
      split at h
      · exact absurd h (by simp)
      · rename_i d hd
        rw [List.map_cons, List.nodup_cons] at hnd
        have hplaced := hp.place hn (hlt b List.mem_cons_self) (hnew b List.mem_cons_self) hd
        -- for the rest of the loop `b` is one of the buckets done
        have hfresh : ∀ y ∈ bs, ∀ x ∈ b :: done, x.index ≠ y.index := by
          intro y hy x hx
          rcases List.mem_cons.mp hx with rfl | hx
          · exact fun he => hnd.1 (he ▸ List.mem_map_of_mem hy)
          · exact hnew y (List.mem_cons_of_mem _ hy) x hx
        have hrest : ∀ y ∈ bs, y.index < (displacements.setIfInBounds b.index d).size := by
          intro y hy
          rw [Array.size_setIfInBounds]
          exact hlt y (List.mem_cons_of_mem _ hy)
        obtain ⟨h1, h2⟩ := placed_of_placeBuckets hn h hplaced hrest hnd.2 hfresh
        rw [Array.size_setIfInBounds] at h2
        refine ⟨?_, h2⟩
        rw [List.reverse_cons, List.append_assoc]
        exact h1

end Placement

end Reserved
