import Reserved.Proofs.Text.Utf8
import Reserved.Spec.Parser

/-!
# The order of a specification

Entries are sorted by the bytes of their keywords. Comparing bytes is a total order on texts,
so the sorted list of entries with distinct keywords increases strictly, and says which
entries there are and nothing else.
-/

namespace Reserved

/-- Comparing byte sequences is their lexicographic order. -/
theorem compare_bytes_eq_lt : ∀ {a b : List UInt8}, compare a b = .lt ↔ a < b
  | [], [] => by simp [compare, List.compareLex]
  | [], y :: ys => by simp [compare, List.compareLex]
  | x :: xs, [] => by simp [compare, List.compareLex]
  | x :: xs, y :: ys => by
      have ih : List.compareLex compare xs ys = .lt ↔ xs < ys := compare_bytes_eq_lt
      show List.compareLex compare (x :: xs) (y :: ys) = .lt ↔ _
      rw [List.compareLex_cons_cons, List.cons_lt_cons_iff, Ordering.then_eq_lt, ih,
        Std.LawfulEqOrd.compare_eq_iff_eq, Std.compare_eq_lt]

theorem compareBytes_eq_lt {a b : String} : compareBytes a b = .lt ↔ a.utf8 < b.utf8 :=
  compare_bytes_eq_lt

theorem compareBytes_eq_eq {a b : String} : compareBytes a b = .eq ↔ a = b := by
  unfold compareBytes
  rw [Std.LawfulEqOrd.compare_eq_iff_eq]
  exact ⟨utf8_inj, fun h => h ▸ rfl⟩

namespace KeywordSpec

theorem entryLE_trans {a b c : KeywordEntry} (hab : entryLE a b = true)
    (hbc : entryLE b c = true) : entryLE a c = true := by
  unfold entryLE compareBytes at hab hbc ⊢
  exact Std.TransCmp.isLE_trans hab hbc

theorem entryLE_total (a b : KeywordEntry) : (entryLE a b || entryLE b a) = true := by
  unfold entryLE compareBytes
  have hswap : compare b.text.utf8 a.text.utf8 = (compare a.text.utf8 b.text.utf8).swap :=
    Std.OrientedCmp.eq_swap
  rw [hswap]
  cases compare a.text.utf8 b.text.utf8 <;> rfl

/-- Strictly increasing by the bytes of the keywords. -/
def Increasing (entries : List KeywordEntry) : Prop :=
  entries.Pairwise fun a b => a.text.utf8 < b.text.utf8

theorem Increasing.nodup_texts {entries : List KeywordEntry} (h : Increasing entries) :
    (entries.map KeywordEntry.text).Nodup := by
  refine List.pairwise_map.mpr (h.imp fun {a b} hlt heq => ?_)
  rw [heq] at hlt
  exact absurd hlt (List.lt_irrefl _)

/-- Sorting entries with distinct keywords makes them increase strictly. -/
theorem increasing_mergeSort {entries : List KeywordEntry}
    (h : entries.Pairwise fun a b => a.text ≠ b.text) :
    Increasing (entries.mergeSort entryLE) := by
  have htrans : ∀ a b c, entryLE a b = true → entryLE b c = true → entryLE a c = true :=
    fun _ _ _ => entryLE_trans
  have hsorted := List.pairwise_mergeSort htrans entryLE_total entries
  have hdistinct : (entries.mergeSort entryLE).Pairwise fun a b => a.text ≠ b.text :=
    ((List.mergeSort_perm entries entryLE).pairwise_iff fun hab => Ne.symm hab).mpr h
  refine (hsorted.and hdistinct).imp fun {a b} ⟨hle, hne⟩ => ?_
  refine compareBytes_eq_lt.mp ?_
  -- of the three outcomes, one is excluded by the sort and one by the distinct keywords
  cases hcmp : compareBytes a.text b.text with
  | lt => rfl
  | eq => exact absurd (compareBytes_eq_eq.mp hcmp) hne
  | gt =>
      unfold entryLE at hle
      rw [hcmp] at hle
      exact absurd hle (by decide)

end KeywordSpec

end Reserved
