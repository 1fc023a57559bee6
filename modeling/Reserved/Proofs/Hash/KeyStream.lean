import Mathlib.Data.Fintype.EquivFin
import Mathlib.Data.Fintype.Prod
import Mathlib.Logic.Function.Iterate
import Reserved.Hash.KeyStream

/-!
# The stream of keys comes round

A state of the stream is four words, so there are `2 ^ 256` of them, and each is followed by
the next one alone. Whatever the stream ever meets it meets within its first `2 ^ 256`
states: if the first state with some property came later, two states before it would be the
same, and the property would have shown up that much earlier.

This is why a search that gives up after `2 ^ 256` keys gives up nothing.
-/

namespace Reserved

namespace KeyStream

/-- The state after `k` keys. -/
def after (k : Nat) : KeyStream := next^[k] initial

/-- A state as its four words. -/
def toWords (s : KeyStream) : (Fin (2 ^ 64) × Fin (2 ^ 64)) × Fin (2 ^ 64) × Fin (2 ^ 64) :=
  ((s.s0.toFin, s.s1.toFin), s.s2.toFin, s.s3.toFin)

theorem toWords_injective : Function.Injective toWords := by
  intro a b h
  obtain ⟨h01, h23⟩ := Prod.mk.inj h
  obtain ⟨h0, h1⟩ := Prod.mk.inj h01
  obtain ⟨h2, h3⟩ := Prod.mk.inj h23
  cases a
  cases b
  rw [KeyStream.mk.injEq]
  exact ⟨UInt64.toFin_inj.mp h0, UInt64.toFin_inj.mp h1, UInt64.toFin_inj.mp h2,
    UInt64.toFin_inj.mp h3⟩

/-- A stretch of the stream without repetition is no longer than there are states. -/
theorem length_le_of_injective {s : KeyStream} {n : Nat}
    (h : Function.Injective fun i : Fin n => next^[i.val] s) : n ≤ 2 ^ 256 := by
  have hcard := Fintype.card_le_of_injective _ (toWords_injective.comp h)
  rw [Fintype.card_fin, Fintype.card_prod, Fintype.card_prod, Fintype.card_fin] at hcard
  exact Nat.le_trans hcard (by decide)

/-- **What the stream meets at all it meets among its first `2 ^ 256` states.** -/
theorem first_lt {p : KeyStream → Prop} {s : KeyStream} {k : Nat} (hk : p (next^[k] s))
    (hfirst : ∀ j < k, ¬ p (next^[j] s)) : k < 2 ^ 256 := by
  -- a repetition before the first hit would bring the hit forward
  have hstep : ∀ i j, i < j → j ≤ k → next^[i] s ≠ next^[j] s := by
    intro i j hij hjk he
    have hback : next^[k - j + i] s = next^[k] s := by
      rw [Function.iterate_add_apply, he, ← Function.iterate_add_apply, Nat.sub_add_cancel hjk]
    exact hfirst (k - j + i) (by omega) (hback ▸ hk)
  refine length_le_of_injective (n := k + 1) (s := s) ?_
  intro a b hab
  rcases Nat.lt_trichotomy a.val b.val with hlt | heq | hgt
  · exact absurd hab (hstep _ _ hlt (by omega))
  · exact Fin.ext heq
  · exact absurd hab.symm (hstep _ _ hgt (by omega))

end KeyStream

end Reserved
