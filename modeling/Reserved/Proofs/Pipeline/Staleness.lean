import Reserved.Proofs.Artifact.Digest
import Reserved.Proofs.CommandLine

/-!
# Every edit of a byte is noticed

A step of the digest can be undone: the prime is odd, so it has an inverse modulo 2⁶⁴, and what
is mixed into the state by exclusive or can be taken out again. Two states that are told apart
therefore stay so whatever bytes follow, and of two bytes that enter one state each leaves a
state of its own. So an edit of one byte is noticed, wherever it is and however much follows it,
and the artifact that was made before the edit shows it.
-/

namespace Reserved

namespace Digest

/-! ## Steps can be undone -/

/-- The inverse of the prime. -/
def inverse : UInt64 := 0xce965057aff6957b

theorem prime_mul_inverse : prime * inverse = 1 := by decide

theorem mul_prime_inj {a b : UInt64} : a * prime = b * prime ↔ a = b := by
  constructor
  · intro h
    have hundone : ∀ x : UInt64, x * prime * inverse = x := fun x => by
      rw [UInt64.mul_assoc, prime_mul_inverse, UInt64.mul_one]
    rw [← hundone a, ← hundone b, h]
  · rintro rfl
    rfl

theorem step_state_inj {state state' : UInt64} (b : UInt8) :
    step state b = step state' b ↔ state = state' := by
  rw [step, step, mul_prime_inj, UInt64.xor_left_inj]

theorem step_byte_inj (state : UInt64) {a b : UInt8} : step state a = step state b ↔ a = b := by
  rw [step, step, mul_prime_inj, UInt64.xor_right_inj, UInt8.toUInt64_inj]

/-- **Bytes keep apart the states they are read in.** -/
theorem foldl_step_inj (bytes : List UInt8) : ∀ {state state' : UInt64},
    bytes.foldl step state = bytes.foldl step state' ↔ state = state' := by
  induction bytes with
  | nil => exact Iff.rfl
  | cons b rest ih =>
      intro state state'
      rw [List.foldl_cons, List.foldl_cons, ih, step_state_inj]

end Digest

theorem digest_append_inj {p q : List UInt8} (s : List UInt8) :
    digest (p ++ s) = digest (q ++ s) ↔ digest p = digest q := by
  unfold digest
  rw [List.foldl_append, List.foldl_append, Digest.foldl_step_inj]

theorem digest_middle_inj (p : List UInt8) {a b : UInt8} (s : List UInt8) :
    digest (p ++ a :: s) = digest (p ++ b :: s) ↔ a = b := by
  unfold digest
  rw [List.foldl_append, List.foldl_append, List.foldl_cons, List.foldl_cons,
    Digest.foldl_step_inj, Digest.step_byte_inj]

namespace Artifact

/-- The line with the digest tells the digest. -/
theorem digestLine_inj {d d' : UInt64} : digestLine d = digestLine d' ↔ d = d' := by
  constructor
  · intro h
    have hread := digestOf?_hexWord d
    rw [List.append_cancel_left h, digestOf?_hexWord] at hread
    exact (Option.some.inj hread).symm
  · rintro rfl
    rfl

end Artifact

namespace Pipeline

open Artifact (opening digestLine)

/-- **The digest notices an edit of any byte.** What follows two byte strings does not make
their digests equal, nor unequal, and two strings that differ in one byte never have the same
digest. So the artifact of a keyword file tells the file from any that is one byte different:
behind its opening stands the line with the file's digest, and no other byte in the place of one
of the file's gives that line. -/
theorem digest_notices_edit :
    (∀ p q s : List UInt8, digest (p ++ s) = digest (q ++ s) ↔ digest p = digest q) ∧
    (∀ (p s : List UInt8) (a b : UInt8), a ≠ b → digest (p ++ a :: s) ≠ digest (p ++ b :: s)) ∧
    ∀ (fs : FileSystem) (around : Surroundings) (settings : Settings) (j : Journal)
      (product : Product) (p s : List UInt8) (a : UInt8), settings.backend = .builtin →
      fs.read settings.specPath = .ok (p ++ a :: s) →
      ((generate fs around settings).run j).1 = .ok product →
      (∃ rest, product.text.toList = opening settings.specPath ++ '\n' ::
        (digestLine (digest (p ++ a :: s)) ++ '\n' :: rest)) ∧
      ∀ b, a ≠ b → digestLine (digest (p ++ a :: s)) ≠ digestLine (digest (p ++ b :: s)) := by
  have hbyte : ∀ (p s : List UInt8) (a b : UInt8), a ≠ b →
      digest (p ++ a :: s) ≠ digest (p ++ b :: s) := fun p s a b hne h =>
    hne ((digest_middle_inj p s).mp h)
  refine ⟨fun p q s => digest_append_inj s, hbyte, ?_⟩
  intro fs around settings j product p s a hbackend hread hmade
  constructor
  · obtain ⟨bytes, t, hread', -, -, hproduct⟩ := builtin_of_generate hbackend hmade
    obtain rfl := Except.ok.inj (hread.symm.trans hread')
    rw [hproduct]
    exact Artifact.toList_render t ⟨settings.specPath, digest (p ++ a :: s)⟩
  · exact fun b hne h => hbyte p s a b hne (Artifact.digestLine_inj.mp h)

/-- A keyword that has lost its second letter to another. -/
theorem digest_notices_edit_one_letter :
    ∃ product rest,
      ((generate CommandLine.oneKeyword ⟨[], []⟩
        { Settings.standard with specPath := "words" }).run .empty).1 = .ok product ∧
      product.text.toList
        = opening "words" ++ '\n' :: (digestLine (digest "if,If".utf8) ++ '\n' :: rest) ∧
      digestLine (digest "if,If".utf8) ≠ digestLine (digest "in,If".utf8) := by
  have hparse : KeywordSpec.parse "if,If".toList = .ok ⟨[⟨"if", .ifWord, 1⟩]⟩ := by cbv
  have hstop : Placement.StopsAt (KeywordSpec.words ⟨[⟨"if", .ifWord, 1⟩]⟩) 0 0 :=
    ⟨by cbv, fun j hj => absurd hj (Nat.not_lt_zero j)⟩
  obtain ⟨t, ht⟩ := HashTable.exists_build_of_stopsAt hparse (by decide) hstop
  have hreads : BuiltinReads CommandLine.oneKeyword
      { Settings.standard with specPath := "words" } "words" 0 "if,If".toList :=
    ⟨rfl, rfl, rfl, rfl⟩
  have hmade := hreads.generate hparse ht ⟨[], []⟩ .empty
  obtain ⟨⟨rest, htext⟩, hedit⟩ := digest_notices_edit.2.2 CommandLine.oneKeyword ⟨[], []⟩
    { Settings.standard with specPath := "words" } .empty _ "i".utf8 ",If".utf8 0x66 rfl rfl hmade
  exact ⟨_, rest, hmade, htext, hedit 0x6E (by decide)⟩

end Pipeline

end Reserved
