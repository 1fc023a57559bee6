import Reserved.Proofs.Table.Lookup
import Reserved.Scanner

/-!
# The slots and the words

Every slot of the committed table is found by the hash of its own text, and a word that stands
in no slot is no keyword. So the kind of any word, however long and of whatever bytes, can be
read off the slots.
-/

namespace Reserved

/-- Every slot is found by the hash of its text. -/
theorem classify?_of_mem_slots : ∀ slot ∈ keywords.slots,
    keywords.classify? slot.1.utf8 = some slot.2 := by
  decide +kernel

/-- **A word has the kind that stands with it in a slot**, and if it stands in none, it is no
keyword. -/
theorem classify?_cases (word : List UInt8) :
    (∃ slot ∈ keywords.slots, slot.1.utf8 = word ∧ keywords.classify? word = some slot.2) ∨
      (∀ slot ∈ keywords.slots, slot.1.utf8 ≠ word) ∧ keywords.classify? word = some .ident := by
  by_cases hslot : ∃ slot ∈ keywords.slots, slot.1.utf8 = word
  · obtain ⟨slot, hmem, rfl⟩ := hslot
    exact Or.inl ⟨slot, hmem, rfl, classify?_of_mem_slots slot hmem⟩
  · have habsent : ∀ slot ∈ keywords.slots, slot.1.utf8 ≠ word :=
      fun slot hmem htext => hslot ⟨slot, hmem, htext⟩
    exact Or.inr ⟨habsent, StaticTable.classify?_of_absent (by decide) (by decide) habsent⟩

theorem classify?_eq_some (word : List UInt8) :
    keywords.classify? word = some (classify word) := by
  unfold classify
  rcases classify?_cases word with ⟨slot, _, _, h⟩ | ⟨_, h⟩
  · rw [h, Option.getD_some]
  · rw [h, Option.getD_some]

theorem classify_of_mem_slots {text : String} {k : TokenKind} (h : (text, k) ∈ keywords.slots) :
    classify text.utf8 = k := by
  have hfound := classify?_of_mem_slots (text, k) h
  rw [classify?_eq_some] at hfound
  exact Option.some.inj hfound

theorem classify_of_not_slot {word : List UInt8}
    (h : ∀ slot ∈ keywords.slots, slot.1.utf8 ≠ word) : classify word = .ident := by
  rcases classify?_cases word with ⟨slot, hmem, htext, _⟩ | ⟨_, hnone⟩
  · exact absurd htext (h slot hmem)
  · rw [classify?_eq_some] at hnone
    exact Option.some.inj hnone

/-- What holds of `.ident` and of the kind in every slot holds of the kind of every word. -/
theorem classify_mem (word : List UInt8) :
    classify word ∈ TokenKind.ident :: keywords.slots.map Prod.snd := by
  rcases classify?_cases word with ⟨slot, hmem, rfl, -⟩ | ⟨habsent, -⟩
  · rw [classify_of_mem_slots hmem]
    exact List.mem_cons_of_mem _ (List.mem_map_of_mem hmem)
  · rw [classify_of_not_slot habsent]
    exact List.mem_cons_self

/-- No word is of the kind of the end. -/
theorem classify_ne_eof (word : List UInt8) : classify word ≠ .eof := by
  have hall : ∀ k ∈ TokenKind.ident :: keywords.slots.map Prod.snd, k ≠ .eof := by decide
  exact hall _ (classify_mem word)

end Reserved
