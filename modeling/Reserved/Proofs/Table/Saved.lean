import Reserved.Files.Artifact
import Reserved.Proofs.Files.ReadBack
import Reserved.Proofs.Table.Json

/-!
# Saved tables

A table that has been saved is read back from its file as the very same table. So it gives the
same answer for every word.
-/

namespace Reserved

namespace TableJson

/-- **Saving a table and reading it back gives the table**, from the bytes themselves and from
the file they were written to. -/
theorem parse_saved {t : HashTable} (hmin : t.minLen < UInt64.size)
    (hmax : t.maxLen < UInt64.size) :
    parse (render t).utf8 = .ok t ∧
      (∀ t', parse (render t).utf8 = .ok t' → ∀ word, t'.lookup? word = t.lookup? word) ∧
      ∀ path d d', FileSystem.IsTree d.files → (Disk.saveTable path t).run d = (.ok (), d') →
        d'.files.read path = .ok (render t).utf8 := by
  have hparse := parse_utf8_render hmin hmax
  refine ⟨hparse, ?_, ?_⟩
  · intro t' ht' word
    obtain rfl := Except.ok.inj (hparse.symm.trans ht')
    rfl
  · intro path d d' htree hrun
    exact Disk.read_of_writeFile htree (utf8_ne_nil (render_ne_empty t)) hrun

/-- A table with the largest numbers, and texts that have to be escaped. -/
def extreme : HashTable where
  seed := 0xFFFFFFFFFFFFFFFF
  minLen := 0
  maxLen := 0xFFFFFFFFFFFFFFFF
  displacements := [⟨0xFFFFFFFF, 0⟩]
  slots := [⟨"\"\\\n\x01", .invalid⟩, ⟨"", .ifWord⟩, ⟨"é😀", .eof⟩]

theorem parse_saved_extreme :
    let saved := (Disk.saveTable "tables/t.json" extreme).run
      (Disk.ofFiles ⟨[], [(["tables"], .directory)]⟩)
    ∃ bytes, saved.2.files.read "tables/t.json" = .ok bytes ∧ parse bytes = .ok extreme ∧
      ∀ t, parse bytes = .ok t → ∀ word, t.lookup? word = extreme.lookup? word := by
  intro saved
  have htree : FileSystem.IsTree ⟨[], [(["tables"], .directory)]⟩ := by
    refine ⟨rfl, fun l e he => ?_⟩
    by_cases hroot : l = []
    · rw [hroot]
      rfl
    by_cases htables : l = ["tables"]
    · rw [htables]
      rfl
    · rw [FileSystem.get?, if_neg hroot, FileSystem.lookup_cons_of_ne _ _ htables] at he
      cases he
  have hok : saved.1 = .ok () := by decide +kernel
  obtain ⟨hparse, hlookup, hread⟩ := parse_saved (t := extreme) (by decide) (by decide)
  exact ⟨_, hread "tables/t.json" _ saved.2 htree (Prod.ext hok rfl), hparse, hlookup⟩

end TableJson

end Reserved
