import Reserved.Proofs.Files.Replace

/-!
# Reading what was written

A file is made where its path leads to, and links are followed to it. A look-up for reading
takes the same way to it once it is there. It goes through directories and links only, and a
file is made at neither. That nothing but a last link leads to a link is true of trees alone,
where each entry lies in a directory.
-/

namespace Reserved

namespace FileSystem

/-- Each entry lies in a directory, and the working directory is one. -/
structure IsTree (fs : FileSystem) : Prop where
  workDir : fs.get? fs.workDir = some .directory
  parent : ∀ l e, fs.get? l = some e → fs.get? l.dropLast = some .directory

variable {fs fs' : FileSystem} {view : View} {purpose : Purpose} {n : Nat} {here loc : Location}
  {steps : List String} {found : Found} {e : Entry} {path : String}

/-- In a tree, links are followed to their end. -/
theorem Walks.ends (htree : IsTree fs) (hpurpose : purpose ≠ .itself)
    (h : Walks fs.get? purpose n here steps found)
    (hhere : ∀ target, fs.get? here ≠ some (.link target)) :
    ∀ l target, found ≠ .entry l (.link target) := by
  have hdirectory : ∀ {l : Location}, fs.get? l = some .directory →
      ∀ target, fs.get? l ≠ some (.link target) := by
    intro l hl target hlink
    rw [hl] at hlink
    cases hlink
  induction h with
  | here he =>
      intro l target h
      obtain ⟨rfl, rfl⟩ := Found.entry.inj h
      exact hhere target he
  | stay _ _ _ ih => exact ih hhere
  | up hdir _ ih => exact ih (hdirectory (htree.parent _ _ hdir))
  | free _ _ _ _ =>
      intro l target h
      contradiction
  | down _ _ _ _ he hnolink _ ih =>
      refine ih fun target hlink => ?_
      exact hnolink target (Option.some.inj (he.symm.trans hlink))
  | link _ _ _ hitself _ => exact absurd hitself hpurpose
  | @follow _ here _ target _ _ hdir _ _ _ _ _ _ ih =>
      refine ih ?_
      split
      · exact hdirectory (get?_root fs)
      · exact hdirectory hdir

/-- The look-up that a file was made for leads to the file for a reader. -/
theorem Walks.readBack (h : Walks fs.get? .making n here steps found)
    (hfound : found = .free loc ∨ ∃ e, found = .entry loc e)
    (hfree : ∀ e, fs.get? loc = some e → ¬ Passable e) (hsame : SameOff [loc] fs fs')
    (he : fs'.get? loc = some e) (hnolink : ∀ target, e ≠ .link target) :
    Walks fs'.get? .content n here steps (.entry loc e) := by
  have hkeep : ∀ {l : Location} {e : Entry}, fs.get? l = some e → Passable e →
      fs'.get? l = some e := by
    intro l e' he' hpassable
    have hl : l ≠ loc := by
      rintro rfl
      exact hfree e' he' hpassable
    rw [hsame.get? l (by simpa using hl), he']
  induction h with
  | here _ =>
      rcases hfound with h | ⟨_, h⟩
      · contradiction
      · obtain ⟨rfl, rfl⟩ := Found.entry.inj h
        exact .here he
  | stay hdir hidle _ ih => exact .stay (hkeep hdir .directory) hidle (ih hfound)
  | up hdir _ ih => exact .up (hkeep hdir .directory) (ih hfound)
  | free hdir hname hlength _ =>
      rcases hfound with h | ⟨_, h⟩
      · obtain rfl := Found.free.inj h
        exact .down (hkeep hdir .directory) hname hlength (by simp) he hnolink (.here he)
      · contradiction
  | @down _ here name _ e' _ hdir hname hlength _ he' hnolink' _ ih =>
      have hentry : ∃ e'', fs'.get? (here ++ [name]) = some e'' ∧ ∀ target, e'' ≠ .link target := by
        by_cases hl : here ++ [name] = loc
        · exact ⟨e, hl ▸ he, hnolink⟩
        · exact ⟨e', by rw [hsame.get? _ (by simpa using hl), he'], hnolink'⟩
      obtain ⟨e'', he'', hnolink''⟩ := hentry
      exact .down (hkeep hdir .directory) hname hlength (by simp) he'' hnolink'' (ih hfound)
  | link _ _ _ hitself _ => contradiction
  | follow hdir hname hlength _ _ hlink _ ih =>
      exact .follow (hkeep hdir .directory) hname hlength (by simp) (by simp)
        (hkeep hlink (.link _)) (ih hfound)

/-- A file that is made in a tree is made at no directory and at no link. -/
theorem filePlace_free (htree : IsTree fs) (h : fs.filePlace path = .ok loc) :
    ∀ e, fs.get? loc = some e → ¬ Passable e := by
  intro e he hpassable
  cases hpassable with
  | directory => exact get?_of_filePlace h he
  | link target =>
      obtain ⟨found, hfound, hplace⟩ := lookUp_of_filePlace h
      obtain ⟨-, hwalks⟩ := lookUpSteps_eq_ok_iff.mp hfound
      rcases hplace with rfl | ⟨e', rfl, -⟩
      · rw [hwalks.found_get.1 _ rfl] at he
        contradiction
      · rw [hwalks.found_get.2 _ _ rfl] at he
        obtain rfl := Option.some.inj he
        refine hwalks.ends htree (by simp) ?_ loc target rfl
        intro target hlink
        split at hlink
        · rw [get?_root] at hlink
          cases hlink
        · rw [htree.workDir] at hlink
          cases hlink

theorem entryAt_of_filePlace (h : fs.filePlace path = .ok loc)
    (hfree : ∀ e, fs.get? loc = some e → ¬ Passable e) (hsame : SameOff [loc] fs fs')
    (he : fs'.get? loc = some e) (hnolink : ∀ target, e ≠ .link target) :
    fs'.entryAt .content path = .ok (loc, e) := by
  obtain ⟨found, hfound, hplace⟩ := lookUp_of_filePlace h
  obtain ⟨hfault, hwalks⟩ := lookUpSteps_eq_ok_iff.mp hfound
  have hplace : found = .free loc ∨ ∃ e, found = .entry loc e := by
    rcases hplace with hplace | ⟨e, hplace, -⟩
    · exact .inl hplace
    · exact .inr ⟨e, hplace⟩
  have hback := hwalks.readBack hplace hfree hsame he hnolink
  rw [← hsame.workDir] at hback
  rw [entryAt, lookUp, lookUpSteps_eq_ok_iff.mpr ⟨hfault, hback⟩]

end FileSystem

namespace Disk

open FileSystem

variable {d d' : Disk} {path : String} {bytes : List UInt8}

/-- What was written is at the end of the path for a reader, if the file was made at no directory
and at no link. Nothing else has changed. -/
theorem carries_of_writeFile
    (hfree : ∀ loc, d.files.filePlace path = .ok loc →
      ∀ e, d.files.get? loc = some e → ¬ Passable e)
    (h : (writeFile path bytes).run d = (.ok (), d')) :
    ∃ loc e, d.files.filePlace path = .ok loc ∧ SameOff [loc] d.files d'.files ∧
      d'.files.entryAt .content path = .ok (loc, e) ∧ Carries bytes e := by
  rw [writeFile, run_bind] at h
  rcases hcreate : (create path).run d with ⟨r₁, d₁⟩
  rw [hcreate] at h
  rcases call_cases hcreate with ⟨e, rfl, -⟩ | ⟨loc, rfl, hplace, hhistory⟩
  · cases (Prod.mk.inj h).1
  · dsimp only at h
    rcases write_cases h with ⟨e, hfail, -⟩ | ⟨-, hfault, hwritten⟩
    · cases hfail
    · have hfree := hfree loc hplace
      have hloc : loc ≠ [] := ne_nil_of_filePlace hplace
      have hfiles₁ : d₁.files = d.files.after (.create loc) := congrArg History.files hhistory
      have hfiles : d'.files = d₁.files.after (.write loc bytes) := congrArg History.files hwritten
      rw [hfiles₁] at hfault hfiles
      have hcreated : (d.files.after (.create loc)).get? loc
          = some (rewritten (d.files.get? loc) []) := get?_of_created hloc
      have he : d'.files.get? loc = some (rewritten (d.files.get? loc) bytes) :=
        hfiles ▸ get?_of_written hloc hcreated bytes
      have hcarries : Carries bytes (rewritten (d.files.get? loc) bytes) := by
        refine carries_rewritten hfree fun hdevice => ?_
        rw [hdevice] at hcreated
        exact eq_nil_of_writeFault hfault hcreated
      have hsame : SameOff [loc] d.files d'.files := by
        rw [hfiles]
        exact (sameOff_create hloc).trans (sameOff_write hloc bytes)
      exact ⟨loc, _, hplace, hsame, entryAt_of_filePlace hplace hfree hsame he hcarries.ne_link,
        hcarries⟩

/-- **A file that was written is read as it was written**, in a tree. A device may stand there
if there was nothing to write. -/
theorem read_of_writeFile (htree : IsTree d.files) (hbytes : bytes ≠ [])
    (h : (writeFile path bytes).run d = (.ok (), d')) : d'.files.read path = .ok bytes := by
  obtain ⟨loc, e, -, -, hentry, hcarries⟩ :=
    carries_of_writeFile (fun _ hplace => filePlace_free htree hplace) h
  exact hcarries.read (hcarries.ne_device hbytes) hentry

end Disk

end Reserved
