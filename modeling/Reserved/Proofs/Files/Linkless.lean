import Reserved.Proofs.Files.Extension
import Reserved.Proofs.Files.Publish
import Reserved.Proofs.Files.ReadBack
import Reserved.Proofs.Text.Utf8

/-!
# File systems without links

Without links a path leads to its seat and nowhere else. So the bytes that were written to a path
are at its seat, and a reader gets them as long as nothing is written there again.

An artifact is written first, and then a file to the same path with another extension. This path
leads to the same directory. There it names another entry, or it leads up, unless the two paths
are the same text. Then the file takes the place of the artifact.
-/

namespace Reserved

namespace FileSystem

/-- No entry is a link. -/
def Linkless (fs : FileSystem) : Prop :=
  ∀ l target, fs.get? l ≠ some (.link target)

/-- The bytes of each file can be counted by a word of the machine. -/
structure Counted (fs : FileSystem) : Prop where
  file : ∀ l content executable, fs.get? l = some (.file content executable) →
    content.length < UInt64.size
  program : ∀ l p executable content, fs.get? l = some (.program p executable content) →
    content.length < UInt64.size

/-- The bytes are at the seat of a path that ends in a name. -/
structure Holds (fs : FileSystem) (path : String) (seat : Location) (bytes : List UInt8) :
    Prop where
  endsInName : EndsInName path
  isSeat : SeatIn fs.get? fs.workDir path seat
  entry : ∃ executable, fs.get? seat = some (.file bytes executable)

variable {fs fs' : FileSystem} {path : String} {seat loc : Location} {bytes : List UInt8}

theorem Holds.read (h : Holds fs path seat bytes) : fs.read path = .ok bytes := by
  obtain ⟨hpath, hseat, executable, he⟩ := h
  rw [FileSystem.read, entryAt_of_seat hpath hseat he fun _ hlink => (by cases hlink)]

/-- Bytes stay where they are when another entry changes that no path leads through. -/
theorem Holds.of_sameOff (h : Holds fs path seat bytes) (hsame : SameOff [loc] fs fs')
    (hfree : ∀ e, fs.get? loc = some e → ¬ Passable e) (hne : loc ≠ seat) :
    Holds fs' path seat bytes := by
  obtain ⟨hpath, hseat, executable, he⟩ := h
  refine ⟨hpath, hsame.seatIn hfree hseat, executable, ?_⟩
  rw [hsame.get? seat (by simpa using hne.symm), he]

theorem Linkless.not_passable (h : Linkless fs) (hdir : fs.get? loc ≠ some .directory) :
    ∀ e, fs.get? loc = some e → ¬ Passable e := by
  intro e he hpassable
  cases hpassable with
  | directory => exact hdir he
  | link target => exact h loc target he

theorem Counted.length_lt (h : Counted fs) (hread : fs.read path = .ok bytes) :
    bytes.length < UInt64.size := by
  have hentry : ∀ {l : Location} {e : Entry}, fs.entryAt .content path = .ok (l, e) →
      fs.get? l = some e := fun {l} {e} hentry => by
    rw [entryAt] at hentry
    split at hentry
    · next hfound =>
      obtain ⟨rfl, rfl⟩ := Prod.mk.inj (Except.ok.inj hentry)
      obtain ⟨-, hwalks⟩ := lookUpSteps_eq_ok_iff.mp hfound
      exact hwalks.found_get.2 _ _ rfl
    · contradiction
    · contradiction
  rw [FileSystem.read] at hread
  split at hread
  · next hfile =>
    obtain rfl := Except.ok.inj hread
    exact h.file _ _ _ (hentry hfile)
  · next hprogram =>
    obtain rfl := Except.ok.inj hread
    exact h.program _ _ _ _ (hentry hprogram)
  · contradiction
  · contradiction
  · contradiction

/-- Without links the last step leads nowhere, up, or to the entry that it names. -/
theorem Walks.last_place {view : View} {purpose : Purpose} {n : Nat} {dir : Location}
    {name : String} {found : Found} (hlinkless : ∀ l target, view l ≠ some (.link target))
    (h : Walks view purpose n dir [name] found)
    (hfound : found = .free loc ∨ ∃ e, found = .entry loc e) :
    loc = dir ∨ loc = dir.dropLast ∨ loc = dir ++ [name] := by
  have hend : ∀ {here : Location}, Walks view purpose n here [] found → loc = here := by
    intro here h
    obtain ⟨e, -, rfl⟩ := h.nil
    rcases hfound with hfree | ⟨e, hentry⟩
    · cases hfree
    · exact (Found.entry.inj hentry).1.symm
  cases h with
  | stay _ _ hrest => exact .inl (hend hrest)
  | up _ hrest => exact .inr (.inl (hend hrest))
  | free _ _ _ _ =>
      rcases hfound with hfree | ⟨e, hentry⟩
      · exact .inr (.inr (Found.free.inj hfree).symm)
      · cases hentry
  | down _ _ _ _ _ _ hrest => exact .inr (.inr (hend hrest))
  | link _ _ _ _ hlink => exact absurd hlink (hlinkless _ _)
  | follow _ _ _ _ _ hlink _ => exact absurd hlink (hlinkless _ _)

/-- **A path with another extension leads to another place**, unless it is the same text. -/
theorem filePlace_ne_seat {extension : String} (hlinkless : Linkless fs)
    (hpath : EndsInName path) (hseat : SeatIn fs.get? fs.workDir path seat)
    (hextension : '/' ∉ extension.toList) (hne : Path.withExtension path extension ≠ path)
    (hplace : fs.filePlace (Path.withExtension path extension) = .ok loc) : loc ≠ seat := by
  obtain ⟨name, hname⟩ := Path.exists_fileName hpath
  obtain ⟨outer, last, hnew, hlast, hslash, habsolute, hwords, hold⟩ :=
    Path.exists_withExtension hname hextension
  have hdiffers : last ≠ name := by
    rintro rfl
    exact hne (hnew.trans (hold hpath).symm)
  obtain ⟨hpieces, habsolute', hend⟩ := Path.join_name hlast hslash outer
  -- both paths come to one directory
  obtain ⟨hwords', -, hleads⟩ := hseat
  obtain ⟨rfl, hlastWord⟩ := List.append_inj' (hwords.symm.trans hwords') rfl
  obtain ⟨rfl, -⟩ := List.cons.inj hlastWord
  obtain ⟨found, hfound, hplace⟩ := lookUp_of_filePlace hplace
  obtain ⟨-, hwalks⟩ := lookUpSteps_eq_ok_iff.mp hfound
  rw [hnew, Path.steps_of_not_endsInSlash hend, hpieces, habsolute', habsolute] at hwalks
  obtain ⟨dir, m, hleads', hstep⟩ := hwalks.split (List.cons_ne_nil _ _) rfl
  obtain ⟨rfl, -⟩ := (leads_moves_iff.mpr hleads').meet
    (fun _ _ _ h h' => Option.some.inj (h.symm.trans h')) hleads
  have hlength : ∀ {l : Location}, l.length ≤ dir.length → l ≠ dir ++ [name] := by
    rintro _ hle rfl
    rw [List.length_append, List.length_singleton] at hle
    omega
  rcases hstep.last_place hlinkless (hplace.imp_right fun ⟨e, h, _⟩ => ⟨e, h⟩)
    with rfl | rfl | rfl
  · exact hlength (Nat.le_refl _)
  · exact hlength (by rw [List.length_dropLast]; omega)
  · intro hsame
    obtain ⟨-, hsame⟩ := List.append_inj' hsame rfl
    exact hdiffers (List.cons.inj hsame).1

end FileSystem

namespace Disk

open FileSystem

variable {d d' d'' : Disk} {path text : String} {bytes : List UInt8}

/-- **An artifact that was written is at its path**, and there still are no links. -/
theorem holds_of_publish (hlinkless : Linkless d.files) (htext : text ≠ "")
    (h : (publish path text).run d = (.ok (), d')) :
    Linkless d'.files ∧ ∃ seat, Holds d'.files path seat text.utf8 := by
  obtain ⟨d₁, -, hgrown, hreplaces⟩ := publish_cases h fun seat target _ => hlinkless seat target
  have hlinkless₁ : Linkless d₁.files := by
    intro l target hlink
    rcases hgrown.get? l with hsame | ⟨-, hdir, -⟩
    · exact hlinkless l target (hsame.symm.trans hlink)
    · cases hdir.symm.trans hlink
  cases hreplaces with
  | @moved _ seat target h e hside hfree hpath htarget hdir hvia he hcarries hnew hmoved =>
      obtain ⟨hworkDir, hget⟩ := get?_of_moved hside.ne_nil htarget.ne_nil hvia he hmoved
      obtain ⟨executable, rfl⟩ := hcarries.exists_file (utf8_ne_nil htext)
      refine ⟨fun l link hlink => ?_, target, hpath, ?_, executable, by rw [hget, if_pos rfl]⟩
      · rw [hget] at hlink
        split at hlink
        · cases hlink
        · split at hlink
          · cases hlink
          · exact hlinkless₁ l link hlink
      · rw [hworkDir]
        refine htarget.mono fun l e' he' hpassable => ?_
        have hl : l ≠ target := by
          rintro rfl
          exact hlinkless₁.not_passable hdir e' he' hpassable
        have hl' : l ≠ seat := by
          rintro rfl
          exact hfree e' he' hpassable
        rw [hget, if_neg hl, if_neg hl', he']

/-- **What is written after an artifact, to its path with another extension, leaves it as it
is**, unless the two paths are the same text. The file itself is read as it was written. -/
theorem read_of_publish_writeFile {extension : String} (hlinkless : Linkless d.files)
    (htext : text ≠ "") (hbytes : bytes ≠ []) (hextension : '/' ∉ extension.toList) (h : (publish path text).run d = (.ok (), d'))
    (h' : (writeFile (Path.withExtension path extension) bytes).run d' = (.ok (), d'')) :
    d''.files.read (Path.withExtension path extension) = .ok bytes ∧
      (Path.withExtension path extension ≠ path → d''.files.read path = .ok text.utf8) := by
  obtain ⟨hlinkless, seat, hholds⟩ := holds_of_publish hlinkless htext h
  have hfree : ∀ loc, d'.files.filePlace (Path.withExtension path extension) = .ok loc →
      ∀ e, d'.files.get? loc = some e → ¬ Passable e :=
    fun loc hplace => hlinkless.not_passable (get?_of_filePlace hplace)
  obtain ⟨loc, e, hplace, hsame, hentry, hcarries⟩ := carries_of_writeFile hfree h'
  refine ⟨hcarries.read (hcarries.ne_device hbytes) hentry, fun hne => ?_⟩
  have hother := filePlace_ne_seat hlinkless hholds.endsInName hholds.isSeat hextension hne hplace
  exact (hholds.of_sameOff hsame (hfree loc hplace) hother).read

end Disk

end Reserved
