import Reserved.Proofs.Files.Replace

/-!
# Writing an artifact

Writing an artifact makes the directories that its path lies in, and then replaces the file at
the path through the one beside it. Making directories moves no seat: a directory is made only
where nothing was, and there the seats had taken one for granted. So the seats of the path and
of the one beside it are known before the write.

If no link stands beside the path, the artifact has been written there when it is moved, and a
write that succeeds leaves it at the path.
-/

namespace Reserved

namespace FileSystem

/-! ## File systems with more directories -/

/-- Directories have been made at seats of the paths, and nothing else has been done. -/
structure Grown (paths : List String) (fs fs' : FileSystem) : Prop where
  workDir : fs'.workDir = fs.workDir
  ground : ∀ avoid, fs'.ground avoid = fs.ground avoid
  get? : ∀ l, fs'.get? l = fs.get? l ∨ fs.get? l = none ∧ fs'.get? l = some .directory ∧
    ∃ path ∈ paths, fs.Seat path l

variable {fs fs' fs'' : FileSystem} {paths avoid : List String} {loc target : Location}

theorem Grown.refl (paths : List String) (fs : FileSystem) : Grown paths fs fs :=
  ⟨rfl, fun _ => rfl, fun _ => .inl rfl⟩

/-- Making directories moves no seat. -/
theorem Grown.seatOff (h : Grown paths fs fs') (avoid : List Location) :
    fs'.SeatOff avoid = fs.SeatOff avoid := by
  rw [SeatOff, SeatOff, h.workDir, h.ground avoid]

theorem Grown.seat (h : Grown paths fs fs') : fs'.Seat = fs.Seat :=
  h.seatOff []

theorem Grown.step (h : Grown paths fs fs') (hstep : Disk.MakesDirectory paths fs' fs'') :
    Grown paths fs fs'' := by
  obtain ⟨path, hpath, loc, hseat, hnone, rfl⟩ := hstep
  have hloc : loc ≠ [] := hseat.ne_nil
  have hget : ∀ l, (fs'.after (.makeDirectory loc)).get? l
      = if l = loc then some .directory else fs'.get? l := fun l => get?_set fs' _ l hloc
  refine ⟨h.workDir, fun avoid => ?_, fun l => ?_⟩
  · rw [← h.ground avoid]
    funext l
    rw [FileSystem.ground, FileSystem.ground, hget]
    by_cases hl : l = loc
    · rw [if_pos hl, hl, hnone]
      rfl
    · rw [if_neg hl]
  · rw [hget]
    split
    · next hl =>
      subst hl
      refine .inr ⟨?_, rfl, path, hpath, ?_⟩
      · rcases h.get? l with hsame | ⟨-, hdir, -⟩
        · rw [← hsame, hnone]
        · rw [hnone] at hdir
          contradiction
      · rw [← h.seat]
        exact hseat
    · exact h.get? l

/-- What was there is there. -/
theorem Grown.get?_of_some (h : Grown paths fs fs') {l : Location} {e : Entry}
    (he : fs.get? l = some e) : fs'.get? l = some e := by
  rcases h.get? l with hsame | ⟨hnone, -⟩
  · rw [hsame, he]
  · rw [hnone] at he
    contradiction

/-- A link was there before the directories were made. -/
theorem Grown.link (h : Grown paths fs fs') {l : Location} {link : String}
    (hlink : fs'.get? l = some (.link link)) : fs.get? l = some (.link link) := by
  rcases h.get? l with hsame | ⟨-, hdir, -⟩
  · rw [← hsame, hlink]
  · rw [hdir] at hlink
    cases hlink

end FileSystem

namespace Disk

open FileSystem History

/-- The paths of the directories that a path lies in. -/
def outerPaths (path : String) : List String :=
  match Path.parent? path with
  | some parent => Path.ancestors parent
  | none => []

variable {d d' : Disk} {path text : String} {r : Except FileError Unit}

theorem publish_eq (path text : String) : publish path text =
    (do makeDirectories (outerPaths path)
        attempt (sidePath path) path text.utf8) := by
  rw [publish, outerPaths]
  cases Path.parent? path with
  | none => rfl
  | some parent => rfl

/-- The files once the directories that a path lies in have been made, or as many as could be. -/
def paved (path : String) (d : Disk) : FileSystem :=
  ((makeDirectories (outerPaths path)).run d).2.files

theorem grown_paved (path : String) (d : Disk) :
    Grown (outerPaths path) d.files (paved path d) :=
  ((acts_makeDirectories (List.Subset.refl (outerPaths path)) d).keeps
    (fun _ _ hstep hgrown => Grown.step hgrown hstep) (Grown.refl _ _)).1

/-- **A write makes directories and then tries to replace a file.** -/
theorem publish_attempts (h : (publish path text).run d = (r, d')) :
    ∃ d₁ : Disk, d₁.files = paved path d ∧
      Via (MakesDirectory (outerPaths path)) d.history d₁.history ∧
      Attempts d₁ (sidePath path) path text.utf8 r d' := by
  have hacts := acts_makeDirectories (List.Subset.refl (outerPaths path)) d
  have hpaved : ((makeDirectories (outerPaths path)).run d).2.files = paved path d := rfl
  rw [publish_eq, run_bind] at h
  rcases hmake : (makeDirectories (outerPaths path)).run d with ⟨r₁, d₁⟩
  rw [hmake] at h hacts hpaved
  refine ⟨d₁, hpaved, hacts, ?_⟩
  cases r₁ with
  | error e =>
      obtain ⟨rfl, rfl⟩ := Prod.mk.inj h
      exact .undone rfl
  | ok _ =>
      obtain ⟨init, name, hsteps, hname⟩ := Path.steps_sidePath path
      exact attempts_of_run hsteps hname h

/-- If no link stands beside the path, the file there is replaced through one made anew. -/
theorem publish_cases (h : (publish path text).run d = (r, d'))
    (hnolink : ∀ seat target, d.files.Seat (sidePath path) seat →
      d.files.get? seat ≠ some (.link target)) :
    ∃ d₁ : Disk, Via (MakesDirectory (outerPaths path)) d.history d₁.history ∧
      Grown (outerPaths path) d.files d₁.files ∧
      Replaces d₁ (sidePath path) path text.utf8 r d' := by
  obtain ⟨d₁, hpaved, hacts, hattempts⟩ := publish_attempts h
  have hgrown : Grown (outerPaths path) d.files d₁.files := hpaved ▸ grown_paved path d
  refine ⟨d₁, hacts, hgrown, hattempts.replaces fun seat target hseat hlink => ?_⟩
  rw [hgrown.seat] at hseat
  exact hnolink seat target hseat (hgrown.link hlink)

/-- The entry at the path of an artifact has its text, whatever stood there. -/
theorem read_of_moved {fs fs' : FileSystem} {seat target : Location} {bytes : List UInt8}
    {e : Entry} (hpath : EndsInName path) (htarget : SeatIn fs.get? fs.workDir path target)
    (hoff : fs.SeatOff [target] path target) (hsame : SameOff [seat, target] fs fs')
    (hfree : ∀ e, fs.get? seat = some e → ¬ Passable e) (he : fs'.get? target = some e)
    (hcarries : Carries bytes e) (hfile : e ≠ .fullDevice) : fs'.read path = .ok bytes := by
  obtain ⟨-, hseat⟩ := htarget.meet (agree_get?_ground fs [target]) hoff
  have hseat : SeatIn fs'.get? fs'.workDir path target := by
    rw [hsame.workDir]
    refine hseat.mono fun l e he hpassable => ?_
    rw [View.meet, Option.bind_eq_some_iff] at he
    obtain ⟨_, hground, he⟩ := he
    have hl : l ∉ [seat, target] := by
      intro hl
      rcases List.mem_cons.mp hl with rfl | hl
      · exact hfree e he hpassable
      · rw [ground, if_pos hl] at hground
        contradiction
    rw [hsame.get? l hl, he]
  refine hcarries.read hfile (entryAt_of_seat hpath hseat he fun link hlink => ?_)
  exact absurd hlink (hcarries.ne_link link)

/-- The artifact of a write that succeeds is at its path. It is a new file if nothing was beside
the path, and it is read there unless the path leads through its own last entry. -/
theorem exists_artifact (h : (publish path text).run d = (.ok (), d'))
    (hnolink : ∀ seat target, d.files.Seat (sidePath path) seat →
      d.files.get? seat ≠ some (.link target)) :
    ∃ target e, d.files.Seat path target ∧ d'.files.get? target = some e ∧
      Carries text.utf8 e ∧
      ((∀ side, d.files.Seat (sidePath path) side → d.files.get? side = none) →
        e = .file text.utf8 false) ∧
      (e ≠ .fullDevice → d.files.SeatOff [target] path target →
        d'.files.read path = .ok text.utf8) := by
  obtain ⟨d₁, -, hgrown, hreplaces⟩ := publish_cases h hnolink
  have hseat := hgrown.seat
  cases hreplaces with
  | @moved _ seat target h e hside hfree hpath htarget _ hvia he hcarries hnew hmoved =>
      obtain ⟨hworkDir, hget⟩ := get?_of_moved hside.ne_nil htarget.ne_nil hvia he hmoved
      have hentry : d'.files.get? target = some e := by rw [hget, if_pos rfl]
      refine ⟨target, e, hseat ▸ seat_of_get? htarget, hentry, hcarries, fun hnone => ?_,
        fun hfile hoff => ?_⟩
      · refine hnew ?_
        rcases hgrown.get? seat with hsame | ⟨-, hdir, -⟩
        · rw [hsame, hnone seat (hseat ▸ seat_of_get? hside)]
        · exact absurd .directory (hfree _ hdir)
      · rw [← hgrown.seatOff] at hoff
        refine read_of_moved hpath htarget hoff ⟨hworkDir, fun l hl => ?_⟩ hfree hentry hcarries
          hfile
        rw [List.mem_cons, List.mem_singleton, not_or] at hl
        rw [hget, if_neg hl.2, if_neg hl.1]

/-- If nothing was beside its path, an artifact that has been written is a new file. -/
theorem exists_new_artifact (h : (publish path text).run d = (.ok (), d'))
    (hfree : ∀ side, d.files.Seat (sidePath path) side → d.files.get? side = none) :
    ∃ target, d.files.Seat path target ∧
      d'.files.get? target = some (.file text.utf8 false) ∧
      (d.files.SeatOff [target] path target → d'.files.read path = .ok text.utf8) := by
  have hnolink : ∀ seat link, d.files.Seat (sidePath path) seat →
      d.files.get? seat ≠ some (.link link) := by
    intro seat link hseat
    rw [hfree seat hseat]
    simp
  obtain ⟨target, e, htarget, he, -, hnew, hread⟩ := exists_artifact h hnolink
  obtain rfl := hnew hfree
  exact ⟨target, htarget, he, hread (by simp)⟩

end Disk

end Reserved
