import Reserved.Proofs.Files.History

/-!
# Attempts to replace a file

A file is replaced through the one beside it, which is made, written and moved, or removed again
when one of these fails. The file beside is made where its path leads. A link that stands there is
followed when the file is made, but it is the link that is moved or removed.

Up to the move all steps change one entry, and no path leads through that entry, before or after.
So the seats of the two paths are the same all along, and what stands beside is found again to be
removed.
-/

namespace Reserved

namespace FileSystem

/-! ## Differences at few locations -/

/-- Two file systems are the same off the given locations. -/
structure SameOff (locs : List Location) (fs fs' : FileSystem) : Prop where
  workDir : fs'.workDir = fs.workDir
  get? : ∀ l, l ∉ locs → fs'.get? l = fs.get? l

variable {fs fs' fs'' : FileSystem} {locs : List Location} {loc source target : Location}

theorem SameOff.refl (locs : List Location) (fs : FileSystem) : SameOff locs fs fs :=
  ⟨rfl, fun _ _ => rfl⟩

theorem SameOff.trans (h : SameOff locs fs fs') (h' : SameOff locs fs' fs'') :
    SameOff locs fs fs'' :=
  ⟨h'.workDir.trans h.workDir, fun l hl => (h'.get? l hl).trans (h.get? l hl)⟩

theorem SameOff.symm (h : SameOff locs fs fs') : SameOff locs fs' fs :=
  ⟨h.workDir.symm, fun l hl => (h.get? l hl).symm⟩

/-- What leads nowhere, on either side of a change, does not matter to the seats of paths. -/
theorem SameOff.seatIn {path : String} (h : SameOff [loc] fs fs')
    (hloc : ∀ e, fs.get? loc = some e → ¬ Passable e)
    (hseat : SeatIn fs.get? fs.workDir path target) : SeatIn fs'.get? fs'.workDir path target := by
  rw [h.workDir]
  refine hseat.mono fun l e he hpassable => ?_
  have hl : l ≠ loc := by
    rintro rfl
    exact hloc e he hpassable
  rw [h.get? l (by simpa using hl), he]

/-! ## Steps -/

theorem get?_create (hloc : loc ≠ []) (l : Location) : (fs.after (.create loc)).get? l =
    if l = loc then some (emptied (fs.get? loc)) else fs.get? l :=
  get?_set fs _ l hloc

theorem sameOff_create (hloc : loc ≠ []) : SameOff [loc] fs (fs.after (.create loc)) := by
  refine ⟨rfl, fun l hl => ?_⟩
  rw [get?_create hloc, if_neg (by simpa using hl)]

theorem get?_write_file {content bytes : List UInt8} {executable : Bool} (hloc : loc ≠ [])
    (he : fs.get? loc = some (.file content executable)) :
    (fs.after (.write loc bytes)).get? loc = some (.file (content ++ bytes) executable) := by
  rw [after, he]
  exact (get?_set fs _ _ hloc).trans (if_pos rfl)

theorem sameOff_write (hloc : loc ≠ []) (bytes : List UInt8) :
    SameOff [loc] fs (fs.after (.write loc bytes)) := by
  rw [after]
  split
  · exact ⟨rfl, fun l hl => by rw [get?_set fs _ l hloc, if_neg (by simpa using hl)]⟩
  · exact SameOff.refl _ _

theorem get?_remove (hloc : loc ≠ []) (l : Location) : (fs.after (.remove loc)).get? l =
    if l = loc then none else fs.get? l :=
  get?_erase fs l hloc

theorem sameOff_remove (hloc : loc ≠ []) : SameOff [loc] fs (fs.after (.remove loc)) := by
  refine ⟨rfl, fun l hl => ?_⟩
  rw [get?_remove hloc, if_neg (by simpa using hl)]

theorem get?_rename {e : Entry} (he : fs.get? source = some e) (hsource : source ≠ [])
    (htarget : target ≠ []) (l : Location) : (fs.after (.rename source target)).get? l =
      if l = target then some e else if l = source then none else fs.get? l := by
  rw [after, he]
  dsimp only
  split
  · next hsame =>
    subst hsame
    split
    · next hl => rw [hl, he]
    · rfl
  · rw [get?_set _ _ l htarget, get?_erase fs l hsource]

theorem workDir_rename (fs : FileSystem) (source target : Location) :
    (fs.after (.rename source target)).workDir = fs.workDir := by
  rw [after]
  split
  · split
    · rfl
    · rfl
  · rfl

/-! ## Files made anew -/

/-- What an entry becomes when a file is made in its place and given some bytes. A file remains as
executable as it was, and what is no file remains what it was. -/
def rewritten : Option Entry → List UInt8 → Entry
  | none, bytes => .file bytes false
  | some (.file _ executable), bytes => .file bytes executable
  | some (.program _ executable _), bytes => .file bytes executable
  | some e, _ => e

variable {e : Entry} {old : Option Entry} {bytes start : List UInt8} {l : Location}

theorem rewritten_none (bytes : List UInt8) : rewritten none bytes = .file bytes false := rfl

/-- What a path leads through remains what it was. -/
theorem Passable.rewritten (h : Passable e) (bytes : List UInt8) :
    rewritten (some e) bytes = e := by
  cases h with
  | directory => rfl
  | link target => rfl

/-- A path leads only through what has been there before. -/
theorem Passable.of_rewritten (h : Passable (FileSystem.rewritten old bytes)) :
    old = some (FileSystem.rewritten old bytes) := by
  cases old with
  | none => cases h
  | some e =>
      cases e with
      | directory => rfl
      | link target => rfl
      | file content executable => cases h
      | program p executable content => cases h
      | fullDevice => cases h

theorem get?_of_created (hloc : loc ≠ []) :
    (fs.after (.create loc)).get? loc = some (rewritten (fs.get? loc) []) := by
  rw [get?_create hloc, if_pos rfl]
  cases fs.get? loc with
  | none => rfl
  | some e => cases e <;> rfl

theorem get?_of_written (hloc : loc ≠ []) (h : fs.get? loc = some (rewritten old start))
    (bytes : List UInt8) :
    (fs.after (.write loc bytes)).get? loc = some (rewritten old (start ++ bytes)) := by
  cases old with
  | none => exact get?_write_file hloc h
  | some e =>
      cases e with
      | file content executable => exact get?_write_file hloc h
      | program p executable content => exact get?_write_file hloc h
      | _ =>
          rw [after, h]
          exact h

/-- **What stands at a location before and after a file was made there makes no difference to
paths** that lead elsewhere. -/
theorem SameOff.passable_iff (h : SameOff [loc] fs fs')
    (hloc : fs'.get? loc = some (rewritten (fs.get? loc) bytes)) (hpassable : Passable e) :
    fs'.get? l = some e ↔ fs.get? l = some e := by
  by_cases hl : l = loc
  · subst hl
    constructor
    · intro he
      obtain rfl := Option.some.inj (hloc.symm.trans he)
      exact hpassable.of_rewritten
    · intro he
      rw [hloc, he, hpassable.rewritten]
  · rw [h.get? l (by simpa using hl)]

/-- A file of these bytes, or a device to which nothing had to be written. -/
inductive Carries (bytes : List UInt8) : Entry → Prop
  | file (executable : Bool) : Carries bytes (.file bytes executable)
  | device : bytes = [] → Carries bytes .fullDevice

theorem Carries.not_passable (h : Carries bytes e) : ¬ Passable e := by
  intro hpassable
  cases h with
  | file _ => cases hpassable
  | device _ => cases hpassable

theorem Carries.ne_link (h : Carries bytes e) (target : String) : e ≠ .link target := by
  rintro rfl
  exact h.not_passable (.link target)

/-- A reader gets the bytes of a file. -/
theorem Carries.read {path : String} (h : Carries bytes e) (hfile : e ≠ .fullDevice)
    (hentry : fs.entryAt .content path = .ok (loc, e)) : fs.read path = .ok bytes := by
  rw [FileSystem.read, hentry]
  cases h with
  | file _ => rfl
  | device _ => exact absurd rfl hfile

/-- What carries some bytes is a file of them. -/
theorem Carries.exists_file (h : Carries bytes e) (hbytes : bytes ≠ []) :
    ∃ executable, e = .file bytes executable := by
  cases h with
  | file executable => exact ⟨executable, rfl⟩
  | device hnone => exact absurd hnone hbytes

theorem Carries.ne_device (h : Carries bytes e) (hbytes : bytes ≠ []) : e ≠ .fullDevice := by
  obtain ⟨executable, rfl⟩ := h.exists_file hbytes
  simp

theorem carries_rewritten (hfree : ∀ e, old = some e → ¬ Passable e)
    (hdevice : old = some .fullDevice → bytes = []) :
    Carries bytes (rewritten old bytes) := by
  cases old with
  | none => exact .file _
  | some e =>
      cases e with
      | directory => exact absurd .directory (hfree _ rfl)
      | link target => exact absurd (.link target) (hfree _ rfl)
      | file content executable => exact .file _
      | program p executable content => exact .file _
      | fullDevice => exact .device (hdevice rfl)

/-- What can be written to a device is nothing. -/
theorem eq_nil_of_writeFault (h : fs.writeFault? loc bytes = none)
    (hloc : fs.get? loc = some .fullDevice) : bytes = [] := by
  rw [writeFault?, hloc] at h
  cases bytes with
  | nil => rfl
  | cons b rest => cases h

end FileSystem

namespace Disk

open FileSystem History

variable {d d' d₁ d₂ : Disk} {side path : String} {bytes written : List UInt8}
  {seat loc : Location}

theorem sameOff_of_via {locs : List Location} {h h' : History} (hvia : Via (SameOff locs) h h') :
    SameOff locs h.files h'.files :=
  (hvia.keeps (fun _ _ hstep hsame => SameOff.trans hsame hstep) (SameOff.refl _ _)).1

/-! ## The file beside a path -/

/-- Since `d` a file has been made for a path and given some bytes, and nothing else has been
done. It was made at the seat of the path, if no link was there. -/
structure Made (d : Disk) (side : String) (seat loc : Location) (written : List UInt8)
    (d' : Disk) : Prop where
  path : EndsInName side
  isSeat : SeatIn d.files.get? d.files.workDir side seat
  place : d.files.filePlace side = .ok loc
  direct : (∀ target, d.files.get? seat ≠ some (.link target)) →
    loc = seat ∧ d.files.get? seat ≠ some .directory
  via : Via (SameOff [loc]) d.history d'.history
  content : d'.files.get? loc = some (rewritten (d.files.get? loc) written)

theorem Made.sameOff (h : Made d side seat loc written d') : SameOff [loc] d.files d'.files :=
  sameOff_of_via h.via

theorem Made.of_history (h : Made d side seat loc written d₁)
    (hhistory : d₂.history = d₁.history) : Made d side seat loc written d₂ := by
  have hfiles : d₂.files = d₁.files := congrArg History.files hhistory
  exact ⟨h.path, h.isSeat, h.place, h.direct, hhistory ▸ h.via, hfiles ▸ h.content⟩

theorem Made.write (h : Made d side seat loc written d₁) {part : List UInt8}
    (hhistory : d₂.history = d₁.history.after (.write loc part)) :
    Made d side seat loc (written ++ part) d₂ := by
  have hloc : loc ≠ [] := ne_nil_of_filePlace h.place
  have hfiles : d₂.files = d₁.files.after (.write loc part) := congrArg History.files hhistory
  refine ⟨h.path, h.isSeat, h.place, h.direct, ?_, hfiles ▸ get?_of_written hloc h.content part⟩
  rw [hhistory]
  exact h.via.trans (.one (sameOff_write hloc part))

/-- The seats of paths are where they were. -/
theorem Made.seatIn_iff (h : Made d side seat loc written d') {l : Location} :
    SeatIn d'.files.get? d'.files.workDir path l ↔ SeatIn d.files.get? d.files.workDir path l := by
  rw [h.sameOff.workDir]
  constructor
  · exact SeatIn.mono fun l e he hpassable => (h.sameOff.passable_iff h.content hpassable).mp he
  · exact SeatIn.mono fun l e he hpassable => (h.sameOff.passable_iff h.content hpassable).mpr he

/-- The entry that stands beside the path is the file, or the link that led to it. -/
theorem Made.standing (h : Made d side seat loc written d') :
    ∃ e, d'.files.get? seat = some e ∧ e ≠ .directory := by
  by_cases hlink : ∃ target, d.files.get? seat = some (.link target)
  · obtain ⟨target, hlink⟩ := hlink
    exact ⟨_, (h.sameOff.passable_iff h.content (.link target)).mpr hlink, by simp⟩
  · obtain ⟨rfl, hdir⟩ := h.direct fun target ht => hlink ⟨target, ht⟩
    refine ⟨_, h.content, fun hsame => ?_⟩
    have hpassable : Passable (rewritten (d.files.get? loc) written) := hsame ▸ .directory
    exact hdir (hpassable.of_rewritten.trans (congrArg some hsame))

/-- It is found again to be removed. -/
theorem Made.removalPlace (h : Made d side seat loc written d') :
    d'.files.removalPlace side = .ok seat := by
  obtain ⟨e, he, hdir⟩ := h.standing
  exact removalPlace_of_seat h.path (h.seatIn_iff.mpr h.isSeat) he hdir

/-- What stands elsewhere is as before, unless a link has led there. -/
theorem Made.get?_cases (h : Made d side seat loc written d') {l : Location} (hl : l ≠ seat) :
    d'.files.get? l = d.files.get? l ∨ ¬ d.files.Seat side l ∧ d.files.filePlace side = .ok l ∧
      d'.files.get? l = some (rewritten (d.files.get? l) written) := by
  by_cases hloc : l = loc
  · subst hloc
    exact .inr ⟨fun hside => hl (hside.unique (seat_of_get? h.isSeat)), h.place, h.content⟩
  · exact .inl (h.sameOff.get? l (by simpa using hloc))

/-- What stands where when the entry beside the path has been removed. -/
theorem Made.get?_removed (h : Made d side seat loc written d₁)
    (hremoved : d₂.history = d₁.history.after (.remove seat)) (l : Location) :
    d₂.files.get? l = if l = seat then none else d₁.files.get? l := by
  have hfiles : d₂.files = d₁.files.after (.remove seat) := congrArg History.files hremoved
  rw [hfiles, get?_remove h.isSeat.ne_nil]

/-- What stands where when the entry beside the path has been moved. -/
theorem Made.get?_moved (h : Made d side seat loc written d₁) {target : Location}
    (htarget : target ≠ []) (hmoved : d₂.history = d₁.history.after (.rename seat target))
    (l : Location) : d₂.files.get? l =
      if l = target then d₁.files.get? seat else if l = seat then none else d₁.files.get? l := by
  have hfiles : d₂.files = d₁.files.after (.rename seat target) := congrArg History.files hmoved
  obtain ⟨e, he, -⟩ := h.standing
  rw [hfiles, get?_rename he h.isSeat.ne_nil htarget, he]

/-! ## Attempts -/

/-- Removes what a failed attempt has left beside a path. -/
def cleanUp (side : String) (e : FileError) : DiskAction Unit := do
  removeIfPresent side
  throw e

/-- Replaces a file through the one beside it, which is removed if this fails. -/
def attempt (side path : String) (bytes : List UInt8) : DiskAction Unit :=
  tryCatch (replaceThrough side path bytes) (cleanUp side)

/-- How an attempt can end. -/
inductive Attempts (d : Disk) (side path : String) (bytes : List UInt8) :
    Except FileError Unit → Disk → Prop
  | undone {e : FileError} {d' : Disk} : d'.history = d.history →
      Attempts d side path bytes (.error e) d'
  /-- No file was made, and what stood beside the path is removed. -/
  | removed {e : FileError} {d' : Disk} {seat : Location} :
      SeatIn d.files.get? d.files.workDir side seat →
      d'.history = d.history.after (.remove seat) → Attempts d side path bytes (.error e) d'
  /-- The file got no further than some of its bytes. -/
  | failed {e : FileError} {d₁ d' : Disk} {seat loc : Location} {part : List UInt8} :
      part <+: bytes → Made d side seat loc part d₁ →
      d'.history = d₁.history.after (.remove seat) → Attempts d side path bytes (.error e) d'
  | moved {d₁ d' : Disk} {seat loc target : Location} :
      Made d side seat loc bytes d₁ →
      (d.files.get? loc = some .fullDevice → bytes = []) →
      EndsInName path → SeatIn d.files.get? d.files.workDir path target →
      d.files.get? target ≠ some .directory →
      d'.history = d₁.history.after (.rename seat target) →
      Attempts d side path bytes (.ok ()) d'

theorem run_cleanUp (side : String) (e : FileError) (d : Disk) :
    ∃ d', (cleanUp side e).run d = (.error e, d') ∧
      ((∃ e, d.files.removalPlace side = .error e ∧ d'.history = d.history) ∨
        ∃ loc, d.files.removalPlace side = .ok loc ∧
          d'.history = d.history.after (.remove loc)) := by
  obtain ⟨d', hrun, hcases⟩ := removeIfPresent_cases side d
  refine ⟨d', ?_, hcases⟩
  rw [cleanUp, run_bind, hrun]
  rfl

/-- Once the file has been made, a failure removes what stands beside the path. -/
theorem Made.cleanUp {e : FileError} {r : Except FileError Unit}
    (h : Made d side seat loc written d₁) (hwritten : written <+: bytes)
    (hrun : (cleanUp side e).run d₁ = (r, d')) : Attempts d side path bytes r d' := by
  obtain ⟨d₂, hclean, hcases⟩ := run_cleanUp side e d₁
  obtain ⟨rfl, rfl⟩ := Prod.mk.inj (hclean.symm.trans hrun)
  rcases hcases with ⟨_, hfail, -⟩ | ⟨removed, hplace, hremoved⟩
  · rw [h.removalPlace] at hfail
    contradiction
  · obtain rfl := Except.ok.inj (h.removalPlace.symm.trans hplace)
    exact .failed hwritten h hremoved

/-- A file that is moved has its bytes, and a directory does not give way. -/
theorem attempts_of_rename {r : Except FileError Unit} (hmade : Made d side seat loc bytes d₁)
    (hdevice : d.files.get? loc = some .fullDevice → bytes = [])
    (h : (tryCatch (rename side path) (cleanUp side)).run d₁ = (r, d')) :
    Attempts d side path bytes r d' := by
  rw [run_tryCatch] at h
  rcases hrename : (rename side path).run d₁ with ⟨r₁, d₂⟩
  rw [hrename] at h
  rcases rename_cases hrename with ⟨e, rfl, hsame⟩ | ⟨source, target, rfl, hplaces, hmoved⟩
  · exact (hmade.of_history hsame).cleanUp (List.prefix_refl _) h
  · obtain ⟨rfl, rfl⟩ := Prod.mk.inj h
    obtain ⟨hsource, hpath, htarget, hdir⟩ := renamePlaces_eq_ok hplaces
    obtain rfl := (seat_of_get? (hmade.seatIn_iff.mp hsource)).unique (seat_of_get? hmade.isSeat)
    refine .moved hmade hdevice hpath (hmade.seatIn_iff.mp htarget) (fun hdirectory => ?_) hmoved
    exact hdir ((hmade.sameOff.passable_iff hmade.content .directory).mpr hdirectory)

section

variable {init : List String} {name : String} (hsteps : Path.steps side = init ++ [name])
  (hname : IsName name)
include hsteps hname

/-- A file that was not made is not there, or an old one is removed in its place. -/
theorem attempts_of_not_made {e : FileError} {r : Except FileError Unit}
    (hhistory : d₁.history = d.history) (hrun : (cleanUp side e).run d₁ = (r, d')) :
    Attempts d side path bytes r d' := by
  have hfiles : d₁.files = d.files := congrArg History.files hhistory
  obtain ⟨d₂, hclean, hcases⟩ := run_cleanUp side e d₁
  obtain ⟨rfl, rfl⟩ := Prod.mk.inj (hclean.symm.trans hrun)
  rcases hcases with ⟨_, -, hnothing⟩ | ⟨removed, hplace, hremoved⟩
  · exact .undone (hnothing.trans hhistory)
  · rw [hfiles] at hplace
    rw [hhistory] at hremoved
    exact .removed (removalPlace_eq_ok hsteps hname hplace).1 hremoved

theorem made_of_create (hplace : d.files.filePlace side = .ok loc)
    (hhistory : d₁.history = d.history.after (.create loc)) :
    ∃ seat, Made d side seat loc [] d₁ := by
  have hloc : loc ≠ [] := ne_nil_of_filePlace hplace
  obtain ⟨hside, seat, hseat, hdirect⟩ := filePlace_eq_ok hsteps hname hplace
  have hfiles : d₁.files = d.files.after (.create loc) := congrArg History.files hhistory
  refine ⟨seat, hside, hseat, hplace, hdirect, ?_, hfiles ▸ get?_of_created hloc⟩
  rw [hhistory]
  exact .one (sameOff_create hloc)

/-- **Every end of an attempt.** -/
theorem attempts_of_run {r : Except FileError Unit}
    (h : (attempt side path bytes).run d = (r, d')) : Attempts d side path bytes r d' := by
  rw [attempt, run_tryCatch, replaceThrough, writeFile, run_bind, run_bind] at h
  rcases hcreate : (create side).run d with ⟨r₁, d₁⟩
  rw [hcreate] at h
  rcases call_cases hcreate with ⟨e, rfl, hhistory⟩ | ⟨loc, rfl, hplace, hhistory⟩
  · exact attempts_of_not_made hsteps hname hhistory h
  obtain ⟨seat, hmade⟩ := made_of_create hsteps hname hplace hhistory
  dsimp only at h
  rcases hwrite : (write loc bytes).run d₁ with ⟨r₂, d₂⟩
  rw [hwrite] at h
  rcases write_cases hwrite with ⟨e, rfl, hsame | ⟨part, hpart, hwritten⟩⟩ | ⟨rfl, hfault, hwritten⟩
  · exact (hmade.of_history hsame).cleanUp (List.nil_prefix) h
  · exact (hmade.write hwritten).cleanUp hpart h
  · refine attempts_of_rename (hmade.write hwritten) (fun hdevice => ?_) ?_
    · have hcreated := hmade.content
      rw [hdevice] at hcreated
      exact eq_nil_of_writeFault hfault hcreated
    · rw [run_tryCatch]
      exact h

end

end Disk

end Reserved
