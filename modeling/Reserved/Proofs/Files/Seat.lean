import Reserved.Proofs.Files.Path

/-!
# Where calls take place

The seat of a path is the location of its last word in the directory that the words before it
lead to. Directories that are missing on the way are taken as made, since a call on the path
makes them first. So the seat of a path is there before the call, and the call may move through
many file systems without moving it.

Every place that a call finds is the seat of its path. Only a link that is followed leads
elsewhere.
-/

namespace Reserved

namespace FileSystem

/-! ## Seats -/

/-- In the view, the words of a path lead to the directory of `loc`, and the last one names it. -/
inductive SeatIn (view : View) (workDir : Location) (path : String) : Location → Prop
  | mk {init : List String} {name : String} {dir : Location} {m : Nat} :
      Path.words path = init ++ [name] → IsName name →
      Leads view 40 (if Path.isAbsolute path then [] else workDir) init dir m →
      SeatIn view workDir path (dir ++ [name])

/-- What stands at each location once the directories that are missing have been made, and
nothing at the locations to be avoided. -/
def ground (fs : FileSystem) (avoid : List Location) : View :=
  fun l => if l ∈ avoid then none else some ((fs.get? l).getD .directory)

/-- The seat of a path whose directory is reached without the locations to be avoided. -/
def SeatOff (fs : FileSystem) (avoid : List Location) : String → Location → Prop :=
  SeatIn (fs.ground avoid) fs.workDir

/-- Where the entry at a path is, or will be. -/
def Seat (fs : FileSystem) : String → Location → Prop :=
  fs.SeatOff []

variable {view view' : View} {workDir loc loc' : Location} {path : String}

theorem SeatIn.ne_nil (h : SeatIn view workDir path loc) : loc ≠ [] := by
  obtain ⟨-, -, -⟩ := h
  simp

theorem SeatIn.mono (hview : ∀ l e, view l = some e → Passable e → view' l = some e)
    (h : SeatIn view workDir path loc) : SeatIn view' workDir path loc := by
  obtain ⟨hwords, hname, hleads⟩ := h
  exact ⟨hwords, hname, hleads.mono hview⟩

/-- Views that agree give a path the same seat. -/
theorem SeatIn.meet (hagree : view.Agree view') (h : SeatIn view workDir path loc)
    (h' : SeatIn view' workDir path loc') :
    loc = loc' ∧ SeatIn (view.meet view') workDir path loc := by
  obtain ⟨hwords, hname, hleads⟩ := h
  obtain ⟨hwords', -, hleads'⟩ := h'
  obtain ⟨rfl, hlast⟩ := List.append_inj' (hwords.symm.trans hwords') rfl
  obtain ⟨rfl, -⟩ := List.cons.inj hlast
  obtain ⟨rfl, hmeet⟩ := hleads.meet hagree hleads'
  exact ⟨rfl, ⟨hwords, hname, hmeet⟩⟩

/-- A path and the path beside it have their seats in one directory. -/
theorem SeatIn.beside {name : String} (hname : Path.fileName? path = some name)
    (h : SeatIn view workDir path loc) :
    ∃ dir, loc = dir ++ [name] ∧
      SeatIn view workDir (Disk.sidePath path) (dir ++ [name ++ ".tmp"]) := by
  obtain ⟨init, hpath, -, hside⟩ := Path.words_sidePath hname
  obtain ⟨hwords, -, hleads⟩ := h
  obtain ⟨rfl, hlast⟩ := List.append_inj' (hwords.symm.trans hpath) rfl
  obtain ⟨rfl, -⟩ := List.cons.inj hlast
  rw [← Path.isAbsolute_sidePath] at hleads
  exact ⟨_, rfl, ⟨hside, Path.isName_tmp _, hleads⟩⟩

theorem SeatIn.of_beside {name : String} (hname : Path.fileName? path = some name)
    (h : SeatIn view workDir (Disk.sidePath path) loc) :
    ∃ dir, loc = dir ++ [name ++ ".tmp"] ∧ SeatIn view workDir path (dir ++ [name]) := by
  obtain ⟨init, hpath, hisName, hside⟩ := Path.words_sidePath hname
  obtain ⟨hwords, -, hleads⟩ := h
  obtain ⟨rfl, hlast⟩ := List.append_inj' (hwords.symm.trans hside) rfl
  obtain ⟨rfl, -⟩ := List.cons.inj hlast
  rw [Path.isAbsolute_sidePath] at hleads
  exact ⟨_, rfl, ⟨hpath, hisName, hleads⟩⟩

variable {fs fs' : FileSystem} {avoid avoid' : List Location}

theorem ground_eq_some {l : Location} {e : Entry} (hl : l ∉ avoid) (he : fs.get? l = some e) :
    fs.ground avoid l = some e := by
  rw [ground, if_neg hl, he]
  rfl

theorem agree_ground (fs : FileSystem) (avoid avoid' : List Location) :
    (fs.ground avoid).Agree (fs.ground avoid') := by
  intro l e e' h h'
  rw [ground] at h h'
  split at h
  · contradiction
  split at h'
  · contradiction
  exact Option.some.inj (h.symm.trans h')

theorem agree_get?_ground (fs : FileSystem) (avoid : List Location) :
    View.Agree fs.get? (fs.ground avoid) := by
  intro l e e' h h'
  rw [ground] at h'
  split at h'
  · contradiction
  rw [h] at h'
  exact Option.some.inj h'

theorem ground_congr (h : ∀ l, l ∉ avoid → fs'.get? l = fs.get? l) :
    fs'.ground avoid = fs.ground avoid := by
  funext l
  rw [ground, ground]
  split
  · rfl
  · next hl => rw [h l hl]

/-- A path has one seat at most. -/
theorem Seat.unique (h : fs.Seat path loc) (h' : fs.Seat path loc') : loc = loc' :=
  (h.meet (agree_ground fs [] []) h').1

/-- A seat that is reached without many locations is reached without a few of them. -/
theorem SeatOff.mono_avoid (hsubset : avoid' ⊆ avoid) (h : fs.SeatOff avoid path loc) :
    fs.SeatOff avoid' path loc := by
  refine SeatIn.mono ?_ h
  intro l e he _
  rw [ground] at he ⊢
  split at he
  · contradiction
  · next hl => rwa [if_neg fun hmem => hl (hsubset hmem)]

theorem SeatOff.seat (h : fs.SeatOff avoid path loc) : fs.Seat path loc :=
  h.mono_avoid (List.nil_subset _)

/-- A bare name has its seat in the working directory. -/
theorem seatOff_of_name {name : String} (hwords : Path.words path = [name]) (hname : IsName name)
    (hrelative : Path.isAbsolute path = false) (hoff : fs.workDir ∉ avoid)
    (hdirectory : fs.get? fs.workDir = some .directory) :
    fs.SeatOff avoid path (fs.workDir ++ [name]) := by
  have hstop : Leads (fs.ground avoid) 40 (if Path.isAbsolute path then [] else fs.workDir) []
      fs.workDir 40 := by
    rw [hrelative]
    exact .stop (ground_eq_some hoff hdirectory)
  exact ⟨hwords, hname, hstop⟩

/-- What is there leads to the seat. -/
theorem seat_of_get? (h : SeatIn fs.get? fs.workDir path loc) : fs.Seat path loc :=
  h.mono fun _ _ he _ => ground_eq_some List.not_mem_nil he

/-! ## Look-ups of names -/

variable {purpose : Purpose} {steps init : List String} {name : String} {found : Found}

theorem lookUpSteps_eq_ok_iff : fs.lookUpSteps purpose path steps = .ok found ↔
    pathFault? path = none ∧
      Walks fs.get? purpose 40 (if Path.isAbsolute path then [] else fs.workDir) steps found := by
  rw [lookUpSteps, ← walkLinks_eq_ok_iff]
  cases pathFault? path with
  | none => exact ⟨fun h => ⟨rfl, h⟩, fun h => h.2⟩
  | some e =>
      constructor
      · intro h
        contradiction
      · intro h
        exact absurd h.1 (by simp)

/-- A path that can be looked up and ends in a name that an entry can have. -/
structure EndsInName (path : String) : Prop where
  fault : pathFault? path = none
  last : ∃ init name, Path.steps path = init ++ [name] ∧ IsName name ∧ name.utf8.length ≤ 255

theorem words_of_steps (hsteps : Path.steps path = init ++ [name]) (hname : IsName name) :
    Path.words path = moves init ++ [name] := by
  rw [← Path.moves_steps, hsteps, moves_concat hname]

/-- A look-up of a name looks at the seat of the path. It finds it free or finds the entry that
is there, unless that is a link and followed. -/
theorem seat_of_lookUp (hsteps : Path.steps path = init ++ [name]) (hname : IsName name)
    (h : fs.lookUp purpose path = .ok found) :
    EndsInName path ∧ ∃ seat, SeatIn fs.get? fs.workDir path seat ∧
      ((fs.get? seat = none ∧ found = .free seat) ∨
        (∃ e, fs.get? seat = some e ∧ found = .entry seat e) ∨
        purpose ≠ .itself ∧ ∃ target, fs.get? seat = some (.link target)) := by
  obtain ⟨hfault, hwalks⟩ := lookUpSteps_eq_ok_iff.mp h
  rw [hsteps] at hwalks
  obtain ⟨dir, m, hleads, hlast⟩ := hwalks.split (List.cons_ne_nil _ _) rfl
  obtain ⟨hlength, hfound⟩ := hlast.last_name hname
  exact ⟨⟨hfault, init, name, hsteps, hname, hlength⟩, dir ++ [name],
    ⟨words_of_steps hsteps hname, hname, leads_moves_iff.mpr hleads⟩, hfound⟩

/-- **The entry at its seat is what a path leads to**, unless it is a link and followed. -/
theorem entryAt_of_seat (hpath : EndsInName path) (hseat : SeatIn fs.get? fs.workDir path loc)
    {e : Entry} (he : fs.get? loc = some e)
    (hlink : ∀ target, e = .link target → purpose = .itself) :
    fs.entryAt purpose path = .ok (loc, e) := by
  obtain ⟨hfault, init, name, hsteps, hname, hlength⟩ := hpath
  obtain ⟨hwords, -, hleads⟩ := hseat
  rw [words_of_steps hsteps hname] at hwords
  obtain ⟨rfl, hlast⟩ := List.append_inj' hwords rfl
  obtain ⟨rfl, -⟩ := List.cons.inj hlast
  rw [leads_moves_iff] at hleads
  have hlast : ∀ n dir, fs.get? dir = some .directory → fs.get? (dir ++ [name]) = some e →
      Walks fs.get? purpose n dir [name] (.entry (dir ++ [name]) e) := by
    intro n dir hdir he
    by_cases hislink : ∃ target, e = .link target
    · obtain ⟨target, rfl⟩ := hislink
      exact .link hdir hname hlength (hlink target rfl) he
    · exact .down hdir hname hlength (by simp) he (fun target h => hislink ⟨target, h⟩) (.here he)
  have hwalks := hleads.walks_name hname (hlast _ _ hleads.stop_directory he)
  rw [← hsteps] at hwalks
  rw [entryAt, lookUp, lookUpSteps_eq_ok_iff.mpr ⟨hfault, hwalks⟩]

/-! ## Places of calls -/

/-- A directory is made at the seat of its path, where nothing is. -/
theorem directoryPlace_eq_ok (h : fs.directoryPlace path = .ok loc) :
    SeatIn fs.get? fs.workDir path loc ∧ fs.get? loc = none := by
  rw [directoryPlace] at h
  split at h
  · next free hfound =>
    obtain rfl := Except.ok.inj h
    obtain ⟨-, hwalks⟩ := lookUpSteps_eq_ok_iff.mp hfound
    rcases List.eq_nil_or_concat' (Path.pieces path) with hnil | ⟨init, name, hpieces⟩
    · rw [hnil] at hwalks
      obtain ⟨e, -, hfound⟩ := hwalks.nil
      contradiction
    · rw [hpieces] at hwalks
      obtain ⟨dir, m, hleads, hlast⟩ := hwalks.split (List.cons_ne_nil _ _) rfl
      have hname := hlast.isName_of_free
      have hwords : Path.words path = moves init ++ [name] := by
        rw [Path.words, hpieces, moves_concat hname]
      rcases (hlast.last_name hname).2 with ⟨hnone, hfree⟩ | ⟨e, -, hentry⟩ | ⟨hpurpose, -⟩
      · obtain rfl := Found.free.inj hfree
        exact ⟨⟨hwords, hname, leads_moves_iff.mpr hleads⟩, hnone⟩
      · contradiction
      · exact absurd rfl hpurpose
  · contradiction
  · contradiction

/-- A file is made where a look-up leads to, and never at a directory. -/
theorem lookUp_of_filePlace (h : fs.filePlace path = .ok loc) :
    ∃ found, fs.lookUp .making path = .ok found ∧
      (found = .free loc ∨ ∃ e, found = .entry loc e ∧ e ≠ .directory) := by
  rw [filePlace] at h
  split at h
  · next hfound => exact ⟨_, hfound, .inl (congrArg _ (Except.ok.inj h))⟩
  · contradiction
  · next loc' e hdir hfound =>
    obtain rfl := Except.ok.inj h
    exact ⟨_, hfound, .inr ⟨e, rfl, hdir⟩⟩
  · contradiction

/-- No file is made at a directory. -/
theorem get?_of_filePlace (h : fs.filePlace path = .ok loc) : fs.get? loc ≠ some .directory := by
  obtain ⟨found, hfound, hplace⟩ := lookUp_of_filePlace h
  obtain ⟨-, hwalks⟩ := lookUpSteps_eq_ok_iff.mp hfound
  rcases hplace with rfl | ⟨e, rfl, hdir⟩
  · rw [hwalks.found_get.1 _ rfl]
    simp
  · rw [hwalks.found_get.2 _ _ rfl]
    exact fun h => hdir (Option.some.inj h)

theorem ne_nil_of_filePlace (h : fs.filePlace path = .ok loc) : loc ≠ [] := by
  rintro rfl
  exact get?_of_filePlace h (get?_root fs)

/-- A file is made at the seat of its path, unless there is a directory or a link is followed. -/
theorem filePlace_eq_ok (hsteps : Path.steps path = init ++ [name]) (hname : IsName name)
    (h : fs.filePlace path = .ok loc) :
    EndsInName path ∧ ∃ seat, SeatIn fs.get? fs.workDir path seat ∧
      ((∀ target, fs.get? seat ≠ some (.link target)) →
        loc = seat ∧ fs.get? seat ≠ some .directory) := by
  obtain ⟨found, hfound, hplace⟩ := lookUp_of_filePlace h
  obtain ⟨hpath, seat, hseat, hends⟩ := seat_of_lookUp hsteps hname hfound
  refine ⟨hpath, seat, hseat, fun hnolink => ?_⟩
  rcases hends with ⟨hnone, rfl⟩ | ⟨e, he, rfl⟩ | ⟨-, target, hlink⟩
  · rcases hplace with hplace | ⟨e, hplace, -⟩
    · obtain rfl := Found.free.inj hplace
      exact ⟨rfl, by rw [hnone]; simp⟩
    · contradiction
  · rcases hplace with hplace | ⟨e', hplace, hdir⟩
    · contradiction
    · obtain ⟨rfl, rfl⟩ := Found.entry.inj hplace
      refine ⟨rfl, ?_⟩
      rw [he]
      exact fun h => hdir (Option.some.inj h)
  · exact absurd hlink (hnolink target)

/-- What is removed is the entry at the seat of the path. -/
theorem removalPlace_eq_ok (hsteps : Path.steps path = init ++ [name]) (hname : IsName name)
    (h : fs.removalPlace path = .ok loc) :
    SeatIn fs.get? fs.workDir path loc ∧ ∃ e, fs.get? loc = some e ∧ e ≠ .directory := by
  rw [removalPlace, entryAt] at h
  cases hfound : fs.lookUp .itself path with
  | error e =>
      rw [hfound] at h
      contradiction
  | ok found =>
      obtain ⟨-, seat, hseat, hends⟩ := seat_of_lookUp hsteps hname hfound
      rw [hfound] at h
      rcases hends with ⟨-, rfl⟩ | ⟨e, he, rfl⟩ | ⟨hpurpose, -⟩
      · contradiction
      · have hplace : e ≠ .directory ∧ seat = loc := by
          cases e with
          | directory => contradiction
          | file => exact ⟨by simp, Except.ok.inj h⟩
          | program => exact ⟨by simp, Except.ok.inj h⟩
          | link => exact ⟨by simp, Except.ok.inj h⟩
          | fullDevice => exact ⟨by simp, Except.ok.inj h⟩
        obtain ⟨hdir, rfl⟩ := hplace
        exact ⟨hseat, e, he, hdir⟩
      · exact absurd rfl hpurpose

theorem removalPlace_of_seat (hpath : EndsInName path)
    (hseat : SeatIn fs.get? fs.workDir path loc) {e : Entry} (he : fs.get? loc = some e)
    (hdir : e ≠ .directory) : fs.removalPlace path = .ok loc := by
  rw [removalPlace, entryAt_of_seat hpath hseat he fun _ _ => rfl]
  cases e with
  | directory => exact absurd rfl hdir
  | _ => rfl

/-- The directory that `lastName` answers is the one the last name is looked up in. -/
theorem seat_of_lastName {dir : Location}
    (h : fs.lastName path = .ok (dir, some name)) (hlength : name.utf8.length ≤ 255)
    (hslash : Path.endsInSlash path = false) :
    EndsInName path ∧ SeatIn fs.get? fs.workDir path (dir ++ [name]) := by
  rw [lastName] at h
  split at h
  · next loc e hfound =>
    obtain ⟨rfl, hlast⟩ := Prod.mk.inj (Except.ok.inj h)
    obtain ⟨hlast, hname⟩ := Option.filter_eq_some_iff.mp hlast
    rw [Bool.and_eq_true_iff, decide_eq_true_eq, decide_eq_true_eq] at hname
    obtain ⟨init, hpieces⟩ := List.getLast?_eq_some_iff.mp hlast
    have hname : IsName name := by
      refine ⟨Path.ne_empty_of_mem_pieces (List.mem_of_getLast? hlast), hname.1, hname.2⟩
    have hsteps : Path.steps path = init ++ [name] := by
      rw [Path.steps_of_not_endsInSlash hslash, hpieces]
    obtain ⟨hfault, hwalks⟩ := lookUpSteps_eq_ok_iff.mp hfound
    rw [hpieces, List.dropLast_concat] at hwalks
    obtain ⟨dir, m, hleads, hempty⟩ := hwalks.split (List.cons_ne_nil _ _) rfl
    obtain ⟨rfl, -⟩ := Found.entry.inj (hempty.last_empty rfl)
    exact ⟨⟨hfault, init, name, hsteps, hname, hlength⟩,
      ⟨words_of_steps hsteps hname, hname, leads_moves_iff.mpr hleads⟩⟩
  · contradiction
  · contradiction

/-- An entry moves from the seat of one path to the seat of another, where no directory is. -/
theorem renamePlaces_eq_ok {old new : String} {source target : Location}
    (h : fs.renamePlaces old new = .ok (source, target)) :
    SeatIn fs.get? fs.workDir old source ∧ EndsInName new ∧
      SeatIn fs.get? fs.workDir new target ∧ fs.get? target ≠ some .directory := by
  rw [renamePlaces] at h
  cases hold : fs.lastName old with
  | error e =>
      rw [hold] at h
      contradiction
  | ok oldLast =>
  cases hnew : fs.lastName new with
  | error e =>
      rw [hold, hnew] at h
      contradiction
  | ok newLast =>
  obtain ⟨oldDir, oldName⟩ := oldLast
  obtain ⟨newDir, newName⟩ := newLast
  rw [hold, hnew] at h
  cases oldName with
  | none => contradiction
  | some oldName =>
  cases newName with
  | none => contradiction
  | some newName =>
  simp only [bind, Except.bind, pure, Except.pure] at h
  split at h
  · contradiction
  next hlength =>
  rw [not_or, Nat.not_lt, Nat.not_lt] at hlength
  split at h
  · contradiction
  · contradiction
  split at h
  · contradiction
  next hslash =>
  rw [not_or, Bool.not_eq_true, Bool.not_eq_true] at hslash
  split at h
  · contradiction
  next hdir =>
  obtain ⟨rfl, rfl⟩ := Prod.mk.inj (Except.ok.inj h)
  obtain ⟨-, hsource⟩ := seat_of_lastName hold hlength.1 hslash.1
  obtain ⟨hpath, htarget⟩ := seat_of_lastName hnew hlength.2 hslash.2
  exact ⟨hsource, hpath, htarget, hdir⟩

end FileSystem

end Reserved
