import Reserved.Proofs.Files.Publish
import Reserved.Proofs.Text.Utf8

/-!
# What writing an artifact touches

The file that is made beside the path of an artifact has a fixed name. If a link of this name is
there already, it is followed when the file is made, but it is the link that is moved: the text
goes wherever the link leads, and the path of the artifact becomes the link. Everything else that
is not on the way to the path is left as it is.

What a link leads to may be another file, the artifact itself, or a name that is free, and then
the write goes astray. A link to a directory, one that leads nowhere and one that leads back to
itself make no file, and the write fails. On a full device it fails too, unless there is nothing
to write.
-/

namespace Reserved

namespace Disk

open FileSystem History

variable {d d' : Disk} {side path text : String} {bytes : List UInt8}
  {r : Except FileError Unit} {l : Location}

/-! ## One location -/

/-- What can have become of an entry: only the artifact is new, only what was beside it is gone,
and only where the file was made something has been written. -/
theorem Attempts.get? (h : Attempts d side path bytes r d') (l : Location) :
    d'.files.get? l = d.files.get? l ∨ (r = .ok () ∧ d.files.Seat path l) ∨
      (d.files.Seat side l ∧ d'.files.get? l = none) ∨
      (¬ d.files.Seat side l ∧ d.files.filePlace side = .ok l ∧ ∃ part, part <+: bytes ∧
        (r = .ok () → part = bytes) ∧
        d'.files.get? l = some (rewritten (d.files.get? l) part)) := by
  cases h with
  | undone hhistory =>
      have hfiles : d'.files = d.files := congrArg History.files hhistory
      exact .inl (by rw [hfiles])
  | @removed _ _ seat hseat hremoved =>
      have hfiles : d'.files = d.files.after (.remove seat) := congrArg History.files hremoved
      rw [hfiles, get?_remove hseat.ne_nil]
      by_cases hl : l = seat
      · exact .inr (.inr (.inl ⟨hl ▸ seat_of_get? hseat, if_pos hl⟩))
      · exact .inl (if_neg hl)
  | @failed _ d₁ _ seat loc part hpart hmade hremoved =>
      rw [hmade.get?_removed hremoved]
      by_cases hl : l = seat
      · exact .inr (.inr (.inl ⟨hl ▸ seat_of_get? hmade.isSeat, if_pos hl⟩))
      rw [if_neg hl]
      rcases hmade.get?_cases hl with hsame | ⟨hside, hplace, hwritten⟩
      · exact .inl hsame
      · exact .inr (.inr (.inr ⟨hside, hplace, part, hpart, (fun h => by cases h), hwritten⟩))
  | @moved d₁ _ seat loc target hmade _ _ htarget _ hmoved =>
      rw [hmade.get?_moved htarget.ne_nil hmoved]
      by_cases hl : l = target
      · exact .inr (.inl ⟨rfl, hl ▸ seat_of_get? htarget⟩)
      rw [if_neg hl]
      by_cases hl : l = seat
      · exact .inr (.inr (.inl ⟨hl ▸ seat_of_get? hmade.isSeat, if_pos hl⟩))
      rw [if_neg hl]
      rcases hmade.get?_cases hl with hsame | ⟨hside, hplace, hwritten⟩
      · exact .inl hsame
      · exact .inr (.inr (.inr ⟨hside, hplace, bytes, List.prefix_refl _, fun _ => rfl, hwritten⟩))

/-! ## Writes that go astray -/

/-- A link stands beside the path, and what is written to the path goes to this location. -/
structure Astray (d : Disk) (path : String) (loc : Location) : Prop where
  link : ∃ seat target, d.files.Seat (sidePath path) seat ∧
    d.files.get? seat = some (.link target)
  place : (paved path d).filePlace (sidePath path) = .ok loc

/-- Nothing is there before a directory is made in which the path lies. -/
structure Paves (d : Disk) (path : String) (l : Location) : Prop where
  free : d.files.get? l = none
  directory : (paved path d).get? l = some .directory
  outer : ∃ outer ∈ outerPaths path, d.files.Seat outer l

theorem Astray.unique {loc loc' : Location} (h : Astray d path loc) (h' : Astray d path loc') :
    loc = loc' :=
  Except.ok.inj (h.place.symm.trans h'.place)

/-- No directory has been made where a write goes. -/
theorem Astray.get?_paved {loc : Location} (h : Astray d path loc) :
    (paved path d).get? loc = d.files.get? loc := by
  rcases (grown_paved path d).get? loc with hsame | ⟨-, hdir, -⟩
  · exact hsame
  · exact absurd hdir (get?_of_filePlace h.place)

/-- A file is made beside the path unless the write goes astray. -/
theorem astray_of_filePlace (hplace : (paved path d).filePlace (sidePath path) = .ok l)
    (hside : ¬ d.files.Seat (sidePath path) l) : Astray d path l := by
  obtain ⟨init, name, hsteps, hname⟩ := Path.steps_sidePath path
  obtain ⟨-, seat, hseat, hdirect⟩ := filePlace_eq_ok hsteps hname hplace
  -- if no link stands at the seat, the file is made there
  have hgrown := grown_paved path d
  have hseat : d.files.Seat (sidePath path) seat := hgrown.seat ▸ seat_of_get? hseat
  refine ⟨Classical.byContradiction fun hnolink => ?_, hplace⟩
  obtain ⟨rfl, -⟩ := hdirect fun target hlink => hnolink ⟨seat, target, hseat, hgrown.link hlink⟩
  exact hside hseat

/-- What can have become of an entry when the call is over. -/
theorem get?_of_publish (h : (publish path text).run d = (r, d')) (l : Location) :
    d'.files.get? l = d.files.get? l ∨
      (Paves d path l ∧ d'.files.get? l = some .directory) ∨ (r = .ok () ∧ d.files.Seat path l) ∨
      (d.files.Seat (sidePath path) l ∧ d'.files.get? l = none) ∨
      (Astray d path l ∧ ∃ part, part <+: text.utf8 ∧ (r = .ok () → part = text.utf8) ∧
        d'.files.get? l = some (rewritten (d.files.get? l) part)) := by
  obtain ⟨d₁, hpaved, -, hattempts⟩ := publish_attempts h
  have hgrown : Grown (outerPaths path) d.files d₁.files := hpaved ▸ grown_paved path d
  have hget := hattempts.get? l
  rw [hgrown.seat] at hget
  rcases hget with hsame | hpath | hside | ⟨hside, hplace, part, hpart, hall, hwritten⟩
  · rcases hgrown.get? l with hkept | ⟨hnone, hdir, houter⟩
    · exact .inl (hsame.trans hkept)
    · exact .inr (.inl ⟨⟨hnone, hpaved ▸ hdir, houter⟩, hsame.trans hdir⟩)
  · exact .inr (.inr (.inl hpath))
  · exact .inr (.inr (.inr (.inl hside)))
  · rw [hpaved] at hplace hwritten
    have hastray := astray_of_filePlace hplace hside
    rw [hastray.get?_paved] at hwritten
    exact .inr (.inr (.inr (.inr ⟨hastray, part, hpart, hall, hwritten⟩)))

/-! ## Writes that succeed -/

/-- A write that has gone astray has left all of the text there. -/
theorem get?_of_astray (h : (publish path text).run d = (.ok (), d')) (hastray : Astray d path l)
    (hside : ¬ d.files.Seat (sidePath path) l) (hpath : ¬ d.files.Seat path l) :
    d'.files.get? l = some (rewritten (d.files.get? l) text.utf8) := by
  obtain ⟨d₁, hpaved, -, hattempts⟩ := publish_attempts h
  have hgrown : Grown (outerPaths path) d.files d₁.files := hpaved ▸ grown_paved path d
  cases hattempts with
  | @moved d₂ _ seat loc target hmade _ _ htarget _ hmoved =>
      have hplace := hmade.place
      rw [hpaved, hastray.place] at hplace
      obtain rfl := Except.ok.inj hplace
      -- the text has gone neither to what is moved nor to where that is moved
      have hseat : l ≠ seat := by
        rintro rfl
        exact hside (hgrown.seat ▸ seat_of_get? hmade.isSeat)
      have htarget' : l ≠ target := by
        rintro rfl
        exact hpath (hgrown.seat ▸ seat_of_get? htarget)
      rw [hmade.get?_moved htarget.ne_nil hmoved, if_neg htarget', if_neg hseat, hmade.content,
        hpaved, hastray.get?_paved]

/-- If a link stood beside the path, it is at the path after a write that succeeds, and the write
has gone astray. -/
theorem link_of_publish {seat : Location} {link : String}
    (h : (publish path text).run d = (.ok (), d')) (hseat : d.files.Seat (sidePath path) seat)
    (hlink : d.files.get? seat = some (.link link)) :
    ∃ target, d.files.Seat path target ∧ d'.files.get? target = some (.link link) ∧
      ∃ loc, Astray d path loc ∧ (d.files.get? loc = some .fullDevice → text = "") := by
  obtain ⟨d₁, hpaved, -, hattempts⟩ := publish_attempts h
  have hgrown : Grown (outerPaths path) d.files d₁.files := hpaved ▸ grown_paved path d
  cases hattempts with
  | @moved d₂ _ seat' loc target hmade hdevice _ htarget _ hmoved =>
      obtain rfl := hseat.unique (hgrown.seat ▸ seat_of_get? hmade.isSeat)
      have hastray : Astray d path loc := ⟨⟨seat, link, hseat, hlink⟩, hpaved ▸ hmade.place⟩
      have hlink : d₂.files.get? seat = some (.link link) :=
        (hmade.sameOff.passable_iff hmade.content (.link link)).mpr (hgrown.get?_of_some hlink)
      refine ⟨target, hgrown.seat ▸ seat_of_get? htarget, ?_, loc, hastray, fun hfull => ?_⟩
      · rw [hmade.get?_moved htarget.ne_nil hmoved, if_pos rfl, hlink]
      · rw [hpaved, hastray.get?_paved] at hdevice
        exact utf8_inj (hdevice hfull)

/-- **What writing an artifact touches.** Whatever the call returns, an entry that is not the
artifact and not where the write has gone astray is as before. Only what stood beside the path may
be gone, and directories in which the path lies may be new. Where the write has gone astray stands
the text or, if the call has failed, some of it or none. If the call succeeds, the artifact is at
the path, and it is what a reader of the path gets unless the path leads through its own last
entry or to a device. But if a link stood beside the path, then this link is there instead. -/
theorem publish_touches (h : (publish path text).run d = (r, d')) :
    (∀ l, ¬ Astray d path l → (r = .ok () → ¬ d.files.Seat path l) →
      d'.files.get? l = d.files.get? l ∨ Paves d path l ∧ d'.files.get? l = some .directory ∨
        d.files.Seat (sidePath path) l ∧ d'.files.get? l = none) ∧
    (∀ l, Astray d path l → ¬ d.files.Seat (sidePath path) l →
      (r = .ok () → ¬ d.files.Seat path l) →
      r ≠ .ok () ∧ d'.files.get? l = d.files.get? l ∨
        ∃ part, part <+: text.utf8 ∧ (r = .ok () → part = text.utf8) ∧
          d'.files.get? l = some (rewritten (d.files.get? l) part)) ∧
    (r = .ok () → ∃ target e, d.files.Seat path target ∧ d'.files.get? target = some e ∧
      ((∀ seat link, d.files.Seat (sidePath path) seat →
          d.files.get? seat ≠ some (.link link)) →
        Carries text.utf8 e ∧ (e ≠ .fullDevice → d.files.SeatOff [target] path target →
          d'.files.read path = .ok text.utf8)) ∧
      ∀ seat link, d.files.Seat (sidePath path) seat → d.files.get? seat = some (.link link) →
        e = .link link ∧
          ∃ loc, Astray d path loc ∧ (d.files.get? loc = some .fullDevice → text = "")) := by
  have hget := get?_of_publish h
  refine ⟨fun l hastray hpath => ?_, fun l hastray hside hpath => ?_, ?_⟩
  · rcases hget l with hsame | hpaves | ⟨hok, hl⟩ | hgone | ⟨hl, -⟩
    · exact .inl hsame
    · exact .inr (.inl hpaves)
    · exact absurd hl (hpath hok)
    · exact .inr (.inr hgone)
    · exact absurd hl hastray
  · -- only a call that fails may have written a part, or nothing
    by_cases hok : r = .ok ()
    · subst hok
      exact .inr ⟨_, List.prefix_refl _, fun _ => rfl, get?_of_astray h hastray hside (hpath rfl)⟩
    rcases hget l with hsame | ⟨hpaves, -⟩ | ⟨hok', -⟩ | ⟨hl, -⟩ | ⟨-, part, hpart, hall, hl⟩
    · exact .inl ⟨hok, hsame⟩
    · exact absurd hpaves.directory (get?_of_filePlace hastray.place)
    · exact absurd hok' hok
    · exact absurd hl hside
    · exact .inr ⟨part, hpart, hall, hl⟩
  · rintro rfl
    by_cases hlink : ∃ seat link, d.files.Seat (sidePath path) seat ∧
        d.files.get? seat = some (.link link)
    · obtain ⟨seat, link, hseat, hlink⟩ := hlink
      obtain ⟨target, htarget, he, hastray⟩ := link_of_publish h hseat hlink
      refine ⟨target, _, htarget, he, fun hnolink => absurd hlink (hnolink seat link hseat), ?_⟩
      intro seat' link' hseat' hlink'
      obtain rfl := hseat.unique hseat'
      obtain rfl := Entry.link.inj (Option.some.inj (hlink.symm.trans hlink'))
      exact ⟨rfl, hastray⟩
    · have hnolink : ∀ seat link, d.files.Seat (sidePath path) seat →
          d.files.get? seat ≠ some (.link link) := fun seat link hseat h =>
        hlink ⟨seat, link, hseat, h⟩
      obtain ⟨target, e, htarget, he, hcarries, -, hread⟩ := exists_artifact h hnolink
      exact ⟨target, e, htarget, he, fun _ => ⟨hcarries, hread⟩,
        fun seat link hseat h => absurd h (hnolink seat link hseat)⟩

/-- A link that leads to a directory, back to itself, nowhere or to a full device makes the write
fail. Then the link is gone, and the artifact is as before. -/
example :
    let through := fun target => (publish "out.rs" "new").run (ofFiles ⟨[],
      [(["out.rs"], .file "old".utf8 false), (["nested"], .directory), (["full"], .fullDevice),
        (["out.rs.tmp"], .link target)]⟩)
    (through "nested").1 = .error .isADirectory ∧
      (through "out.rs.tmp").1 = .error .tooManyLinks ∧
      (through "missing/fresh").1 = .error .notFound ∧
      (through "full").1 = .error .noSpace ∧
      ∀ target ∈ ["nested", "out.rs.tmp", "missing/fresh", "full"],
        (through target).2.files.get? ["out.rs"] = some (.file "old".utf8 false) ∧
        (through target).2.files.get? ["out.rs.tmp"] = none := by
  decide +kernel

/-- A write that goes astray to a file. -/
theorem publish_touches_through_link :
    let files : FileSystem := ⟨[], [(["kept"], .file "kept".utf8 true),
      (["other"], .file "other".utf8 false), (["out.rs.tmp"], .link "kept")]⟩
    let after := (publish "out.rs" "new").run (ofFiles files)
    after.1 = .ok () ∧ after.2.files.get? ["other"] = some (.file "other".utf8 false) ∧
      after.2.files.get? ["kept"] = some (.file "new".utf8 true) ∧
      after.2.files.get? ["out.rs"] = some (.link "kept") := by
  intro files after
  have hok : after.1 = .ok () := by decide +kernel
  have hseat : files.Seat "out.rs" ["out.rs"] :=
    seatOff_of_name (by decide +kernel) (by decide) (by decide) List.not_mem_nil rfl
  have hside : files.Seat (sidePath "out.rs") ["out.rs.tmp"] :=
    seatOff_of_name (by decide +kernel) (by decide) (by decide +kernel) List.not_mem_nil rfl
  have hlink : files.get? ["out.rs.tmp"] = some (.link "kept") := by decide +kernel
  have hastray : Astray (ofFiles files) "out.rs" ["kept"] :=
    ⟨⟨_, _, hside, hlink⟩, by decide +kernel⟩
  rcases hrun : (publish "out.rs" "new").run (ofFiles files) with ⟨r, d'⟩
  have hafter : after = (r, d') := hrun
  rw [hafter] at hok ⊢
  obtain ⟨helsewhere, hwritten, hsucceeds⟩ := publish_touches hrun
  refine ⟨hok, ?_, ?_, ?_⟩
  · have hother : files.get? ["other"] = some (.file "other".utf8 false) := by decide +kernel
    have hnot : ¬ Astray (ofFiles files) "out.rs" ["other"] :=
      fun h => absurd (h.unique hastray) (by decide)
    rcases helsewhere ["other"] hnot fun _ h => absurd (h.unique hseat) (by decide) with
      hsame | ⟨hpaves, -⟩ | ⟨hgone, -⟩
    · exact hsame.trans hother
    · exact absurd (hpaves.free.symm.trans hother) (by simp)
    · exact absurd (hgone.unique hside) (by decide)
  · have hkept : files.get? ["kept"] = some (.file "kept".utf8 true) := by decide +kernel
    rcases hwritten ["kept"] hastray (fun h => absurd (h.unique hside) (by decide))
      (fun _ h => absurd (h.unique hseat) (by decide)) with ⟨hfail, -⟩ | ⟨part, -, hall, hnew⟩
    · exact absurd hok hfail
    · obtain rfl := hall hok
      exact hnew.trans (congrArg (fun e => some (rewritten e "new".utf8)) hkept)
  · obtain ⟨target, e, htarget, he, -, hislink⟩ := hsucceeds hok
    obtain rfl := htarget.unique hseat
    obtain ⟨rfl, -⟩ := hislink _ _ hside hlink
    exact he

/-- A link beside the path is followed when the file is made, and then moved itself. So another
file is written in place of the artifact, or a file is left where none was, also by a write that
fails. A link to the artifact ends up as it. A path through a link at its own end leads nowhere
once the artifact has taken the place of the link. Where a path has no last name, the file beside
it lies below it. -/
theorem publish_through_link :
    let away := ofFiles ⟨[], [(["kept"], .file "kept".utf8 false), (["out.rs.tmp"], .link "kept")]⟩
    let loose := ofFiles ⟨[], [(["out.rs"], .directory), (["out.rs.tmp"], .link "fresh")]⟩
    let back := ofFiles
      ⟨[], [(["out.rs"], .file "old".utf8 false), (["out.rs.tmp"], .link "out.rs")]⟩
    let itself := ofFiles ⟨[], [(["nested"], .directory), (["out.rs"], .link "nested")]⟩
    let nameless := ofFiles ⟨[], [([".tmp"], .file "kept".utf8 false)]⟩
    (((publish "out.rs" "new").run away).1 = .ok () ∧
      ((publish "out.rs" "new").run away).2.files.get? ["kept"]
        = some (.file "new".utf8 false)) ∧
    (((publish "out.rs" "new").run loose).1 = .error .isADirectory ∧
      ((publish "out.rs" "new").run loose).2.files.get? ["fresh"]
        = some (.file "new".utf8 false)) ∧
    (((publish "out.rs" "new").run back).1 = .ok () ∧
      ((publish "out.rs" "new").run back).2.files.read "out.rs" = .error .tooManyLinks) ∧
    (((publish "out.rs/../out.rs" "new").run itself).1 = .ok () ∧
      ((publish "out.rs/../out.rs" "new").run itself).2.files.read "out.rs/../out.rs"
        = .error .notADirectory) ∧
    (((publish "." "new").run nameless).1 = .error .busy ∧
      ((publish "." "new").run nameless).2.files.get? [".tmp"] = none) := by
  decide +kernel

end Disk

end Reserved
