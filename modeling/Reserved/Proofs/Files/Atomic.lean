import Reserved.Proofs.Files.Publish

/-!
# Artifacts are written whole or not at all

Whoever looks at the path of an artifact between any two steps of the writes to it finds the
text of the last write that succeeded, or what was there before all of them. A write needs the
place beside the path to be free, and it leaves it free again, wherever it fails.

A write also makes directories on its way. If it came through the entry at the path itself, or
through the one beside it, it would make a directory there. So the directory part of the path
must not lead through either of the two.
-/

namespace Reserved

namespace Disk

open FileSystem History

variable {d d' : Disk} {path text : String} {r : Except FileError Unit}
  {target side loc : Location} {fs fs' : FileSystem} {avoid : List Location}

/-- No directory is made where the path does not lead through. -/
theorem not_mem_of_outer {outer name : String} (hname : Path.fileName? path = some name)
    (hpath : fs.SeatOff avoid path target) (houter : outer ∈ outerPaths path)
    (hloc : fs.Seat outer loc) : loc ∉ avoid := by
  obtain ⟨parent, hparent, hwords, habsolute, -, -⟩ := Path.exists_parent hname
  rw [outerPaths, hparent] at houter
  obtain ⟨⟨rest, hrest⟩, habsolute'⟩ := Path.words_prefix_of_mem_ancestors houter
  obtain ⟨hpathWords, -, hleads⟩ := hpath
  obtain ⟨rfl, -⟩ := List.append_inj' (hwords.symm.trans hpathWords) rfl
  obtain ⟨houterWords, houterName, houterLeads⟩ := hloc
  obtain ⟨mid, k, hmid, -⟩ := hleads.split hrest.symm
  rw [houterWords] at hmid
  obtain ⟨dir, k', e, hdir, he, -⟩ := hmid.passes houterName
  rw [habsolute', habsolute] at houterLeads
  obtain ⟨rfl, -⟩ := houterLeads.meet (agree_ground fs [] avoid) hdir
  intro hmem
  rw [ground, if_pos hmem] at he
  contradiction

/-- The place beside the path is free, and the path leads through neither of the two places. -/
structure Ready (path : String) (target side : Location) (fs : FileSystem) : Prop where
  beside : ∃ dir name, Path.fileName? path = some name ∧ target = dir ++ [name] ∧
    side = dir ++ [name ++ ".tmp"]
  seat : fs.SeatOff [target, side] path target
  free : fs.get? side = none

/-- The path of an artifact leads where it led, and there is the same entry. -/
structure Steady (path : String) (target side : Location) (fs fs' : FileSystem) : Prop where
  workDir : fs'.workDir = fs.workDir
  ground : fs'.ground [target, side] = fs.ground [target, side]
  entry : fs'.get? target = fs.get? target

theorem Ready.seat_side (h : Ready path target side fs) :
    fs.SeatOff [target, side] (sidePath path) side := by
  obtain ⟨dir, name, hname, htarget, hside⟩ := h.beside
  obtain ⟨dir', hdir', hseat⟩ := SeatIn.beside hname h.seat
  obtain ⟨rfl, -⟩ := List.append_inj' (htarget.symm.trans hdir') rfl
  rw [hside]
  rw [hside] at hseat
  exact hseat

theorem Ready.ne (h : Ready path target side fs) : target ≠ side := by
  obtain ⟨dir, name, -, htarget, hside⟩ := h.beside
  intro hsame
  rw [htarget, hside] at hsame
  have hlast := (List.cons.inj (List.append_cancel_left hsame)).1
  have hlength := congrArg String.length hlast
  rw [String.length_append] at hlength
  have : ".tmp".length = 4 := by decide
  omega

theorem Steady.refl (path : String) (target side : Location) (fs : FileSystem) :
    Steady path target side fs fs :=
  ⟨rfl, rfl, rfl⟩

theorem Steady.trans {fs'' : FileSystem} (h : Steady path target side fs fs')
    (h' : Steady path target side fs' fs'') : Steady path target side fs fs'' :=
  ⟨h'.workDir.trans h.workDir, h'.ground.trans h.ground, h'.entry.trans h.entry⟩

theorem Steady.seatOff (h : Steady path target side fs fs')
    (hseat : fs.SeatOff [target, side] path target) : fs'.SeatOff [target, side] path target := by
  rw [SeatOff, h.workDir, h.ground]
  exact hseat

theorem steady_of_sameOff (hne : target ≠ side) (h : SameOff [side] fs fs') :
    Steady path target side fs fs' := by
  refine ⟨h.workDir, ground_congr fun l hl => h.get? l ?_, h.get? target (by simpa using hne)⟩
  rw [List.mem_cons, not_or] at hl
  exact hl.2

/-- Making the directories of the path changes nothing at the two places. -/
theorem steady_of_makesDirectory (hready : Ready path target side fs)
    (h : MakesDirectory (outerPaths path) fs fs') :
    Steady path target side fs fs' ∧ Ready path target side fs' := by
  have hgrown : Grown (outerPaths path) fs fs' := Grown.step (Grown.refl _ _) h
  obtain ⟨dir, name, hname, -, -⟩ := hready.beside
  have hkeep : ∀ l ∈ [target, side], fs'.get? l = fs.get? l := by
    intro l hl
    rcases hgrown.get? l with hsame | ⟨-, -, outer, houter, hseat⟩
    · exact hsame
    · exact absurd hl (not_mem_of_outer hname hready.seat houter hseat)
  refine ⟨⟨hgrown.workDir, hgrown.ground _, hkeep target (by simp)⟩, hready.beside, ?_, ?_⟩
  · rw [hgrown.seatOff]
    exact hready.seat
  · rw [hkeep side (by simp), hready.free]

/-- What a call has done when it is over: the artifact is there if it succeeded, and nothing
has changed at the path if not. -/
structure Settles (path : String) (target side : Location) (bytes : List UInt8)
    (fs : FileSystem) (r : Except FileError Unit) (fs' : FileSystem) : Prop where
  ready : Ready path target side fs'
  failed : ∀ e, r = .error e → fs'.get? target = fs.get? target
  succeeded : r = .ok () → fs'.get? target = some (.file bytes false) ∧ fs'.read path = .ok bytes

/-- A replacement settles the path, and up to its last step nothing changes there. -/
theorem replaces_steady {bytes : List UInt8} (hready : Ready path target side d.files)
    (h : Replaces d (sidePath path) path bytes r d') :
    Since (Steady path target side d.files) d.history d'.history ∧
      Settles path target side bytes d.files r d'.files := by
  cases h with
  | undone hhistory =>
      have hfiles : d'.files = d.files := congrArg History.files hhistory
      rw [hhistory, hfiles]
      exact ⟨Since.refl _ _, hready, fun _ _ => rfl, fun h => by cases h⟩
  | @failed e d' seat hside hvia hnone =>
      obtain rfl := (seat_of_get? hside).unique hready.seat_side.seat
      obtain ⟨hsteady, hsince⟩ := hvia.keeps (P := Steady path target seat d.files)
        (fun _ _ hstep hkept => hkept.trans (steady_of_sameOff hready.ne hstep)) (Steady.refl ..)
      exact ⟨hsince, ⟨hready.beside, hsteady.seatOff hready.seat, hnone⟩,
        fun _ _ => hsteady.entry, fun h => by cases h⟩
  | @moved d' seat loc h e hside hfree hpath htarget _ hvia he hcarries hnew hmoved =>
      obtain rfl := (seat_of_get? hside).unique hready.seat_side.seat
      obtain rfl := (seat_of_get? htarget).unique hready.seat.seat
      obtain rfl := hnew hready.free
      obtain ⟨hsteady, hsince⟩ := hvia.keeps (P := Steady path loc seat d.files)
        (fun _ _ hstep hkept => hkept.trans (steady_of_sameOff hready.ne hstep)) (Steady.refl ..)
      obtain ⟨hworkDir, hget⟩ := get?_of_moved hside.ne_nil htarget.ne_nil hvia he hmoved
      have hsame : SameOff [seat, loc] d.files d'.files := by
        refine ⟨hworkDir, fun l hl => ?_⟩
        rw [List.mem_cons, List.mem_singleton, not_or] at hl
        rw [hget, if_neg hl.2, if_neg hl.1]
      have hground : d'.files.ground [loc, seat] = d.files.ground [loc, seat] := by
        refine ground_congr fun l hl => hsame.get? l fun hmem => hl ?_
        rw [List.mem_cons, List.mem_singleton] at hmem ⊢
        exact hmem.symm
      have hentry : d'.files.get? loc = some (.file bytes false) := by rw [hget, if_pos rfl]
      refine ⟨?_, ⟨hready.beside, ?_, ?_⟩, (fun _ h => by cases h), fun _ => ⟨hentry, ?_⟩⟩
      · rw [show d'.history = _ from hmoved]
        exact hsince.trans (Since.one hsteady)
      · rw [SeatOff, hsame.workDir, hground]
        exact hready.seat
      · rw [hget, if_neg hready.ne.symm, if_pos rfl]
      · have hoff : d.files.SeatOff [loc] path loc :=
          hready.seat.mono_avoid (List.cons_subset_cons _ (List.nil_subset _))
        exact read_of_moved hpath htarget hoff hsame hfree hentry hcarries (by simp)

/-- What a write does when the place beside the path is free. -/
theorem publish_steady (h : (publish path text).run d = (r, d'))
    (hready : Ready path target side d.files) :
    Since (Steady path target side d.files) d.history d'.history ∧
      Settles path target side text.utf8 d.files r d'.files := by
  have hfree : ∀ seat link, d.files.Seat (sidePath path) seat →
      d.files.get? seat ≠ some (.link link) := by
    intro seat link hseat hlink
    rw [hseat.unique hready.seat_side.seat, hready.free] at hlink
    cases hlink
  obtain ⟨d₁, hvia, -, hreplaces⟩ := publish_cases h hfree
  obtain ⟨⟨hsteady₁, hready₁⟩, hsince₁⟩ := hvia.keeps
    (P := fun fs => Steady path target side d.files fs ∧ Ready path target side fs)
    (fun fs fs' hstep hkept =>
      have hnext := steady_of_makesDirectory hkept.2 hstep
      ⟨hkept.1.trans hnext.1, hnext.2⟩)
    ⟨Steady.refl .., hready⟩
  obtain ⟨hsince, hsettles⟩ := replaces_steady hready₁ hreplaces
  refine ⟨?_, hsettles.ready, fun e he => ?_, hsettles.succeeded⟩
  · exact (hsince₁.mono fun _ h => h.1).trans (hsince.mono fun _ h => hsteady₁.trans h)
  · exact (hsettles.failed e he).trans hsteady₁.entry

/-! ## Many writes -/

/-- The disk after writes of these texts to one path, whatever comes of each. -/
def publishAll (path : String) (d : Disk) : List String → Disk
  | [] => d
  | text :: rest => publishAll path ((publish path text).run d).2 rest

/-- What should be found at the path after these writes: the text of the last one that
succeeded, or else the entry from before. -/
def published (path : String) (d : Disk) (before : Option Entry) : List String → Option Entry
  | [] => before
  | text :: rest =>
    match (publish path text).run d with
    | (.ok (), d') => published path d' (some (.file text.utf8 false)) rest
    | (.error _, d') => published path d' before rest

theorem ready_publishAll (texts : List String) : ∀ {d : Disk}, Ready path target side d.files →
    Ready path target side (publishAll path d texts).files ∧
      (publishAll path d texts).files.get? target
        = published path d (d.files.get? target) texts := by
  induction texts with
  | nil => exact fun hready => ⟨hready, rfl⟩
  | cons text rest ih =>
      intro d hready
      rcases hrun : (publish path text).run d with ⟨r, d'⟩
      obtain ⟨-, hsettles⟩ := publish_steady hrun hready
      obtain ⟨hready', hentry⟩ := ih hsettles.ready
      rw [publishAll, published, hrun]
      refine ⟨hready', hentry.trans ?_⟩
      cases r with
      | ok _ => rw [(hsettles.succeeded rfl).1]
      | error e => rw [hsettles.failed e rfl]

/-- Where the path has no seat, no write succeeds, and it still has none after them. -/
theorem no_seat_publish (hname : (Path.fileName? path).isSome)
    (hnone : ∀ target, ¬ d.files.Seat path target) (h : (publish path text).run d = (r, d')) :
    r ≠ .ok () ∧ d'.files.Seat = d.files.Seat := by
  obtain ⟨name, hname⟩ := Option.isSome_iff_exists.mp hname
  have hside : ∀ side, ¬ d.files.Seat (sidePath path) side := by
    intro side hside
    obtain ⟨dir, -, hseat⟩ := SeatIn.of_beside hname hside
    exact hnone _ hseat
  obtain ⟨d₁, -, hgrown, hreplaces⟩ := publish_cases h fun seat _ hseat => absurd hseat (hside seat)
  rw [← hgrown.seat] at hnone hside
  cases hreplaces with
  | undone hhistory =>
      have hfiles : d'.files = d₁.files := congrArg History.files hhistory
      exact ⟨by simp, by rw [hfiles, hgrown.seat]⟩
  | failed hseat _ _ => exact absurd (seat_of_get? hseat) (hside _)
  | moved _ _ _ htarget _ _ _ _ _ _ => exact absurd (seat_of_get? htarget) (hnone _)

theorem no_seat_publishAll (hname : (Path.fileName? path).isSome) (texts : List String) :
    ∀ {d : Disk}, (∀ target, ¬ d.files.Seat path target) →
      ∀ target, ¬ (publishAll path d texts).files.Seat path target := by
  induction texts with
  | nil => exact fun hnone => hnone
  | cons text rest ih =>
      intro d hnone
      rcases hrun : (publish path text).run d with ⟨r, d'⟩
      obtain ⟨-, hsame⟩ := no_seat_publish hname hnone hrun
      rw [publishAll, hrun]
      refine ih ?_
      rw [hsame]
      exact hnone

/-- **Writes to one path are all or nothing.** Between any two steps of a write, whatever failed
before it, the path has the entry that the last successful write has put there, or the one from
before all writes. A write that fails leaves it alone, and one that succeeds leaves a file with
exactly its text. Then the place beside the path is free again. -/
theorem publish_all_or_nothing (hname : (Path.fileName? path).isSome)
    (hfree : ∀ side, d.files.Seat (sidePath path) side → d.files.get? side = none)
    (hclear : ∀ target side, d.files.Seat path target → d.files.Seat (sidePath path) side →
      d.files.SeatOff [target, side] path target)
    {before : List String} (h : (publish path text).run (publishAll path d before) = (r, d')) :
    (∀ target, d.files.Seat path target →
      (publishAll path d before).files.Seat path target ∧
      (publishAll path d before).files.get? target
        = published path d (d.files.get? target) before ∧
      Since (fun fs => fs.Seat path target ∧
          fs.get? target = published path d (d.files.get? target) before)
        (publishAll path d before).history d'.history ∧
      d'.files.Seat path target ∧
      (∀ e, r = .error e →
        d'.files.get? target = published path d (d.files.get? target) before) ∧
      (r = .ok () → d'.files.get? target = some (.file text.utf8 false) ∧
        d'.files.read path = .ok text.utf8)) ∧
    ((∀ target, ¬ d.files.Seat path target) →
      r ≠ .ok () ∧ ∀ target, ¬ d'.files.Seat path target) ∧
    ∀ side, d'.files.Seat (sidePath path) side → d'.files.get? side = none := by
  obtain ⟨name, hname'⟩ := Option.isSome_iff_exists.mp hname
  by_cases hseat : ∃ target, d.files.Seat path target
  · obtain ⟨target, htarget⟩ := hseat
    obtain ⟨dir, hdir, hside⟩ := SeatIn.beside hname' htarget
    have hready : Ready path target (dir ++ [name ++ ".tmp"]) d.files :=
      ⟨⟨dir, name, hname', hdir, rfl⟩, hclear _ _ htarget hside, hfree _ hside⟩
    obtain ⟨hready₀, hentry⟩ := ready_publishAll before hready
    obtain ⟨hsince, hsettles⟩ := publish_steady h hready₀
    refine ⟨fun target' htarget' => ?_, fun hnone => absurd htarget (hnone _), ?_⟩
    · obtain rfl := htarget.unique htarget'
      refine ⟨hready₀.seat.seat, hentry, ?_, hsettles.ready.seat.seat, ?_, hsettles.succeeded⟩
      · exact hsince.mono fun fs hfs =>
          ⟨(hfs.seatOff hready₀.seat).seat, hfs.entry.trans hentry⟩
      · exact fun e he => (hsettles.failed e he).trans hentry
    · intro side hside'
      rw [hside'.unique hsettles.ready.seat_side.seat]
      exact hsettles.ready.free
  · have hnone : ∀ target, ¬ d.files.Seat path target := fun target h => hseat ⟨target, h⟩
    have hbefore := no_seat_publishAll hname before hnone
    obtain ⟨hfail, hsame⟩ := no_seat_publish hname hbefore h
    have hnone' : ∀ target, ¬ d'.files.Seat path target := by
      rw [hsame]
      exact hbefore
    refine ⟨fun target htarget => absurd htarget (hnone target), fun _ => ⟨hfail, hnone'⟩, ?_⟩
    intro side hside
    obtain ⟨dir, -, hpath⟩ := SeatIn.of_beside hname' hside
    exact absurd hpath (hnone' _)

/-- A disk that holds an artifact. One write will fail half-way, and a later one when all that is
left is to move the file. -/
def troubled : Disk where
  files := ⟨[], [(["nested"], .directory), (["nested", "out.rs"], .file "old".utf8 false)]⟩
  past := []
  faults := [none, none, some ⟨.noSpace, 1⟩, none, none, none, none, none, none, none,
    some ⟨.busy, 0⟩]

theorem seat_troubled {avoid : List Location} (hroot : [] ∉ avoid) (hnested : ["nested"] ∉ avoid) :
    troubled.files.SeatOff avoid "nested/out.rs" ["nested", "out.rs"] := by
  have hdirectory : ∀ l, l ∉ avoid → troubled.files.get? l = some .directory →
      troubled.files.ground avoid l = some .directory := fun l hl => ground_eq_some hl
  have hnestedName : IsName "nested" := by decide
  have houtName : IsName "out.rs" := by decide
  have hleads : Leads (troubled.files.ground avoid) 40 [] ["nested"] ["nested"] 40 := by
    refine .down (hdirectory [] hroot rfl) hnestedName (by decide +kernel) (.stop ?_)
    exact hdirectory ["nested"] hnested (by decide +kernel)
  have hwords : Path.words "nested/out.rs" = ["nested"] ++ ["out.rs"] := by decide +kernel
  have hseat : troubled.files.SeatOff avoid "nested/out.rs" (["nested"] ++ ["out.rs"]) :=
    ⟨hwords, houtName, hleads⟩
  exact hseat

/-- The second of three writes succeeds. -/
theorem publish_all_or_nothing_troubled :
    ((publish "nested/out.rs" "three").run (publishAll "nested/out.rs" troubled ["one", "two"])).1
        = .error .busy ∧
      Since (fun fs => fs.get? ["nested", "out.rs"] = some (.file "two".utf8 false))
        (publishAll "nested/out.rs" troubled ["one", "two"]).history
        ((publish "nested/out.rs" "three").run
          (publishAll "nested/out.rs" troubled ["one", "two"])).2.history ∧
      ((publish "nested/out.rs" "three").run
          (publishAll "nested/out.rs" troubled ["one", "two"])).2.files.get? ["nested", "out.rs"]
        = some (.file "two".utf8 false) := by
  have htarget : troubled.files.Seat "nested/out.rs" ["nested", "out.rs"] :=
    seat_troubled (by simp) (by simp)
  have hside : troubled.files.Seat (sidePath "nested/out.rs") ["nested", "out.rs.tmp"] := by
    have hname : Path.fileName? "nested/out.rs" = some "out.rs" := by decide +kernel
    obtain ⟨dir, hdir, hside⟩ := SeatIn.beside hname htarget
    obtain ⟨rfl, -⟩ := List.append_inj' (show ["nested"] ++ ["out.rs"] = _ from hdir) rfl
    exact hside
  have hpublished : published "nested/out.rs" troubled
      (troubled.files.get? ["nested", "out.rs"]) ["one", "two"]
        = some (.file "two".utf8 false) := by
    decide +kernel
  rcases hrun : (publish "nested/out.rs" "three").run
    (publishAll "nested/out.rs" troubled ["one", "two"]) with ⟨r, d'⟩
  have hresult : r = .error .busy := by
    have : ((publish "nested/out.rs" "three").run
      (publishAll "nested/out.rs" troubled ["one", "two"])).1 = .error .busy := by decide +kernel
    rwa [hrun] at this
  have hname : (Path.fileName? "nested/out.rs").isSome := by decide +kernel
  have hfree : ∀ side, troubled.files.Seat (sidePath "nested/out.rs") side →
      troubled.files.get? side = none := by
    intro side h
    rw [h.unique hside]
    decide +kernel
  have hclear : ∀ target side, troubled.files.Seat "nested/out.rs" target →
      troubled.files.Seat (sidePath "nested/out.rs") side →
      troubled.files.SeatOff [target, side] "nested/out.rs" target := by
    intro target side h h'
    rw [h.unique htarget, h'.unique hside]
    exact seat_troubled (by simp) (by simp)
  obtain ⟨hall, -, -⟩ := publish_all_or_nothing hname hfree hclear hrun
  obtain ⟨-, -, hsince, -, hfailed, -⟩ := hall _ htarget
  rw [hpublished] at hsince hfailed
  exact ⟨hresult, hsince.mono fun fs hfs => hfs.2, hfailed _ hresult⟩

/-- Paths through the place beside them and through their own place. The write makes a directory
there, fails, and leaves it. -/
theorem publish_through_side :
    let beside := "out.rs.tmp/../out.rs"
    let itself := "out.rs/../out.rs"
    let empty := ofFiles ⟨[], []⟩
    (Path.fileName? beside = some "out.rs" ∧
      empty.files.entryAt .itself (sidePath beside) = .error .notFound ∧
      ((publish beside "new").run empty).1 = .error .isADirectory ∧
      ((publish beside "new").run empty).2.files.entryAt .itself (sidePath beside)
        = .ok (["out.rs.tmp"], .directory)) ∧
    Path.fileName? itself = some "out.rs" ∧
      empty.files.entryAt .itself (sidePath itself) = .error .notFound ∧
      empty.files.entryAt .itself itself = .error .notFound ∧
      ((publish itself "new").run empty).1 = .error .isADirectory ∧
      ((publish itself "new").run empty).2.files.entryAt .itself itself
        = .ok (["out.rs"], .directory) := by
  decide +kernel

end Disk

end Reserved
