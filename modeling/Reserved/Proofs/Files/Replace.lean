import Reserved.Proofs.Files.Attempt

/-!
# Replacing a file where no link stands beside it

If no link stands beside a path, the file is made at that very seat, and it is this file that is
moved. All steps but the move change nothing else. So up to the move the file system is the same
off this one seat, and a failed attempt leaves nothing there.
-/

namespace Reserved

namespace Disk

open FileSystem History

variable {d d' d₁ : Disk} {side path : String} {bytes written : List UInt8}
  {seat loc : Location}

/-- How an attempt can end where no link stands beside the path. -/
inductive Replaces (d : Disk) (side path : String) (bytes : List UInt8) :
    Except FileError Unit → Disk → Prop
  | undone {e : FileError} {d' : Disk} : d'.history = d.history →
      Replaces d side path bytes (.error e) d'
  /-- There is nothing left beside the path. -/
  | failed {e : FileError} {d' : Disk} {seat : Location} :
      SeatIn d.files.get? d.files.workDir side seat →
      Via (SameOff [seat]) d.history d'.history → d'.files.get? seat = none →
      Replaces d side path bytes (.error e) d'
  | moved {d' : Disk} {seat target : Location} {h : History} {e : Entry} :
      SeatIn d.files.get? d.files.workDir side seat →
      (∀ e, d.files.get? seat = some e → ¬ Passable e) →
      EndsInName path → SeatIn d.files.get? d.files.workDir path target →
      d.files.get? target ≠ some .directory →
      Via (SameOff [seat]) d.history h → h.files.get? seat = some e → Carries bytes e →
      (d.files.get? seat = none → e = .file bytes false) →
      d'.history = h.after (.rename seat target) → Replaces d side path bytes (.ok ()) d'

/-- What stands where after a move: the entry from beside the path at the path, nothing beside it,
and all else as before. -/
theorem get?_of_moved {target : Location} {h : History} {e : Entry} (hseat : seat ≠ [])
    (htarget : target ≠ []) (hvia : Via (SameOff [seat]) d.history h)
    (he : h.files.get? seat = some e) (hmoved : d'.history = h.after (.rename seat target)) :
    d'.files.workDir = d.files.workDir ∧ ∀ l, d'.files.get? l =
      if l = target then some e else if l = seat then none else d.files.get? l := by
  have hfiles : d'.files = h.files.after (.rename seat target) := congrArg History.files hmoved
  have hsame := sameOff_of_via hvia
  refine ⟨by rw [hfiles, workDir_rename]; exact hsame.workDir, fun l => ?_⟩
  rw [hfiles, get?_rename he hseat htarget]
  split
  · rfl
  · split
    · rfl
    · next hl => exact hsame.get? l (by simpa using hl)

/-- An attempt that removes what is beside the path leaves nothing there. -/
theorem failed_of_removed {e : FileError} {h : History}
    (hseat : SeatIn d.files.get? d.files.workDir side seat)
    (hvia : Via (SameOff [seat]) d.history h) (hremoved : d'.history = h.after (.remove seat)) :
    Replaces d side path bytes (.error e) d' := by
  have hfiles : d'.files = h.files.after (.remove seat) := congrArg History.files hremoved
  refine .failed hseat ?_ ?_
  · rw [hremoved]
    exact hvia.trans (.one (sameOff_remove hseat.ne_nil))
  · rw [hfiles, get?_remove hseat.ne_nil, if_pos rfl]

/-- Where no link stood, no path has led through what was there. -/
theorem Made.free (h : Made d side seat loc written d')
    (hnolink : ∀ target, d.files.get? seat ≠ some (.link target)) :
    loc = seat ∧ ∀ e, d.files.get? seat = some e → ¬ Passable e := by
  obtain ⟨rfl, hdir⟩ := h.direct hnolink
  refine ⟨rfl, fun e he hpassable => ?_⟩
  cases hpassable with
  | directory => exact hdir he
  | link target => exact hnolink target he

/-- **Every end of an attempt**, if no link stands beside the path. -/
theorem Attempts.replaces {r : Except FileError Unit} (h : Attempts d side path bytes r d')
    (hnolink : ∀ seat target, d.files.Seat side seat →
      d.files.get? seat ≠ some (.link target)) : Replaces d side path bytes r d' := by
  cases h with
  | undone hhistory => exact .undone hhistory
  | removed hseat hremoved => exact failed_of_removed hseat (.none _) hremoved
  | failed _ hmade hremoved =>
      obtain ⟨rfl, -⟩ := hmade.free fun target => hnolink _ target (seat_of_get? hmade.isSeat)
      exact failed_of_removed hmade.isSeat hmade.via hremoved
  | @moved d₁ _ seat loc target hmade hdevice hpath htarget hdir hmoved =>
      obtain ⟨rfl, hfree⟩ := hmade.free fun target => hnolink _ target (seat_of_get? hmade.isSeat)
      refine .moved hmade.isSeat hfree hpath htarget hdir hmade.via hmade.content
        (carries_rewritten hfree hdevice) (fun hnone => ?_) hmoved
      rw [hnone, rewritten_none]

end Disk

end Reserved
