import Reserved.Proofs.Action
import Reserved.Proofs.Files.Seat

/-!
# What calls do to a disk

A call makes steps, and every step puts one more state on record. The history of a disk is its
files with these records; the faults that are still to come are no part of it. `Via R` says that
each step on the way from one history to another changed the files as `R` allows, whether the
call that made it succeeded or not. So it can be shown of an action from its parts, through every
place where one of them may fail.
-/

namespace Reserved

/-- What has happened on a disk, whatever may still befall it. -/
structure History where
  files : FileSystem
  past : List (FileSystem × Step)

namespace History

def after (h : History) (s : Step) : History :=
  ⟨h.files.after s, (h.files, s) :: h.past⟩

/-- Each step from one history to the other changed the files as `R` allows. -/
inductive Via (R : FileSystem → FileSystem → Prop) : History → History → Prop
  | none (h : History) : Via R h h
  | step {h h' : History} {s : Step} : R h.files (h.files.after s) → Via R (h.after s) h' →
      Via R h h'

/-- From one history on, `P` held of the files before each step that led to the other. -/
def Since (P : FileSystem → Prop) (h h' : History) : Prop :=
  ∃ steps, h'.past = steps ++ h.past ∧ ∀ s ∈ steps, P s.1

variable {R : FileSystem → FileSystem → Prop} {P : FileSystem → Prop} {h h' h'' : History}

theorem Via.one {s : Step} (hs : R h.files (h.files.after s)) : Via R h (h.after s) :=
  .step hs (.none _)

theorem Via.trans (hvia : Via R h h') (hvia' : Via R h' h'') : Via R h h'' := by
  induction hvia with
  | none _ => exact hvia'
  | step hs _ ih => exact .step hs (ih hvia')

theorem Since.refl (P : FileSystem → Prop) (h : History) : Since P h h :=
  ⟨[], rfl, fun _ hs => absurd hs List.not_mem_nil⟩

theorem Since.one {s : Step} (hP : P h.files) : Since P h (h.after s) := by
  refine ⟨[(h.files, s)], rfl, fun s' hs' => ?_⟩
  rw [List.mem_singleton.mp hs']
  exact hP

theorem Since.trans (hsince : Since P h h') (hsince' : Since P h' h'') : Since P h h'' := by
  obtain ⟨steps, hpast, hP⟩ := hsince
  obtain ⟨steps', hpast', hP'⟩ := hsince'
  refine ⟨steps' ++ steps, by rw [hpast', hpast, List.append_assoc], fun s hs => ?_⟩
  exact (List.mem_append.mp hs).elim (hP' s) (hP s)

theorem Since.mono {Q : FileSystem → Prop} (hPQ : ∀ fs, P fs → Q fs) (hsince : Since P h h') :
    Since Q h h' := by
  obtain ⟨steps, hpast, hP⟩ := hsince
  exact ⟨steps, hpast, fun s hs => hPQ _ (hP s hs)⟩

/-- **What every step keeps has held all along.** -/
theorem Via.keeps (hR : ∀ fs fs', R fs fs' → P fs → P fs') (hvia : Via R h h') (hP : P h.files) :
    P h'.files ∧ Since P h h' := by
  induction hvia with
  | none h => exact ⟨hP, Since.refl P h⟩
  | step hs _ ih =>
      obtain ⟨hlast, hsince⟩ := ih (hR _ _ hs hP)
      exact ⟨hlast, (Since.one hP).trans hsince⟩

end History

namespace Disk

open FileSystem History

def history (d : Disk) : History :=
  ⟨d.files, d.past⟩

/-! ## Calls -/

variable {α β : Type} {d d' : Disk} {path : String}

theorem run_nextFault (d : Disk) :
    nextFault.run d = (.ok d.faults.head?.join, { d with faults := d.faults.drop 1 }) := rfl

theorem run_get (d : Disk) : (get : DiskAction Disk).run d = (.ok d, d) := rfl

/-- A call fails and does nothing, or makes its step. -/
theorem call_cases {place : FileSystem → Except FileError α} {step : α → Step}
    {r : Except FileError α} (h : (call place step).run d = (r, d')) :
    (∃ e, r = .error e ∧ d'.history = d.history) ∨
      ∃ a, r = .ok a ∧ place d.files = .ok a ∧ d'.history = d.history.after (step a) := by
  rw [call, run_bind, run_nextFault] at h
  cases hfault : d.faults.head?.join with
  | some fault =>
      rw [hfault] at h
      obtain ⟨rfl, rfl⟩ := Prod.mk.inj h
      exact .inl ⟨_, rfl, rfl⟩
  | none =>
      rw [hfault] at h
      dsimp only at h
      rw [run_bind, run_get] at h
      dsimp only at h
      cases hplace : place d.files with
      | error e =>
          rw [hplace] at h
          obtain ⟨rfl, rfl⟩ := Prod.mk.inj h
          exact .inl ⟨_, rfl, rfl⟩
      | ok a =>
          rw [hplace] at h
          obtain ⟨rfl, rfl⟩ := Prod.mk.inj h
          exact .inr ⟨a, rfl, rfl, rfl⟩

/-- A write that fails may have written the first of the bytes. -/
theorem write_cases {loc : Location} {bytes : List UInt8} {r : Except FileError Unit}
    (h : (write loc bytes).run d = (r, d')) :
    (∃ e, r = .error e ∧ (d'.history = d.history ∨
        ∃ part, part <+: bytes ∧ d'.history = d.history.after (.write loc part))) ∨
      r = .ok () ∧ d.files.writeFault? loc bytes = none ∧
        d'.history = d.history.after (.write loc bytes) := by
  rw [write, run_bind, run_nextFault] at h
  cases hfault : d.faults.head?.join with
  | some fault =>
      rw [hfault] at h
      obtain ⟨rfl, rfl⟩ := Prod.mk.inj h
      exact .inl ⟨_, rfl, .inr ⟨_, List.take_prefix _ _, rfl⟩⟩
  | none =>
      rw [hfault] at h
      dsimp only at h
      rw [run_bind, run_get] at h
      dsimp only at h
      cases hwrite : d.files.writeFault? loc bytes with
      | some e =>
          rw [hwrite] at h
          obtain ⟨rfl, rfl⟩ := Prod.mk.inj h
          exact .inl ⟨_, rfl, .inl rfl⟩
      | none =>
          rw [hwrite] at h
          obtain ⟨rfl, rfl⟩ := Prod.mk.inj h
          exact .inr ⟨rfl, rfl, rfl⟩

/-- An entry is moved, or nothing is done. -/
theorem rename_cases {old new : String} {r : Except FileError Unit}
    (h : (rename old new).run d = (r, d')) :
    (∃ e, r = .error e ∧ d'.history = d.history) ∨
      ∃ source target, r = .ok () ∧ d.files.renamePlaces old new = .ok (source, target) ∧
        d'.history = d.history.after (.rename source target) := by
  rw [rename, run_bind] at h
  split at h
  · next places d₁ hcall =>
    obtain ⟨rfl, rfl⟩ := Prod.mk.inj h
    rcases call_cases hcall with ⟨_, hfail, -⟩ | ⟨_, hok, hplaces, hmoved⟩
    · contradiction
    · obtain rfl := Except.ok.inj hok
      exact .inr ⟨_, _, rfl, hplaces, hmoved⟩
  · next e d₁ hcall =>
    obtain ⟨rfl, rfl⟩ := Prod.mk.inj h
    rcases call_cases hcall with ⟨_, -, hsame⟩ | ⟨_, hok, -, -⟩
    · exact .inl ⟨e, rfl, hsame⟩
    · contradiction

/-- Removing never fails. Either there is nothing to be removed, or it goes. -/
theorem removeIfPresent_cases (path : String) (d : Disk) :
    ∃ d', (removeIfPresent path).run d = (.ok (), d') ∧
      ((∃ e, d.files.removalPlace path = .error e ∧ d'.history = d.history) ∨
        ∃ loc, d.files.removalPlace path = .ok loc ∧
          d'.history = d.history.after (.remove loc)) := by
  rw [removeIfPresent, run_bind, run_get]
  dsimp only
  cases hplace : d.files.removalPlace path with
  | error e => exact ⟨d, rfl, .inl ⟨e, rfl, rfl⟩⟩
  | ok loc => exact ⟨_, rfl, .inr ⟨loc, rfl, rfl⟩⟩

/-! ## Actions made of calls -/

/-- Every step of an action, wherever it ends, changes the files as `R` allows. -/
def Acts (R : FileSystem → FileSystem → Prop) (x : DiskAction α) : Prop :=
  ∀ d, Via R d.history (x.run d).2.history

variable {R : FileSystem → FileSystem → Prop}

theorem acts_pure (a : α) : Acts R (pure a) :=
  fun _ => .none _

theorem acts_throw (e : FileError) : Acts R (throw e : DiskAction α) :=
  fun _ => .none _

theorem Acts.bind {x : DiskAction α} {f : α → DiskAction β} (hx : Acts R x)
    (hf : ∀ a, Acts R (f a)) : Acts R (x >>= f) := by
  intro d
  have hfirst := hx d
  rw [run_bind]
  rcases hrun : x.run d with ⟨r, d'⟩
  rw [hrun] at hfirst
  cases r with
  | error e => exact hfirst
  | ok a => exact hfirst.trans (hf a d')

theorem Acts.tryCatch {x : DiskAction α} {handle : FileError → DiskAction α} (hx : Acts R x)
    (hhandle : ∀ e, Acts R (handle e)) : Acts R (tryCatch x handle) := by
  intro d
  have hfirst := hx d
  rw [run_tryCatch]
  rcases hrun : x.run d with ⟨r, d'⟩
  rw [hrun] at hfirst
  cases r with
  | error e => exact hfirst.trans (hhandle e d')
  | ok a => exact hfirst

theorem acts_get : Acts R (get : DiskAction Disk) :=
  fun _ => .none _

/-! ## Making directories -/

/-- Makes a directory at the seat of one of the paths, where nothing is. -/
def MakesDirectory (paths : List String) (fs fs' : FileSystem) : Prop :=
  ∃ path ∈ paths, ∃ loc, fs.Seat path loc ∧ fs.get? loc = none ∧
    fs' = fs.after (.makeDirectory loc)

theorem acts_makeDirectory {paths : List String} (hpath : path ∈ paths) :
    Acts (MakesDirectory paths) (makeDirectory path) := by
  refine Acts.bind ?_ fun _ => acts_pure _
  intro d
  rcases hrun : (call (·.directoryPlace path) .makeDirectory).run d with ⟨r, d'⟩
  rcases call_cases hrun with ⟨e, -, hhistory⟩ | ⟨loc, -, hplace, hhistory⟩
  · rw [hhistory]
    exact .none _
  · obtain ⟨hseat, hnone⟩ := directoryPlace_eq_ok hplace
    rw [hhistory]
    exact Via.one ⟨path, hpath, loc, seat_of_get? hseat, hnone, rfl⟩

theorem acts_ensureDirectory {paths : List String} (hpath : path ∈ paths) :
    Acts (MakesDirectory paths) (ensureDirectory path) := by
  refine Acts.tryCatch (acts_makeDirectory hpath) fun e => ?_
  refine Acts.bind acts_get fun d => ?_
  split
  · exact acts_pure _
  · exact acts_throw _

theorem acts_makeDirectories {paths : List String} :
    ∀ {outer : List String}, outer ⊆ paths → Acts (MakesDirectory paths) (makeDirectories outer)
  | [], _ => acts_pure ()
  | path :: outer, hsubset => by
      have hpath := acts_ensureDirectory (hsubset List.mem_cons_self)
      refine Acts.tryCatch hpath fun e => ?_
      split
      · exact Acts.bind (acts_makeDirectories (List.subset_of_cons_subset hsubset)) fun _ => hpath
      · exact acts_throw _

end Disk

end Reserved
