import Reserved.Generator.Run
import Reserved.Proofs.Action

/-!
# Which generator is found, and which starts

The settings are asked first for a generator, then the variable `GPERF`, and last the search path.
What is found is a path or a bare name, and this is what the command is made of. A command with a
path starts the file there. A command with a bare name starts a file of the search path, even if
the name was found as a file of the working directory.
-/

namespace Reserved

namespace Generator

variable {fs : FileSystem} {around : Surroundings} {cfg : GeneratorConfig}
  {program path : String}

/-! ## The search -/

/-- A program that is searched for: it is one name at most. -/
def IsBare (program : String) : Prop :=
  Path.isAbsolute program = true ∧ Path.names program = [] ∨
    Path.isAbsolute program = false ∧ (Path.names program).length ≤ 1

/-- A relative path, continued from the working directory. -/
def completed (fs : FileSystem) (program : String) : String :=
  Path.join fs.workPath ("/".intercalate ((Path.names program).dropWhile (· == ".")))

/-- The file that may be run which a program stands for. -/
inductive Which (fs : FileSystem) (around : Surroundings) : String → String → Prop
  /-- A bare name is in the first directory of the search path that has such a file. -/
  | bare {before after : List String} {dir program : String} : IsBare program →
      around.searchPath = before ++ dir :: after →
      (∀ dir' ∈ before, fs.isExecutable (Path.join dir' program) = false) →
      fs.isExecutable (Path.join dir program) = true →
      Which fs around program (Path.join dir program)
  | absolute {program : String} : ¬ IsBare program → Path.isAbsolute program = true →
      fs.isExecutable program = true → Which fs around program program
  | relative {program : String} : ¬ IsBare program → Path.isAbsolute program = false →
      fs.isExecutable (completed fs program) = true →
      Which fs around program (completed fs program)

theorem isBare_iff : (Path.names program).length + (if Path.isAbsolute program then 1 else 0) ≤ 1 ↔
    IsBare program := by
  rw [IsBare, ← List.length_eq_zero_iff]
  cases Path.isAbsolute program with
  | true => simp
  | false => simp

theorem find?_map_eq_some_iff {f : String → String} {p : String → Bool} {dirs : List String} :
    (dirs.map f).find? p = some path ↔ ∃ before dir after, dirs = before ++ dir :: after ∧
      (∀ dir' ∈ before, p (f dir') = false) ∧ p (f dir) = true ∧ f dir = path := by
  rw [List.find?_eq_some_iff_append]
  constructor
  · rintro ⟨hp, as, bs, hmap, hbefore⟩
    obtain ⟨before, rest, rfl, rfl, hrest⟩ := List.map_eq_append_iff.mp hmap
    obtain ⟨dir, after, rfl, rfl, rfl⟩ := List.map_eq_cons_iff.mp hrest
    refine ⟨before, dir, after, rfl, fun dir' hdir' => ?_, hp, rfl⟩
    simpa using hbefore (f dir') (List.mem_map_of_mem hdir')
  · rintro ⟨before, dir, after, rfl, hbefore, hp, rfl⟩
    refine ⟨hp, before.map f, after.map f, by simp, fun a ha => ?_⟩
    obtain ⟨dir', hdir', rfl⟩ := List.mem_map.mp ha
    simp [hbefore dir' hdir']

theorem which?_eq_some_iff : which? fs around program = some path ↔
    Which fs around program path := by
  have hsingle : ∀ candidate, [candidate].find? fs.isExecutable = some path ↔
      fs.isExecutable candidate = true ∧ candidate = path := fun candidate => by
    rw [List.find?_singleton]
    split
    · next h => simp [h]
    · next h => simp [h]
  rw [which?]
  by_cases hbare : IsBare program
  · rw [if_pos (isBare_iff.mpr hbare), find?_map_eq_some_iff]
    constructor
    · rintro ⟨before, dir, after, hdirs, hbefore, hdir, rfl⟩
      exact .bare hbare hdirs hbefore hdir
    · intro h
      cases h with
      | bare _ hdirs hbefore hdir => exact ⟨_, _, _, hdirs, hbefore, hdir, rfl⟩
      | absolute hnot _ _ => exact absurd hbare hnot
      | relative hnot _ _ => exact absurd hbare hnot
  rw [if_neg fun h => hbare (isBare_iff.mp h)]
  cases habsolute : Path.isAbsolute program with
  | true =>
      rw [if_pos rfl, hsingle]
      constructor
      · rintro ⟨hrun, rfl⟩
        exact .absolute hbare habsolute hrun
      · intro h
        cases h with
        | bare h _ _ _ => exact absurd h hbare
        | absolute _ _ hrun => exact ⟨hrun, rfl⟩
        | relative _ hrelative _ => cases habsolute.symm.trans hrelative
  | false =>
      rw [if_neg (by simp), hsingle]
      constructor
      · rintro ⟨hrun, rfl⟩
        exact .relative hbare habsolute hrun
      · intro h
        cases h with
        | bare h _ _ _ => exact absurd h hbare
        | absolute _ h _ => cases habsolute.symm.trans h
        | relative _ _ hrun => exact ⟨hrun, rfl⟩

/-- The generator that is found: the program of the settings, or the file that the variable
names, or `gperf` on the search path. -/
inductive Located (fs : FileSystem) (around : Surroundings) (cfg : GeneratorConfig) :
    String → Prop
  | configured {program : String} : cfg.program = some program → fs.isFile program = true →
      Located fs around cfg program
  | searched {program path : String} : cfg.program = some program → fs.isFile program = false →
      Which fs around program path → Located fs around cfg path
  | named {program : String} : cfg.program = none →
      around.env.text? "GPERF" = some program → fs.isFile program = true →
      Located fs around cfg program
  | standard {path : String} : cfg.program = none →
      (∀ program, around.env.text? "GPERF" = some program → fs.isFile program = false) →
      Which fs around "gperf" path → Located fs around cfg path

/-- The name under which a generator is missed. -/
def sought (cfg : GeneratorConfig) : String :=
  cfg.program.getD "gperf"

/-- The path of a program that is searched for, or that there is none. -/
def search (fs : FileSystem) (around : Surroundings) (program : String) :
    Except GeneratorError String :=
  match which? fs around program with
  | some path => .ok path
  | none => .error (.notFound program)

theorem search_eq_ok_iff : search fs around program = .ok path ↔
    Which fs around program path := by
  rw [← which?_eq_some_iff, search]
  cases which? fs around program with
  | some found => simp
  | none => simp

theorem search_eq_error {e : GeneratorError} (h : search fs around program = .error e) :
    e = .notFound program := by
  rw [search] at h
  split at h
  · contradiction
  · exact (Except.error.inj h).symm

theorem find_eq : find fs around cfg = match cfg.program with
    | some program => if fs.isFile program then .ok program else search fs around program
    | none => match around.env.text? "GPERF" with
      | some program => if fs.isFile program then .ok program else search fs around "gperf"
      | none => search fs around "gperf" := rfl

theorem find_eq_ok_iff : find fs around cfg = .ok path ↔ Located fs around cfg path := by
  rw [find_eq]
  constructor
  · intro h
    split at h
    · next program hprogram =>
      split at h
      · next hfile => exact Except.ok.inj h ▸ .configured hprogram hfile
      · next hfile =>
        exact .searched hprogram (eq_false_of_ne_true hfile) (search_eq_ok_iff.mp h)
    · next hprogram =>
      split at h
      · next program hvariable =>
        split at h
        · next hfile => exact Except.ok.inj h ▸ .named hprogram hvariable hfile
        · next hfile =>
          refine .standard hprogram (fun program' h' => ?_) (search_eq_ok_iff.mp h)
          obtain rfl := Option.some.inj (hvariable.symm.trans h')
          exact eq_false_of_ne_true hfile
      · next hvariable =>
        refine .standard hprogram (fun program h' => ?_) (search_eq_ok_iff.mp h)
        cases hvariable.symm.trans h'
  · intro h
    cases h with
    | configured hprogram hfile => simp only [hprogram, hfile, if_true]
    | searched hprogram hfile hwhich =>
        simp only [hprogram, hfile, Bool.false_eq_true, if_false, search_eq_ok_iff.mpr hwhich]
    | named hprogram hvariable hfile => simp only [hprogram, hvariable, hfile, if_true]
    | standard hprogram hvariable hwhich =>
        simp only [hprogram]
        cases h : around.env.text? "GPERF" with
        | none => exact search_eq_ok_iff.mpr hwhich
        | some program =>
            simp only [hvariable program h, Bool.false_eq_true, if_false,
              search_eq_ok_iff.mpr hwhich]

theorem Located.unique {path' : String} (h : Located fs around cfg path)
    (h' : Located fs around cfg path') : path = path' :=
  Except.ok.inj ((find_eq_ok_iff.mpr h).symm.trans (find_eq_ok_iff.mpr h'))

theorem find_eq_error {e : GeneratorError} (h : find fs around cfg = .error e) :
    e = .notFound (sought cfg) := by
  rw [find_eq] at h
  split at h
  · next program hprogram =>
    rw [sought, hprogram]
    split at h
    · contradiction
    · exact search_eq_error h
  · next hprogram =>
    rw [sought, hprogram]
    split at h
    · split at h
      · contradiction
      · exact search_eq_error h
    · exact search_eq_error h

/-- **A search finds the generator, or tells what it was looking for.** -/
theorem find_eq_error_iff {e : GeneratorError} : find fs around cfg = .error e ↔
    e = .notFound (sought cfg) ∧ ∀ path, ¬ Located fs around cfg path := by
  constructor
  · intro h
    refine ⟨find_eq_error h, fun path hlocated => ?_⟩
    cases h.symm.trans (find_eq_ok_iff.mpr hlocated)
  · rintro ⟨rfl, hnone⟩
    cases h : find fs around cfg with
    | ok path => exact absurd (find_eq_ok_iff.mp h) (hnone path)
    | error e => rw [find_eq_error h]

end Generator

namespace Launch

variable {fs : FileSystem} {around : Surroundings} {program path : String}
  {arguments : List String} {l : Launch} {levels size : Nat} {e : Entry}

/-! ## The start -/

/-- A path leads to an entry that may be run. -/
inductive Runnable (fs : FileSystem) (path : String) : Entry → Prop
  | program {loc : Location} {p : Program} {content : List UInt8} :
      fs.entryAt .content path = .ok (loc, .program p true content) →
      Runnable fs path (.program p true content)
  | file {loc : Location} {content : List UInt8} :
      fs.entryAt .content path = .ok (loc, .file content true) →
      Runnable fs path (.file content true)

/-- What starts for a path: the program that is there, or the one that starts for the interpreter
which the file there names. -/
inductive Loads (fs : FileSystem) : Nat → Nat → String → Launch → Prop
  | program {levels size : Nat} {path : String} {p : Program} {content : List UInt8} :
      Runnable fs path (.program p true content) →
      (∀ i, Interpreter.of? content = some i →
        0 < levels ∧ size + interpreterSize i ≤ commandLimit) →
      Loads fs levels size path ⟨p, []⟩
  | interpreted {levels size : Nat} {path interpreter : String} {content : List UInt8}
      {i : Interpreter} {l : Launch} : Runnable fs path (.file content true) →
      Interpreter.of? content = some i → size + interpreterSize i ≤ commandLimit →
      i.pathText fs = .ok interpreter →
      Loads fs levels (size + interpreterSize i) interpreter l →
      Loads fs (levels + 1) size path ⟨l.program, l.leading ++ i.argument.toList ++ [path]⟩

theorem entryToRun_eq_ok_iff : entryToRun fs path = .ok e ↔ Runnable fs path e := by
  -- the empty path is refused before it is looked up, and would lead nowhere
  have hempty : path = "" → fs.entryAt .content path = .error .notFound := by
    rintro rfl
    rfl
  rw [entryToRun]
  constructor
  · intro h
    split at h
    · contradiction
    split at h
    · next loc p content hentry => exact Except.ok.inj h ▸ .program hentry
    · next loc content hentry => exact Except.ok.inj h ▸ .file hentry
    · contradiction
    · contradiction
  · intro h
    have hpath : path.isEmpty = false := by
      rw [String.isEmpty_eq_false_iff]
      intro hnone
      cases h with
      | program hentry => cases (hempty hnone).symm.trans hentry
      | file hentry => cases (hempty hnone).symm.trans hentry
    rw [hpath, if_neg (by simp)]
    cases h with
    | program hentry => rw [hentry]
    | file hentry => rw [hentry]

section Step

variable {mayInterpret : Bool} {interpret : Nat → String → Except FileError Launch}

theorem loadBy_program {p : Program} {content : List UInt8}
    (hrun : Runnable fs path (.program p true content)) :
    loadBy fs mayInterpret interpret size path = .ok l ↔
      (∀ i, Interpreter.of? content = some i →
        mayInterpret = true ∧ size + interpreterSize i ≤ commandLimit) ∧ l = ⟨p, []⟩ := by
  rw [loadBy, entryToRun_eq_ok_iff.mpr hrun]
  dsimp only
  cases Interpreter.of? content with
  | none => simp [eq_comm]
  | some i =>
      dsimp only
      split
      · next hsize => simp [Nat.not_le.mpr hsize]
      next hsize =>
      have hfits := Nat.not_lt.mp hsize
      cases mayInterpret with
      | true => simp [hfits, eq_comm]
      | false => simp

theorem loadBy_file {content : List UInt8} (hrun : Runnable fs path (.file content true)) :
    loadBy fs mayInterpret interpret size path = .ok l ↔ ∃ i interpreter l',
      Interpreter.of? content = some i ∧ size + interpreterSize i ≤ commandLimit ∧
        i.pathText fs = .ok interpreter ∧
        interpret (size + interpreterSize i) interpreter = .ok l' ∧
        l = ⟨l'.program, l'.leading ++ i.argument.toList ++ [path]⟩ := by
  rw [loadBy, entryToRun_eq_ok_iff.mpr hrun]
  dsimp only
  cases Interpreter.of? content with
  | none => simp
  | some i =>
      dsimp only
      split
      · next hsize => simp [Nat.not_le.mpr hsize]
      next hsize =>
      have hfits := Nat.not_lt.mp hsize
      cases hpath : i.pathText fs with
      | error e => simp [hpath]
      | ok interpreter =>
          dsimp only
          rw [map_eq_ok]
          simp [hpath, hfits, eq_comm]

/-- A file that is run is a program that may be started, or it has an interpreter that starts. -/
theorem loadBy_eq_ok_iff : loadBy fs mayInterpret interpret size path = .ok l ↔
    (∃ p content, Runnable fs path (.program p true content) ∧
      (∀ i, Interpreter.of? content = some i →
        mayInterpret = true ∧ size + interpreterSize i ≤ commandLimit) ∧ l = ⟨p, []⟩) ∨
    ∃ content i interpreter l', Runnable fs path (.file content true) ∧
      Interpreter.of? content = some i ∧ size + interpreterSize i ≤ commandLimit ∧
      i.pathText fs = .ok interpreter ∧
      interpret (size + interpreterSize i) interpreter = .ok l' ∧
      l = ⟨l'.program, l'.leading ++ i.argument.toList ++ [path]⟩ := by
  constructor
  · intro h
    cases hentry : entryToRun fs path with
    | error e =>
        rw [loadBy, hentry] at h
        cases h
    | ok e =>
        have hrun := entryToRun_eq_ok_iff.mp hentry
        cases hrun with
        | program hfound =>
            exact .inl ⟨_, _, .program hfound, (loadBy_program (.program hfound)).mp h⟩
        | file hfound =>
            obtain ⟨i, interpreter, l', hrest⟩ := (loadBy_file (.file hfound)).mp h
            exact .inr ⟨_, i, interpreter, l', .file hfound, hrest⟩
  · rintro (⟨p, content, hrun, hrest⟩ | ⟨content, i, interpreter, l', hrun, hrest⟩)
    · exact (loadBy_program hrun).mpr hrest
    · exact (loadBy_file hrun).mpr ⟨i, interpreter, l', hrest⟩

end Step

theorem loadWithin_eq_ok_iff : loadWithin fs levels size path = .ok l ↔
    Loads fs levels size path l := by
  induction levels generalizing size path l with
  | zero =>
      rw [loadWithin, loadBy_eq_ok_iff]
      constructor
      · rintro (⟨p, content, hrun, hmay, rfl⟩ | ⟨_, _, _, _, -, -, -, -, hnever, -⟩)
        · exact .program hrun fun i hi => absurd (hmay i hi).1 (by simp)
        · obtain ⟨_, -, hthrow⟩ := bind_eq_ok.mp hnever
          cases hthrow
      · intro h
        cases h with
        | program hrun hmay =>
            exact .inl ⟨_, _, hrun, fun i hi => absurd (hmay i hi).1 (Nat.lt_irrefl 0), rfl⟩
  | succ levels ih =>
      rw [loadWithin, loadBy_eq_ok_iff]
      constructor
      · rintro (⟨p, content, hrun, hmay, rfl⟩ | ⟨content, i, interpreter, l', hrun, hi, hsize, hpath,
          hl', rfl⟩)
        · exact .program hrun fun i hi => ⟨Nat.succ_pos _, (hmay i hi).2⟩
        · exact .interpreted hrun hi hsize hpath (ih.mp hl')
      · intro h
        cases h with
        | program hrun hmay => exact .inl ⟨_, _, hrun, fun i hi => ⟨rfl, (hmay i hi).2⟩, rfl⟩
        | interpreted hrun hi hsize hpath hl' =>
            exact .inr ⟨_, _, _, _, hrun, hi, hsize, hpath, ih.mpr hl', rfl⟩

/-- What starts for a path when there is enough space for the command. -/
structure Loaded (fs : FileSystem) (around : Surroundings) (program : String)
    (arguments : List String) (path : String) (l : Launch) : Prop where
  short : ∀ argument ∈ arguments, isTooLong argument = false
  fits : commandSize around (program :: arguments) + path.utf8.length + 1 ≤ commandLimit
  loads : Loads fs 5 (commandSize around (path :: arguments) + path.utf8.length + 1) path l

/-- What starts for a bare name from one of some directories. Those in front of it do not have the
name, or it may not be run there. -/
inductive LoadedFrom (fs : FileSystem) (around : Surroundings) (name : String)
    (arguments : List String) : List String → Launch → Prop
  | here {dir : String} {rest : List String} {l : Launch} :
      Loaded fs around name arguments (Path.join dir name) l →
      LoadedFrom fs around name arguments (dir :: rest) l
  | later {dir : String} {rest : List String} {l : Launch} {e : FileError} :
      load fs around name arguments (Path.join dir name) = .error e →
      e ∈ [FileError.permissionDenied, .notFound, .notADirectory] →
      LoadedFrom fs around name arguments rest l →
      LoadedFrom fs around name arguments (dir :: rest) l

/-- What starts for a command. A path is looked up from the working directory, and a bare name in
the directories of the search path only. -/
inductive Runs (fs : FileSystem) (around : Surroundings) (arguments : List String) :
    String → Launch → Prop
  | path {path : String} {l : Launch} : (∀ text ∈ path :: arguments, hasNul text = false) →
      '/' ∈ path.toList → Loaded fs around path arguments path l → Runs fs around arguments path l
  | name {name : String} {l : Launch} : (∀ text ∈ name :: arguments, hasNul text = false) →
      '/' ∉ name.toList → LoadedFrom fs around name arguments around.searchPath l →
      Runs fs around arguments name l

theorem load_eq_ok_iff : load fs around program arguments path = .ok l ↔
    Loaded fs around program arguments path l := by
  rw [load]
  dsimp only
  split
  · next hlong =>
    constructor
    · intro h
      obtain ⟨_, -, hthrow⟩ := bind_eq_ok.mp h
      cases hthrow
    · rintro ⟨hshort, hfits, -⟩
      rcases hlong with hlong | hlong
      · obtain ⟨argument, hargument, htoo⟩ := List.any_eq_true.mp hlong
        cases htoo.symm.trans (hshort argument hargument)
      · exact absurd hfits (Nat.not_le.mpr hlong)
  · next hfits =>
    rw [not_or, List.any_eq_true] at hfits
    obtain ⟨hshort, hfits⟩ := hfits
    rw [loadWithin_eq_ok_iff]
    constructor
    · intro h
      exact ⟨fun a ha => eq_false_of_ne_true fun htoo => hshort ⟨a, ha, htoo⟩,
        Nat.not_lt.mp hfits, h⟩
    · exact fun h => h.loads

theorem loadFrom_eq_ok_iff {name : String} {dirs : List String} {failure : FileError} :
    loadFrom fs around name arguments failure dirs = .ok l ↔
      LoadedFrom fs around name arguments dirs l := by
  induction dirs generalizing failure with
  | nil =>
      constructor
      · intro h
        cases h
      · intro h
        cases h
  | cons dir rest ih =>
      rw [loadFrom]
      cases hload : load fs around name arguments (Path.join dir name) with
      | ok l' =>
          constructor
          · intro h
            obtain rfl := Except.ok.inj h
            exact .here (load_eq_ok_iff.mp hload)
          · intro h
            cases h with
            | here hloaded => exact hload.symm.trans (load_eq_ok_iff.mpr hloaded)
            | later hfail _ _ => cases hload.symm.trans hfail
      | error e =>
          -- what starts, if anything does, is from a later directory
          have hnever : ¬ Loaded fs around name arguments (Path.join dir name) l := fun h =>
            by cases hload.symm.trans (load_eq_ok_iff.mpr h)
          have hlater : LoadedFrom fs around name arguments (dir :: rest) l ↔
              e ∈ [FileError.permissionDenied, .notFound, .notADirectory] ∧
                LoadedFrom fs around name arguments rest l := by
            constructor
            · intro h
              cases h with
              | here hloaded => exact absurd hloaded hnever
              | later hfail he hrest =>
                  obtain rfl := Except.error.inj (hload.symm.trans hfail)
                  exact ⟨he, hrest⟩
            · exact fun ⟨he, hrest⟩ => .later hload he hrest
          rw [hlater]
          dsimp only
          split
          · next hdenied => rw [ih, and_iff_right (by simp [hdenied])]
          split
          · next hmissing => rw [ih, and_iff_right (by rcases hmissing with rfl | rfl <;> simp)]
          · next hdenied hmissing =>
            rw [not_or] at hmissing
            simp [hdenied, hmissing]

/-- **What starts for a command.** -/
theorem ofCommand_eq_ok_iff : ofCommand fs around program arguments = .ok l ↔
    Runs fs around arguments program l := by
  rw [ofCommand]
  split
  · next hnul =>
    obtain ⟨text, htext, hnul⟩ := List.any_eq_true.mp hnul
    constructor
    · intro h
      cases h
    · intro h
      cases h with
      | path hfree _ _ => cases hnul.symm.trans (hfree text htext)
      | name hfree _ _ => cases hnul.symm.trans (hfree text htext)
  next hfree =>
  have hfree : ∀ text ∈ program :: arguments, hasNul text = false := fun text htext =>
    eq_false_of_ne_true fun hnul => hfree (List.any_eq_true.mpr ⟨text, htext, hnul⟩)
  split
  · next hslash =>
    have hslash := List.contains_iff_mem.mp hslash
    rw [load_eq_ok_iff]
    constructor
    · exact .path hfree hslash
    · intro h
      cases h with
      | path _ _ hloaded => exact hloaded
      | name _ hnone _ => exact absurd hslash hnone
  · next hslash =>
    have hslash : '/' ∉ program.toList := fun h => hslash (List.contains_iff_mem.mpr h)
    rw [loadFrom_eq_ok_iff]
    constructor
    · exact .name hfree hslash
    · intro h
      cases h with
      | path _ h _ => exact absurd h hslash
      | name _ _ hloaded => exact hloaded

theorem Runs.unique {l' : Launch} (h : Runs fs around arguments program l)
    (h' : Runs fs around arguments program l') : l = l' :=
  Except.ok.inj ((ofCommand_eq_ok_iff.mpr h).symm.trans (ofCommand_eq_ok_iff.mpr h'))

end Launch

end Reserved
