import Reserved.Proofs.Action
import Reserved.Proofs.Files.Publish
import Reserved.Proofs.Generator.AnyOrder
import Reserved.Proofs.Generator.Exchange
import Reserved.Proofs.Generator.Search
import Reserved.Proofs.Pipeline.Work
import Reserved.Proofs.Text.Utf8

/-!
# What a run with an external generator does

A run has five places to fail before it writes anything: the keyword file, the search for the
generator, its start, its end, and its output, which must be text and have the shape that the
rules expect. `Produces` and `Outcome` have one constructor for each way to fail with a loaded
keyword file, and each says that the ones before it went well. They also say whether a generator
was started, and which.

Nothing is written until all of this went well. What is then written is the edited output. But a
run may also stay where it is: when the generator and the run wait for each other, it never comes
to an end.
-/

namespace Reserved

namespace Generator

variable {fs : FileSystem} {around : Surroundings} {cfg : GeneratorConfig} {spec : KeywordSpec}

theorem invocations_warnings (program : String) (stderr : List Char) (j : Journal) :
    (warnings program stderr j).invocations = j.invocations := by
  rw [warnings]
  generalize lines stderr = ls
  induction ls generalizing j with
  | nil => rfl
  | cons line rest ih =>
      rw [List.foldl_cons, ih]
      rfl

/-- What starts when the generator is run. A bare name that was found in the working directory starts
what the search path has under this name. -/
structure Starts (fs : FileSystem) (around : Surroundings) (cfg : GeneratorConfig)
    (path : String) (l : Launch) : Prop where
  located : Located fs around cfg path
  runs : Launch.Runs fs around cfg.arguments path l

/-- How the generator is started for a specification, and what it reads. -/
def startOf (cfg : GeneratorConfig) (spec : KeywordSpec) (l : Launch) : Invocation where
  leading := l.leading
  arguments := s!"--multiple-iterations={cfg.iterations}" :: cfg.extraFlags
  input := if l.program.readsInput then some (cfg.inputText spec) else none

/-- The exchange with the program comes to its end. -/
def Settles (cfg : GeneratorConfig) (spec : KeywordSpec) (l : Launch) : Prop :=
  Exchange.Settles l.program (cfg.inputText spec).utf8

/-- The starts of a generator and what it produces, or why it produces nothing. -/
inductive Produces (fs : FileSystem) (around : Surroundings) (cfg : GeneratorConfig)
    (spec : KeywordSpec) : List Invocation → Except GeneratorError String → Prop
  | notFound : (∀ path, ¬ Located fs around cfg path) →
      Produces fs around cfg spec [] (.error (.notFound (sought cfg)))
  | spawn {path : String} {e : FileError} : Located fs around cfg path →
      (∀ l, ¬ Launch.Runs fs around cfg.arguments path l) →
      Launch.ofCommand fs around path cfg.arguments = .error e →
      Produces fs around cfg spec [] (.error (.spawn path e))
  /-- The program and the run wait for each other for ever. -/
  | endless {path : String} {l : Launch} : Starts fs around cfg path l →
      ¬ Settles cfg spec l →
      Produces fs around cfg spec [startOf cfg spec l] (.error (.exit path .never
        (String.ofList (Utf8.decodeLossy l.program.stderr))))
  | exit {path : String} {l : Launch} : Starts fs around cfg path l → Settles cfg spec l →
      l.program.ending ≠ .exit 0 →
      Produces fs around cfg spec [startOf cfg spec l] (.error (.exit path l.program.ending
        (String.ofList (Utf8.decodeLossy l.program.stderr))))
  | notUtf8 {path : String} {l : Launch} {fault : Utf8.Fault} : Starts fs around cfg path l →
      Settles cfg spec l → l.program.ending = .exit 0 →
      Utf8.decode l.program.stdout = .error fault →
      Produces fs around cfg spec [startOf cfg spec l] (.error (.notUtf8 path))
  | text {path : String} {l : Launch} {text : List Char} : Starts fs around cfg path l →
      Settles cfg spec l → l.program.ending = .exit 0 →
      Utf8.decode l.program.stdout = .ok text →
      Produces fs around cfg spec [startOf cfg spec l] (.ok (String.ofList text))

theorem run_execute (fs : FileSystem) (around : Surroundings) (cfg : GeneratorConfig)
    (program input : String) (j : Journal) :
    (execute fs around cfg program input).run j =
      let j := j.log .debug s!"running {showCommand program cfg.arguments}"
      match Launch.ofCommand fs around program cfg.arguments with
      | .error e => (.error (.spawn program e), j)
      | .ok l =>
        let j := j.invoke
          ⟨l.leading, cfg.arguments, if l.program.readsInput then some input else none⟩
        let stderr := Utf8.decodeLossy l.program.stderr
        let ending := endingOn l.program input.utf8
        if ending ≠ .exit 0 then (.error (.exit program ending (String.ofList stderr)), j)
        else
          match Utf8.decode l.program.stdout with
          | .error _ => (.error (.notUtf8 program), warnings program stderr j)
          | .ok text => (.ok (String.ofList text), (warnings program stderr j).logTimed .info
              s!"[keyhash] {program} produced {l.program.stdout.length} bytes") := by
  unfold execute
  dsimp only
  cases Launch.ofCommand fs around program cfg.arguments with
  | error e => rfl
  | ok l =>
      by_cases hending : endingOn l.program input.utf8 = .exit 0
      · simp only [hending, ne_eq, not_true_eq_false, ite_false]
        cases Utf8.decode l.program.stdout with
        | error fault => rfl
        | ok text => rfl
      · simp only [hending, ne_eq, not_false_eq_true, ite_true]
        rfl

/-- A program comes to its own end if the exchange does. -/
theorem endingOn_cases (cfg : GeneratorConfig) (spec : KeywordSpec) (l : Launch) :
    (Settles cfg spec l ∧ endingOn l.program (cfg.inputText spec).utf8 = l.program.ending) ∨
      ¬ Settles cfg spec l ∧ endingOn l.program (cfg.inputText spec).utf8 = .never := by
  rw [Settles, Exchange.settles_iff, endingOn]
  cases jams l.program (cfg.inputText spec).utf8 with
  | false => exact .inl ⟨rfl, rfl⟩
  | true => exact .inr ⟨by simp, rfl⟩

/-- **Each run of a generator has one of these results**, and starts it once at most. -/
theorem produces_of_run (fs : FileSystem) (around : Surroundings) (cfg : GeneratorConfig)
    (spec : KeywordSpec) (j : Journal) :
    ∃ started, Produces fs around cfg spec started ((run fs around cfg spec).run j).1 ∧
      ((run fs around cfg spec).run j).2.invocations = j.invocations ++ started := by
  unfold run
  cases hfind : find fs around cfg with
  | error e =>
      obtain ⟨rfl, hnone⟩ := find_eq_error_iff.mp hfind
      exact ⟨[], .notFound hnone, (List.append_nil _).symm⟩
  | ok path =>
      have hlocated := find_eq_ok_iff.mp hfind
      dsimp only
      rw [run_execute]
      cases hlaunch : Launch.ofCommand fs around path cfg.arguments with
      | error e =>
          refine ⟨[], .spawn hlocated (fun l hruns => ?_) hlaunch, (List.append_nil _).symm⟩
          cases hlaunch.symm.trans (Launch.ofCommand_eq_ok_iff.mpr hruns)
      | ok l =>
          have hstarts : Starts fs around cfg path l :=
            ⟨hlocated, Launch.ofCommand_eq_ok_iff.mp hlaunch⟩
          refine ⟨[startOf cfg spec l], ?_⟩
          dsimp only
          rcases endingOn_cases cfg spec l with ⟨hsettles, hends⟩ | ⟨hsettles, hends⟩
          · rw [hends]
            split
            · next hending => exact ⟨.exit hstarts hsettles hending, rfl⟩
            · next hending =>
              have hending : l.program.ending = .exit 0 := Classical.not_not.mp hending
              cases hdecode : Utf8.decode l.program.stdout with
              | error fault =>
                  refine ⟨.notUtf8 hstarts hsettles hending hdecode, ?_⟩
                  exact invocations_warnings _ _ _
              | ok text =>
                  refine ⟨.text hstarts hsettles hending hdecode, ?_⟩
                  exact invocations_warnings _ _ _
          · rw [hends, if_pos (by simp)]
            exact ⟨.endless hstarts hsettles, rfl⟩

/-- What is found and what starts is settled before the run. -/
theorem Starts.unique {path path' : String} {l l' : Launch} (h : Starts fs around cfg path l)
    (h' : Starts fs around cfg path' l') : path = path' ∧ l = l' := by
  obtain rfl := h.located.unique h'.located
  exact ⟨rfl, h.runs.unique h'.runs⟩

/-- If the exchange with what starts does not come to its end, nothing is produced. -/
theorem Produces.eq_endless {started : List Invocation} {r : Except GeneratorError String}
    {path : String} {l : Launch} (h : Produces fs around cfg spec started r)
    (hstarts : Starts fs around cfg path l) (hstuck : ¬ Settles cfg spec l) :
    r = .error (.exit path .never (String.ofList (Utf8.decodeLossy l.program.stderr))) := by
  cases h with
  | notFound hnone => exact absurd hstarts.located (hnone path)
  | spawn hlocated hnone _ =>
      obtain rfl := hlocated.unique hstarts.located
      exact absurd hstarts.runs (hnone l)
  | endless hstarts' _ =>
      obtain ⟨rfl, rfl⟩ := hstarts'.unique hstarts
      rfl
  | exit hstarts' hsettles _ =>
      obtain ⟨rfl, rfl⟩ := hstarts'.unique hstarts
      exact absurd hsettles hstuck
  | notUtf8 hstarts' hsettles _ _ =>
      obtain ⟨rfl, rfl⟩ := hstarts'.unique hstarts
      exact absurd hsettles hstuck
  | text hstarts' hsettles _ _ =>
      obtain ⟨rfl, rfl⟩ := hstarts'.unique hstarts
      exact absurd hsettles hstuck

theorem length_kindType_le (cfg : GeneratorConfig) (spec : KeywordSpec) :
    cfg.kindType.utf8.length ≤ (cfg.inputText spec).utf8.length := by
  unfold GeneratorConfig.inputText GeneratorConfig.renderDeclarations
  simp only [utf8_append, List.length_append, toString]
  omega

end Generator

namespace Pipeline

open Generator (Produces)

/-- The mismatch is that of the first rule that does not match the raw text as often as it must. -/
def FirstMismatch (cfg : GeneratorConfig) (raw : String) (m : ContractMismatch) : Prop :=
  ∃ before r after, EditRule.forConfig cfg = before ++ r :: after ∧
    (∀ r' ∈ before, r'.pattern.count raw.toList = r'.expected) ∧
    r.pattern.count raw.toList ≠ r.expected ∧
    m = ⟨r.name, r.pattern.source, r.expected, r.pattern.count raw.toList⟩

/-- The starts of a generator and what a run writes, or why it writes nothing. -/
inductive Outcome (fs : FileSystem) (around : Surroundings) (cfg : GeneratorConfig)
    (spec : KeywordSpec) (started : List Invocation) : Except PipelineError String → Prop
  | generator {e : GeneratorError} : Produces fs around cfg spec started (.error e) →
      Outcome fs around cfg spec started (.error (.generator e))
  | contract {raw : String} {m : ContractMismatch} :
      Produces fs around cfg spec started (.ok raw) → FirstMismatch cfg raw m →
      Outcome fs around cfg spec started (.error (.contract m))
  | edited {raw text : String} : Produces fs around cfg spec started (.ok raw) →
      (∀ r ∈ EditRule.forConfig cfg, r.pattern.count raw.toList = r.expected) →
      EditRule.applyAll (EditRule.forConfig cfg) raw = .ok text →
      Outcome fs around cfg spec started (.ok text)

variable {fs : FileSystem} {around : Surroundings} {cfg : GeneratorConfig} {s : Settings}
  {spec : KeywordSpec}

/-- Nothing that fails after the keyword file is loaded is reported as its fault. -/
theorem Outcome.ne_spec {started : List Invocation} {e : PipelineError}
    (h : Outcome fs around cfg spec started (.error e)) (fault : SpecError) :
    (.error e : Except PipelineError Product) ≠ .error (.spec fault) := by
  intro he
  cases h with
  | generator _ => cases he
  | contract _ _ => cases he

theorem outcome_of_produces {started : List Invocation} {raw : String}
    (h : Produces fs around cfg spec started (.ok raw)) : Outcome fs around cfg spec started
      ((EditRule.applyAll (EditRule.forConfig cfg) raw).mapError .contract) := by
  cases hfind : (EditRule.forConfig cfg).findSome? (EditRule.mismatch? raw) with
  | some m =>
      have happly : EditRule.applyAll (EditRule.forConfig cfg) raw = .error m := by
        rw [EditRule.applyAll, hfind]
      obtain ⟨before, r, after, hrules, hr, hbefore⟩ := List.findSome?_eq_some_iff.mp hfind
      obtain ⟨hne, hm⟩ := (mismatch?_eq_some rfl).mp hr
      rw [happly]
      refine .contract h ⟨before, r, after, hrules, fun r' hr' => ?_, hne, hm⟩
      exact (mismatch?_eq_none rfl).mp (hbefore r' hr')
  | none =>
      have happly : EditRule.applyAll (EditRule.forConfig cfg) raw
          = .ok (String.ofList ((EditRule.forConfig cfg).foldl EditRule.edit raw.toList)) := by
        rw [EditRule.applyAll, hfind]
      rw [happly]
      refine .edited h (fun r hr => ?_) happly
      exact (mismatch?_eq_none rfl).mp (List.findSome?_eq_none_iff.mp hfind r hr)

theorem run_makeHeader (fs : FileSystem) (around : Surroundings) (s : Settings)
    (spec : KeywordSpec) (j : Journal) : ∃ started result,
      Outcome fs around s.generator spec started result ∧
      ((makeHeader fs around s spec).run j).1 = result.map (fun text => ⟨spec, none, text⟩) ∧
      ((makeHeader fs around s spec).run j).2.invocations = j.invocations ++ started := by
  obtain ⟨started, hproduces, hinvocations⟩ :=
    Generator.produces_of_run fs around s.generator spec j
  refine ⟨started, ?_⟩
  rcases hrun : (Generator.run fs around s.generator spec).run j with ⟨r, j'⟩
  rw [hrun] at hproduces hinvocations
  unfold makeHeader
  dsimp only
  rw [run_bind, run_adapt, hrun]
  cases r with
  | error e => exact ⟨_, .generator hproduces, rfl, hinvocations⟩
  | ok raw =>
      have hedits := outcome_of_produces hproduces
      have hlogged := (invocations_logMatches raw (EditRule.forConfig s.generator) j').trans
        hinvocations
      dsimp only [Except.mapError]
      rw [run_modify]
      cases happly : EditRule.applyAll (EditRule.forConfig s.generator) raw with
      | error m =>
          rw [happly] at hedits
          exact ⟨_, hedits, rfl, hlogged⟩
      | ok text =>
          rw [happly] at hedits
          exact ⟨_, hedits, rfl, hlogged⟩

/-- A run that has loaded its keyword file does what the generator makes it do. -/
theorem run_generate (fs : FileSystem) (around : Surroundings)
    (hbackend : s.backend = .external) (j : Journal) :
    (∀ e, ((KeywordSpec.load fs s.specPath).run j).1 = .error e →
      ((generate fs around s).run j).1 = .error (.spec e) ∧
      ((generate fs around s).run j).2.invocations = j.invocations) ∧
    ∀ spec, ((KeywordSpec.load fs s.specPath).run j).1 = .ok spec → ∃ started result,
      Outcome fs around s.generator spec started result ∧
      ((generate fs around s).run j).1 = result.map (fun text => ⟨spec, none, text⟩) ∧
      ((generate fs around s).run j).2.invocations = j.invocations ++ started := by
  rw [KeywordSpec.run_load]
  unfold generate
  cases hread : KeywordSpec.readFile fs s.specPath with
  | error e =>
      refine ⟨fun e' he' => ?_, fun spec hspec => by cases hspec⟩
      obtain rfl := Except.error.inj he'
      exact ⟨rfl, rfl⟩
  | ok bytes =>
      dsimp only
      rw [run_orFail_ok]
      cases hspec : KeywordSpec.ofBytes s.specPath bytes with
      | error e =>
          refine ⟨fun e' he' => ?_, fun spec hspec => by cases hspec⟩
          obtain rfl := Except.error.inj he'
          exact ⟨rfl, rfl⟩
      | ok spec =>
          refine ⟨(fun e he => by cases he), fun spec' hspec' => ?_⟩
          obtain rfl := Except.ok.inj hspec'
          rw [run_orFail_ok, run_modify, hbackend]
          exact run_makeHeader fs around s spec _

/-- If the exchange with what starts does not come to its end, the run never ends. -/
theorem run_endless {d : Disk} {path : String} {l : Launch} (hbackend : s.backend = .external)
    (hload : ((KeywordSpec.load d.files s.specPath).run .empty).1 = .ok spec)
    (hstarts : Generator.Starts d.files around s.generator path l)
    (hstuck : ¬ Generator.Settles s.generator spec l) : (run around s d).1
      = .error (.generator (.exit path .never
        (String.ofList (Utf8.decodeLossy l.program.stderr)))) := by
  obtain ⟨-, hloaded⟩ := run_generate d.files around hbackend Journal.empty
  obtain ⟨started, result, houtcome, hmade, -⟩ := hloaded spec hload
  have hresult : result = .error (.generator (.exit path .never
      (String.ofList (Utf8.decodeLossy l.program.stderr)))) := by
    cases houtcome with
    | generator h => rw [Except.error.inj (h.eq_endless hstarts hstuck)]
    | contract h _ => cases h.eq_endless hstarts hstuck
    | edited h _ _ => cases h.eq_endless hstarts hstuck
  rcases hgenerate : (generate d.files around s).run Journal.empty with ⟨made, j⟩
  rw [hgenerate, hresult] at hmade
  obtain rfl : made = _ := hmade
  rw [run, hgenerate]
  rfl

/-- **A run with an external generator writes only what has passed every check.** A run that never
comes to an end is one that fails with the ending `never`: it writes nothing, and what started is
known, but nobody gets to know of the failure. -/
theorem run_external {d d' : Disk} {r : Except PipelineError Product} {j : Journal}
    (hbackend : s.backend = .external)
    (hfree : ∀ side, d.files.Seat (Disk.sidePath s.outPath) side → d.files.get? side = none)
    (h : run around s d = (r, d', j)) :
    (∀ e, ((KeywordSpec.load d.files s.specPath).run .empty).1 = .error e →
      r = .error (.spec e) ∧ d' = d ∧ j.invocations = []) ∧
    ∀ spec, ((KeywordSpec.load d.files s.specPath).run .empty).1 = .ok spec →
      (∀ e, r ≠ .error (.spec e)) ∧
      ∃ result, Outcome d.files around s.generator spec j.invocations result ∧
        (∀ e, result = .error e → r = .error e ∧ d' = d) ∧
        ∀ text, result = .ok text →
          (r = .ok ⟨spec, none, text⟩ ∧ ∃ target, d.files.Seat s.outPath target ∧
            d'.files.get? target = some (.file text.utf8 false) ∧
            (d.files.SeatOff [target] s.outPath target →
              d'.files.read s.outPath = .ok text.utf8)) ∨
          ∃ e, r = .error (.write s.outPath e) := by
  obtain ⟨hfail, hload⟩ := run_generate d.files around hbackend Journal.empty
  rcases hgenerate : (generate d.files around s).run Journal.empty with ⟨made, j₁⟩
  rw [hgenerate] at hfail hload
  rw [run, hgenerate] at h
  refine ⟨fun e he => ?_, fun spec hspec => ?_⟩
  · obtain ⟨rfl, hnone⟩ := hfail e he
    obtain ⟨rfl, rfl, rfl⟩ := h
    exact ⟨rfl, rfl, hnone⟩
  · obtain ⟨started, result, houtcome, rfl, hstarted⟩ := hload spec hspec
    have hstarted : j₁.invocations = started := hstarted
    cases result with
    | error e =>
        obtain ⟨rfl, rfl, rfl⟩ := h
        refine ⟨houtcome.ne_spec, .error e, hstarted ▸ houtcome, ?_, fun text h => by cases h⟩
        intro e' he'
        obtain rfl := Except.error.inj he'
        exact ⟨rfl, rfl⟩
    | ok text =>
        dsimp only [Except.map] at h
        rcases hpublish : (Disk.publish s.outPath text).run d with ⟨saved, d₂⟩
        rw [save, hpublish] at h
        have houtcome : Outcome d.files around s.generator spec j₁.invocations (.ok text) :=
          hstarted ▸ houtcome
        cases saved with
        | error e =>
            obtain ⟨rfl, rfl, rfl⟩ := h
            exact ⟨fun e' he' => (by cases he'), .ok text, houtcome, fun e' he' => (by cases he'),
              fun _ _ => .inr ⟨e, rfl⟩⟩
        | ok _ =>
            obtain ⟨rfl, rfl, rfl⟩ := h
            refine ⟨fun e' he' => (by cases he'), .ok text, houtcome,
              fun e' he' => (by cases he'), ?_⟩
            intro text' htext
            obtain rfl := Except.ok.inj htext
            exact .inl ⟨rfl, Disk.exists_new_artifact hpublish hfree⟩

/-- A lookup as the rules expect it. -/
def shapedText : String :=
  "struct keyword_hash_entry *find(); struct keyword_hash_entry\n*find() "
    ++ "\x7b return &wordlist[key]; return 0; \x7d"

/-- What the rules make of it. -/
def editedText : String :=
  "inline token::type find(); inline token::type find() "
    ++ "\x7b return wordlist[key].kind; return token::type::Ident; \x7d"

/-- A generator that reads its input and writes a lookup. -/
def shaped : Program where
  stdout := shapedText.utf8
  stderr := "unused flag\n".utf8
  ending := .exit 0
  readsInput := true

/-- The settings of a run with this generator. -/
def settingsFor (program : String) : Settings :=
  { Settings.standard with
    specPath := "words"
    outPath := "out.hpp"
    backend := .external
    generator := { GeneratorConfig.standard with program := some program, extraFlags := ["-G"] } }

def shapedDisk : Disk :=
  .ofFiles ⟨[], [(["words"], .file "if,If\n".utf8 false), (["gen"], .program shaped true)]⟩

/-- One keyword. -/
def onlyIf : KeywordSpec :=
  ⟨[⟨"if", .ifWord, 1⟩]⟩

theorem run_external_shaped :
    let s := settingsFor "./gen"
    let after := run ⟨[], []⟩ s shapedDisk
    after.1 = .ok ⟨onlyIf, none, editedText⟩ ∧
      after.2.1.files.read "out.hpp" = .ok editedText.utf8 ∧
      after.2.2.invocations
        = [⟨[], ["--multiple-iterations=100", "-G"], some (s.generator.inputText onlyIf)⟩] ∧
      Outcome shapedDisk.files ⟨[], []⟩ s.generator onlyIf after.2.2.invocations
        (.ok editedText) := by
  intro s after
  have hload : ((KeywordSpec.load shapedDisk.files s.specPath).run .empty).1 = .ok onlyIf := by
    decide +kernel
  have hok : after.1 = .ok ⟨onlyIf, none, editedText⟩ := by decide +kernel
  have hstarted : after.2.2.invocations
      = [⟨[], ["--multiple-iterations=100", "-G"], some (s.generator.inputText onlyIf)⟩] := by
    decide +kernel
  have hseat : ∀ avoid, [] ∉ avoid → shapedDisk.files.SeatOff avoid "out.hpp" ["out.hpp"] :=
    fun avoid h => FileSystem.seatOff_of_name (by decide +kernel)
      (by decide) (by decide) h rfl
  have hside : shapedDisk.files.Seat (Disk.sidePath "out.hpp") ["out.hpp.tmp"] :=
    FileSystem.seatOff_of_name (by decide +kernel) (by decide) (by decide +kernel)
      List.not_mem_nil rfl
  have hfree : ∀ side, shapedDisk.files.Seat (Disk.sidePath s.outPath) side →
      shapedDisk.files.get? side = none := by
    intro side h
    rw [h.unique hside]
    decide +kernel
  rcases hrun : run ⟨[], []⟩ s shapedDisk with ⟨r, d', j⟩
  obtain ⟨-, hloaded⟩ := run_external rfl hfree hrun
  obtain ⟨-, result, houtcome, hfailed, hwritten⟩ := hloaded _ hload
  have hafter : after = (r, d', j) := hrun
  rw [hafter] at hok hstarted ⊢
  obtain rfl : r = .ok ⟨onlyIf, none, editedText⟩ := hok
  cases result with
  | error e => cases (hfailed e rfl).1
  | ok text =>
      rcases hwritten text rfl with ⟨hsame, target, htarget, -, hread⟩ | ⟨e, hfail⟩
      · obtain rfl := (Product.mk.inj (Except.ok.inj hsame)).2.2
        obtain rfl := htarget.unique (hseat [] List.not_mem_nil)
        exact ⟨rfl, hread (hseat _ (by simp)), hstarted, houtcome⟩
      · cases hfail

/-- A generator whose output begins with a comment of its own. -/
def commented : Program :=
  { shaped with stdout := "// own\n".utf8 ++ shapedText.utf8 }

/-- A generator that writes more than a pipe holds, and reads nothing. -/
def heedless : Program :=
  ⟨List.replicate 65537 0, [], .exit 0, false⟩

def heedlessDisk : Disk :=
  .ofFiles ⟨[], [(["words"], .file "if,If\n".utf8 false), (["gen"], .program heedless true)]⟩

/-- The settings of a run with this generator, whose input is longer than a pipe. -/
def wordy : Settings :=
  let s := settingsFor "./gen"
  { s with generator := { s.generator with kindType := String.ofList (List.replicate 65537 'k') } }

theorem heedless_stuck (spec : KeywordSpec) :
    ¬ Generator.Settles wordy.generator spec ⟨heedless, []⟩ := by
  have hkind : wordy.generator.kindType.utf8.length = 65537 := by
    show (String.ofList (List.replicate 65537 'k')).utf8.length = 65537
    rw [String.utf8, String.toList_ofList, Utf8.length_encode, Utf8.size_of_ascii,
      List.length_replicate]
    intro c hc
    rw [List.eq_of_mem_replicate hc]
    decide
  have hinput : Generator.pipeSize < (wordy.generator.inputText spec).utf8.length := by
    have := Generator.length_kindType_le wordy.generator spec
    rw [hkind] at this
    exact this
  have houtput : Generator.pipeSize < heedless.stdout.length := by
    show _ < (List.replicate 65537 0).length
    rw [List.length_replicate]
    decide
  have hjams := Generator.Exchange.jams_iff.mpr ⟨rfl, hinput, .stdout, houtput⟩
  intro h
  cases hjams.symm.trans (Generator.Exchange.settles_iff.mp h)

theorem run_heedless : (run ⟨[], []⟩ wordy heedlessDisk).1
    = .error (.generator (.exit "./gen" .never "")) := by
  have hload : ((KeywordSpec.load heedlessDisk.files wordy.specPath).run .empty).1
      = .ok onlyIf := by
    decide +kernel
  have hfind : Generator.find heedlessDisk.files ⟨[], []⟩ wordy.generator = .ok "./gen" := by
    decide +kernel
  have hlaunch : Launch.ofCommand heedlessDisk.files ⟨[], []⟩ "./gen" wordy.generator.arguments
      = .ok ⟨heedless, []⟩ := rfl
  exact run_endless rfl hload
    ⟨Generator.find_eq_ok_iff.mp hfind, Launch.ofCommand_eq_ok_iff.mp hlaunch⟩
    (heedless_stuck onlyIf)

/-- A bare name is found as a file of the working directory, and what then starts is another file
of this name, or none. And a generator that reads nothing may keep the run waiting for ever. -/
theorem run_external_amiss :
    (let files : FileSystem := ⟨[], [(["words"], .file "if,If\n".utf8 false),
        (["gen"], .program shaped true), (["path"], .directory),
        (["path", "gen"], .program commented true)]⟩
      let s := settingsFor "gen"
      Generator.find files ⟨[], ["path"]⟩ s.generator = .ok "gen" ∧
        files.entryAt .content "gen" = .ok (["gen"], .program shaped true) ∧
        EditRule.applyAll (EditRule.forConfig s.generator) shapedText = .ok editedText ∧
        (run ⟨[], ["path"]⟩ s (.ofFiles files)).1
          = .ok ⟨onlyIf, none, "// own\n" ++ editedText⟩ ∧
        Generator.find files ⟨[], []⟩ s.generator = .ok "gen" ∧
        (run ⟨[], []⟩ s (.ofFiles files)).1 = .error (.generator (.spawn "gen" .notFound))) ∧
    (run ⟨[], []⟩ wordy heedlessDisk).1 = .error (.generator (.exit "./gen" .never "")) :=
  ⟨by decide +kernel, run_heedless⟩

end Pipeline

end Reserved
