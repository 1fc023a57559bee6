import Reserved.CommandLine
import Reserved.Proofs.Files.Linkless
import Reserved.Proofs.Pipeline.Builtin
import Reserved.Proofs.Pipeline.External
import Reserved.Proofs.Spec.Size
import Reserved.Proofs.Table.Json

/-!
# What a successful command leaves behind

A command that succeeds has written the artifact that was made from the keyword file as it was
before, and then, if it was asked to, the table of this artifact as JSON. Neither of the two can
be damaged by what comes after it, but for one case: the path of the artifact may be the path of
the JSON already. Then the JSON takes the place of the artifact, and the command still succeeds.
-/

namespace Reserved

/-- An artifact begins with a comment. -/
theorem Artifact.head?_toList_render (t : HashTable) (header : Artifact.Header) :
    (Artifact.render t header).toList.head? = some '/' := by
  unfold Artifact.render Artifact.renderHeader
  simp only [toString, String.append_assoc, String.toList_append, List.head?_append]
  rfl

/-- It is no JSON. -/
theorem Artifact.render_ne_json (t t' : HashTable) (header : Artifact.Header) :
    Artifact.render t header ≠ TableJson.render t' := by
  intro hsame
  have hhead := Artifact.head?_toList_render t header
  rw [hsame, TableJson.head?_toList_render] at hhead
  exact absurd hhead (by decide)

theorem Artifact.render_ne_empty (t : HashTable) (header : Artifact.Header) :
    Artifact.render t header ≠ "" := by
  intro hempty
  have hhead := Artifact.head?_toList_render t header
  rw [hempty] at hhead
  cases hhead

namespace Pipeline

variable {fs : FileSystem} {around : Surroundings} {s : Settings} {product : Product} {j : Journal}

/-- What the built-in backend makes: the table of the keyword file, and its artifact. -/
theorem builtin_of_generate (hbackend : s.backend = .builtin)
    (h : ((generate fs around s).run j).1 = .ok product) :
    ∃ bytes t, fs.read s.specPath = .ok bytes ∧
      KeywordSpec.ofBytes s.specPath bytes = .ok product.spec ∧
      HashTable.build s.seed product.spec = .ok t ∧
      product = ⟨product.spec, some t, Artifact.render t ⟨s.specPath, digest bytes⟩⟩ := by
  have hfile : KeywordSpec.readFile fs s.specPath
      = (fs.read s.specPath).mapError fun e => .read s.specPath (.file e) := rfl
  cases hread : fs.read s.specPath with
  | error e =>
      unfold generate at h
      rw [hfile, hread] at h
      cases h
  | ok bytes =>
      cases hspec : KeywordSpec.ofBytes s.specPath bytes with
      | error e =>
          unfold generate at h
          rw [hfile, hread, Except.mapError, run_orFail_ok, hspec] at h
          cases h
      | ok spec =>
          rw [generate_builtin hbackend hread hspec around j] at h
          cases hbuild : HashTable.build s.seed spec with
          | error e =>
              rw [hbuild] at h
              cases h
          | ok t =>
              rw [hbuild] at h
              obtain rfl := Except.ok.inj h
              exact ⟨bytes, t, rfl, hspec, hbuild, rfl⟩

/-- What an external generator makes: some edited text, and no table. -/
theorem external_of_generate (hbackend : s.backend = .external)
    (h : ((generate fs around s).run j).1 = .ok product) :
    ∃ started text, Outcome fs around s.generator product.spec started (.ok text) ∧
      product = ⟨product.spec, none, text⟩ := by
  obtain ⟨hfail, hload⟩ := run_generate fs around hbackend j
  cases hspec : ((KeywordSpec.load fs s.specPath).run j).1 with
  | error e =>
      rw [(hfail e hspec).1] at h
      cases h
  | ok spec =>
      obtain ⟨started, result, houtcome, hresult, -⟩ := hload spec hspec
      rw [hresult] at h
      cases result with
      | error e => cases h
      | ok text =>
          obtain rfl := Except.ok.inj h
          exact ⟨started, text, houtcome, rfl⟩

/-- What is made is never empty. -/
theorem text_ne_empty (h : ((generate fs around s).run j).1 = .ok product) :
    product.text ≠ "" := by
  cases hbackend : s.backend with
  | builtin =>
      obtain ⟨bytes, t, -, -, -, hproduct⟩ := builtin_of_generate hbackend h
      rw [hproduct]
      exact Artifact.render_ne_empty _ _
  | external =>
      obtain ⟨started, text, houtcome, hproduct⟩ := external_of_generate hbackend h
      rw [hproduct]
      cases houtcome with
      | edited _ _ happly => exact applyAll_ne_empty happly

/-- A run that succeeds has made the artifact and written it. -/
theorem publish_of_run {d d' : Disk} (h : run around s d = (.ok product, d', j)) :
    ((generate d.files around s).run .empty).1 = .ok product ∧
      (Disk.publish s.outPath product.text).run d = (.ok (), d') := by
  rw [run] at h
  rcases hgenerate : (generate d.files around s).run .empty with ⟨made, j₁⟩
  rw [hgenerate] at h
  cases made with
  | error e => cases (Prod.mk.inj h).1
  | ok made =>
      dsimp only at h
      rcases hpublish : (Disk.publish s.outPath made.text).run d with ⟨saved, d₁⟩
      rw [save, hpublish] at h
      cases saved with
      | error e => cases (Prod.mk.inj h).1
      | ok _ =>
          obtain ⟨hmade, hrest⟩ := Prod.mk.inj h
          obtain ⟨rfl, -⟩ := Prod.mk.inj hrest
          obtain rfl := Except.ok.inj hmade
          exact ⟨rfl, hpublish⟩

end Pipeline

namespace CommandLine

open FileSystem

variable {around : Surroundings} {s : Settings} {product : Product} {t : HashTable}
  {d d' : Disk} {r r' : Report} {j : Journal}

/-- The environment asks for the table as JSON. -/
def Dumps (around : Surroundings) : Prop :=
  around.env.isSet "KEYHASH_DUMP_JSON" = true

/-- Where the table goes as JSON. -/
def jsonPath (s : Settings) : String :=
  Path.withExtension s.outPath "json"

theorem not_mem_json : '/' ∉ "json".toList := by
  decide

/-- Dumping the table succeeds by saving it, or because nobody asked for it. -/
theorem dump_of_status (h : dump around s t d r = (r', d')) (hstatus : r'.status = 0) :
    Dumps around ∧ (Disk.saveTable (jsonPath s) t).run d = (.ok (), d') ∨
      ¬ Dumps around ∧ d' = d := by
  rw [dump] at h
  split at h
  · next hset =>
    dsimp only at h
    rcases hsave : (Disk.saveTable (Path.withExtension s.outPath "json") t).run d with ⟨saved, d₁⟩
    rw [hsave] at h
    cases saved with
    | error e =>
        obtain ⟨rfl, -⟩ := Prod.mk.inj h
        cases hstatus
    | ok _ =>
        obtain ⟨-, rfl⟩ := Prod.mk.inj h
        exact .inl ⟨hset, hsave⟩
  · next hset =>
    obtain ⟨-, rfl⟩ := Prod.mk.inj h
    exact .inr ⟨hset, rfl⟩

/-- Reporting changes a file only by dumping the table of the product. -/
theorem report_of_status (h : report around s product d r = (r', d')) (hstatus : r'.status = 0) :
    (∃ t, product.table = some t ∧ Dumps around ∧
        (Disk.saveTable (jsonPath s) t).run d = (.ok (), d')) ∨
      (product.table.isSome → ¬ Dumps around) ∧ d' = d := by
  rw [report] at h
  dsimp only at h
  cases htable : product.table with
  | none =>
      rw [htable] at h
      obtain ⟨-, rfl⟩ := Prod.mk.inj h
      exact .inr ⟨fun hsome => absurd hsome (by simp), rfl⟩
  | some t =>
      rw [htable] at h
      dsimp only at h
      generalize hdump : dump around s t d _ = dumped at h
      obtain ⟨r₁, d₁⟩ := dumped
      dsimp only at h
      split at h
      · next hok =>
        obtain ⟨-, rfl⟩ := Prod.mk.inj h
        rcases dump_of_status hdump hok with ⟨hdumps, hsave⟩ | ⟨hnot, rfl⟩
        · exact .inl ⟨t, rfl, hdumps, hsave⟩
        · exact .inr ⟨fun _ => hnot, rfl⟩
      · next hfailed =>
        obtain ⟨rfl, -⟩ := Prod.mk.inj h
        exact absurd hstatus hfailed

/-- A command that succeeds has written the artifact that it made, and then reported on it. -/
theorem run_of_status {arguments : List String} (h : run around arguments d = (r, d', j))
    (hstatus : r.status = 0) :
    ∃ s₀ s product r₁ d₁, Settings.ofEnvironment around.env = .ok s₀ ∧
      s = withArguments s₀ arguments ∧
      ((Pipeline.generate d.files around s).run .empty).1 = .ok product ∧
      (Disk.publish s.outPath product.text).run d = (.ok (), d₁) ∧
      report around s product d₁ r₁ = (r, d') := by
  rw [run] at h
  dsimp only at h
  cases hsettings : Settings.ofEnvironment around.env with
  | error e =>
      rw [hsettings] at h
      obtain ⟨rfl, -⟩ := Prod.mk.inj h
      cases hstatus
  | ok s₀ =>
      rw [hsettings] at h
      dsimp only at h
      split at h
      · obtain ⟨rfl, -⟩ := Prod.mk.inj h
        cases hstatus
      · next product d₁ j₁ hrun =>
        obtain ⟨hmade, hpublish⟩ := Pipeline.publish_of_run hrun
        obtain ⟨hreport, hrest⟩ := Prod.mk.inj h
        obtain ⟨hfiles, -⟩ := Prod.mk.inj hrest
        exact ⟨s₀, _, product, _, d₁, rfl, rfl, hmade, hpublish, Prod.ext hreport hfiles⟩

section

variable {header : Artifact.Header} {d₁ : Disk} {r₁ : Report} (hlinkless : d.files.Linkless)
  (hnonempty : product.text ≠ "")
  (hpublish : (Disk.publish s.outPath product.text).run d = (.ok (), d₁))
  (hreport : report around s product d₁ r₁ = (r, d')) (hstatus : r.status = 0)
  (htable : product.table = some t) (hdumps : Dumps around)
include hlinkless hnonempty hpublish hreport hstatus htable hdumps

/-- What is at the two paths after a table has been dumped. -/
theorem read_of_dumps :
    d'.files.read (jsonPath s) = .ok (TableJson.render t).utf8 ∧
      (jsonPath s ≠ s.outPath → d'.files.read s.outPath = .ok product.text.utf8) := by
  rcases report_of_status hreport hstatus with ⟨t', htable', -, hsave⟩ | ⟨hnot, -⟩
  · obtain rfl := Option.some.inj (htable.symm.trans htable')
    exact Disk.read_of_publish_writeFile hlinkless hnonempty
      (utf8_ne_nil (TableJson.render_ne_empty t)) not_mem_json hpublish hsave
  · exact absurd hdumps (hnot (by rw [htable]; rfl))

/-- Where there is one path for both, the artifact is lost. -/
theorem lost_of_dumps (htext : product.text = Artifact.render t header)
    (hsame : jsonPath s = s.outPath) : d'.files.read s.outPath ≠ .ok product.text.utf8 := by
  intro hartifact
  obtain ⟨hjson, -⟩ := read_of_dumps hlinkless hnonempty hpublish hreport hstatus htable hdumps
  rw [hsame, hartifact] at hjson
  exact Artifact.render_ne_json t t header (htext.symm.trans (utf8_inj (Except.ok.inj hjson)))

end

/-- **What a command has left behind when it succeeds.** It has made an artifact from the files as
they were before. With the built-in backend this is the artifact of a table, and if the
environment asks for it, the file at the path with the extension `json` is read back as this very
table. The file at the path of the artifact holds its text, unless this is the path of the JSON
as well: then the text is lost. -/
theorem run_leaves_outputs {arguments : List String} (hlinkless : d.files.Linkless)
    (hcounted : d.files.Counted) (h : run around arguments d = (r, d', j))
    (hstatus : r.status = 0) :
    ∃ s₀ s product, Settings.ofEnvironment around.env = .ok s₀ ∧
      s = withArguments s₀ arguments ∧
      ((Pipeline.generate d.files around s).run .empty).1 = .ok product ∧
      (s.backend = .builtin → ∃ t, product.table = some t ∧
        (∃ header, product.text = Artifact.render t header) ∧
        (Dumps around → ∃ bytes, d'.files.read (jsonPath s) = .ok bytes ∧
          TableJson.parse bytes = .ok t)) ∧
      (d'.files.read s.outPath = .ok product.text.utf8 ↔
        ¬ (s.backend = .builtin ∧ Dumps around ∧ jsonPath s = s.outPath)) := by
  obtain ⟨s₀, s, product, r₁, d₁, hsettings, hs, hmade, hpublish, hreport⟩ :=
    run_of_status h hstatus
  refine ⟨s₀, s, product, hsettings, hs, hmade, ?_⟩
  have hnonempty := Pipeline.text_ne_empty hmade
  obtain ⟨-, seat, hholds⟩ := Disk.holds_of_publish hlinkless hnonempty hpublish
  cases hbackend : s.backend with
  | builtin =>
      obtain ⟨bytes, t, hread, hspec, hbuild, hproduct⟩ :=
        Pipeline.builtin_of_generate hbackend hmade
      have htable : product.table = some t := congrArg Product.table hproduct
      have htext : product.text = _ := congrArg Product.text hproduct
      have hparse : TableJson.parse (TableJson.render t).utf8 = .ok t := by
        have hcount := hcounted.length_lt hread
        obtain ⟨hmin, hmax⟩ := HashTable.lengths_le_of_build hspec hbuild
        exact TableJson.parse_utf8_render (hmin.trans_lt hcount) (hmax.trans_lt hcount)
      have hdumped := read_of_dumps hlinkless hnonempty hpublish hreport hstatus htable
      refine ⟨fun _ => ⟨t, htable, ⟨_, htext⟩, fun hdumps => ⟨_, (hdumped hdumps).1, hparse⟩⟩, ?_⟩
      constructor
      · rintro hartifact ⟨-, hdumps, hsame⟩
        exact lost_of_dumps hlinkless hnonempty hpublish hreport hstatus htable hdumps htext hsame hartifact
      · intro hother
        rcases report_of_status hreport hstatus with ⟨-, -, hdumps, -⟩ | ⟨-, rfl⟩
        · exact (hdumped hdumps).2 fun hsame => hother ⟨rfl, hdumps, hsame⟩
        · exact hholds.read
  | external =>
      refine ⟨fun hbuiltin => absurd hbuiltin (by simp), fun _ h => absurd h.1 (by simp),
        fun _ => ?_⟩
      rcases report_of_status hreport hstatus with ⟨t, htable, -⟩ | ⟨-, rfl⟩
      · obtain ⟨_, _, -, hproduct⟩ := Pipeline.external_of_generate hbackend hmade
        rw [hproduct] at htable
        cases htable
      · exact hholds.read

/-- One keyword. -/
def oneKeyword : FileSystem :=
  ⟨[], [(["words"], .file "if,If".utf8 false)]⟩

/-- An environment that asks for the table as JSON. -/
def asking : Surroundings :=
  ⟨[("KEYHASH_DUMP_JSON", "1".utf8)], []⟩

theorem get?_oneKeyword {l : Location} {e : Entry} (h : oneKeyword.get? l = some e) :
    e = .directory ∨ e = .file "if,If".utf8 false := by
  by_cases hroot : l = []
  · subst hroot
    exact .inl (Option.some.inj h).symm
  by_cases hwords : l = ["words"]
  · subst hwords
    exact .inr (Option.some.inj h).symm
  · rw [FileSystem.get?, if_neg hroot, oneKeyword,
      FileSystem.lookup_cons_of_ne _ _ hwords] at h
    cases h

theorem linkless_oneKeyword : oneKeyword.Linkless := by
  intro l target hlink
  rcases get?_oneKeyword hlink with h | h
  · cases h
  · cases h

theorem counted_oneKeyword : oneKeyword.Counted where
  file l content executable hfile := by
    rcases get?_oneKeyword hfile with h | h
    · cases h
    · rw [(Entry.file.inj h).1]
      decide
  program l p executable content hprogram := by
    rcases get?_oneKeyword hprogram with h | h
    · cases h
    · cases h

theorem ofEnvironment_asking : Settings.ofEnvironment asking.env = .ok Settings.standard := by
  decide +kernel

theorem dumps_asking : Dumps asking := by
  show asking.env.isSet "KEYHASH_DUMP_JSON" = true
  decide

/-- With the extension `rs` both files are there. -/
theorem run_leaves_outputs_one_keyword :
    let after := run asking ["words", "out.rs"] (.ofFiles oneKeyword)
    after.1.status = 0 ∧ ∃ (product : Product) (t : HashTable) (bytes : List UInt8),
      product.table = some t ∧ (∃ header, product.text = Artifact.render t header) ∧
      after.2.1.files.read "out.rs" = .ok product.text.utf8 ∧
      after.2.1.files.read "out.json" = .ok bytes ∧ TableJson.parse bytes = .ok t := by
  intro after
  have hok : after.1.status = 0 := by decide +kernel
  rcases hrun : run asking ["words", "out.rs"] (.ofFiles oneKeyword) with ⟨r, d', j⟩
  have hafter : after = (r, d', j) := hrun
  rw [hafter] at hok ⊢
  obtain ⟨s₀, s, product, hs₀, rfl, -, htable, hartifact⟩ :=
    run_leaves_outputs linkless_oneKeyword counted_oneKeyword hrun hok
  obtain rfl := Except.ok.inj (ofEnvironment_asking.symm.trans hs₀)
  obtain ⟨t, ht, htext, hjson⟩ := htable rfl
  obtain ⟨bytes, hread, hparse⟩ := hjson dumps_asking
  have hpaths : jsonPath (withArguments Settings.standard ["words", "out.rs"]) = "out.json" := by
    decide +kernel
  have hother : jsonPath (withArguments Settings.standard ["words", "out.rs"]) ≠ "out.rs" := by
    decide +kernel
  rw [hpaths] at hread
  exact ⟨hok, product, t, bytes, ht, htext, hartifact.mpr fun h => hother h.2.2, hread, hparse⟩

/-- With the extension `json` the table takes the place of the artifact. -/
theorem run_loses_artifact :
    let after := run asking ["words", "out.json"] (.ofFiles oneKeyword)
    let s := withArguments Settings.standard ["words", "out.json"]
    Settings.ofEnvironment asking.env = .ok Settings.standard ∧ after.1.status = 0 ∧
      ∃ product, ((Pipeline.generate oneKeyword asking s).run .empty).1 = .ok product ∧
        after.2.1.files.read "out.json" ≠ .ok product.text.utf8 := by
  intro after s
  have hok : after.1.status = 0 := by decide +kernel
  refine ⟨ofEnvironment_asking, hok, ?_⟩
  rcases hrun : run asking ["words", "out.json"] (.ofFiles oneKeyword) with ⟨r, d', j⟩
  have hafter : after = (r, d', j) := hrun
  rw [hafter] at hok ⊢
  obtain ⟨s₀, s', product, r₁, d₁, hs₀, rfl, hmade, hpublish, hreport⟩ := run_of_status hrun hok
  obtain rfl := Except.ok.inj (ofEnvironment_asking.symm.trans hs₀)
  obtain ⟨bytes, t, -, -, -, hproduct⟩ := Pipeline.builtin_of_generate rfl hmade
  have hsame : jsonPath (withArguments Settings.standard ["words", "out.json"]) = "out.json" := by
    decide +kernel
  exact ⟨product, hmade, lost_of_dumps linkless_oneKeyword (Pipeline.text_ne_empty hmade) hpublish hreport hok
    (congrArg Product.table hproduct) dumps_asking (congrArg Product.text hproduct) hsame⟩

end CommandLine

end Reserved
