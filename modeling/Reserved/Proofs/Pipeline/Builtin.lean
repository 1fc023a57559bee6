import Reserved.Proofs.Artifact.RoundTrip
import Reserved.Proofs.Pipeline.Work
import Reserved.Proofs.Spec.Keywords
import Reserved.Proofs.Table.Build

/-!
# What an artifact depends on

The table of a keyword file depends on the keywords that the file defines and on the seed.
Everything that builds it looks at the keywords and their kinds alone: the search at their
bytes, the slots at both. The line numbers, which two files may well differ in, are never
looked at.

The artifact says a little more. It names the file, and one line of it records the digest of
the bytes. So for the same keywords under the same name, this line is the only difference.
-/

namespace Reserved

namespace HashTable

section

variable {spec spec' : KeywordSpec}

theorem words_congr (h : spec.pairs = spec'.pairs) : spec.words = spec'.words := by
  have hwords : ∀ s : KeywordSpec, s.words = s.pairs.map fun p => p.1.utf8 := by
    intro s
    rw [KeywordSpec.pairs, List.map_map]
    rfl
  rw [hwords spec, hwords spec', h]

theorem lengths_congr (h : spec.pairs = spec'.pairs) : spec.lengths = spec'.lengths := by
  have hlengths : ∀ s : KeywordSpec, s.lengths = s.words.map List.length := by
    intro s
    rw [KeywordSpec.words, List.map_map]
    rfl
  rw [hlengths spec, hlengths spec', words_congr h]

/-- The slot with an entry has its keyword and its kind, and not its line. -/
theorem slotOfNumber_congr (h : spec.pairs = spec'.pairs) (i : Nat) :
    slotOfNumber spec.entries i = slotOfNumber spec'.entries i := by
  have hslot : ∀ s : KeywordSpec,
      slotOfNumber s.entries i = (s.pairs[i]?).map fun p => ⟨p.1, p.2⟩ := by
    intro s
    rw [KeywordSpec.pairs, List.getElem?_map, Option.map_map]
    rfl
  rw [hslot spec, hslot spec', h]

theorem ofPlacement_congr (h : spec.pairs = spec'.pairs) (p : Placement) :
    ofPlacement spec p = ofPlacement spec' p := by
  have hslots : (ofPlacement spec p).slots = (ofPlacement spec' p).slots := by
    rw [slots_ofPlacement, slots_ofPlacement, funext (slotOfNumber_congr h)]
  have hmin : spec.minLen = spec'.minLen := by
    rw [KeywordSpec.minLen, KeywordSpec.minLen, lengths_congr h]
  have hmax : spec.maxLen = spec'.maxLen := by
    rw [KeywordSpec.maxLen, KeywordSpec.maxLen, lengths_congr h]
  unfold ofPlacement at hslots ⊢
  rw [HashTable.mk.injEq]
  exact ⟨rfl, hmin, hmax, rfl, hslots⟩

theorem verifyEntries_congr (t : HashTable) : ∀ {entries entries' : List KeywordEntry},
    (entries.map fun e => (e.text, e.kind)) = (entries'.map fun e => (e.text, e.kind)) →
    t.verifyEntries entries = t.verifyEntries entries'
  | [], [], _ => rfl
  | [], e' :: rest', h => absurd h (by simp)
  | e :: rest, [], h => absurd h (by simp)
  | e :: rest, e' :: rest', h => by
      rw [List.map_cons, List.map_cons] at h
      obtain ⟨hhead, htail⟩ := List.cons.inj h
      obtain ⟨htext, hkind⟩ := Prod.mk.inj hhead
      rw [verifyEntries, verifyEntries, htext, hkind, verifyEntries_congr t htail]

/-- **A table depends on the keywords, their kinds and the salt.** -/
theorem build_congr (h : spec.pairs = spec'.pairs) (salt : UInt64) :
    build salt spec = build salt spec' := by
  have hwords : (spec.entries.map fun e => e.text.utf8)
      = spec'.entries.map fun e => e.text.utf8 := words_congr h
  unfold build
  rw [hwords]
  cases Placement.find? (spec'.entries.map fun e => e.text.utf8) salt with
  | none => rfl
  | some p =>
      dsimp only
      rw [ofPlacement_congr h, verify, verify, verifyEntries_congr _ h]

end

end HashTable

namespace Artifact

/-- Two texts agree but for one line, and this line begins with the digest mark in both. -/
def SameButDigest (a b : String) : Prop :=
  ∃ before line line' after, before.getLast? = some '\n' ∧
    (digestMark.toList <+: line ∧ '\n' ∉ line) ∧ (digestMark.toList <+: line' ∧ '\n' ∉ line') ∧
    a.toList = before ++ line ++ '\n' :: after ∧ b.toList = before ++ line' ++ '\n' :: after

/-- Artifacts of one table differ in the digest only. -/
theorem sameButDigest_render (t : HashTable) (path : String) (d d' : UInt64) :
    SameButDigest (render t ⟨path, d⟩) (render t ⟨path, d'⟩) := by
  have hline : ∀ d : UInt64, digestMark.toList <+: digestMark.toList ++ (hexWord d).toList ∧
      '\n' ∉ digestMark.toList ++ (hexWord d).toList := by
    intro d
    refine ⟨List.prefix_append _ _, fun hmem => ?_⟩
    rcases List.mem_append.mp hmem with hmem | hmem
    · exact absurd hmem (by decide)
    · exact not_mem_of_isWordPart (fun _ => Source.isWordPart_of_mem_hexWord) (by decide) hmem
  refine ⟨s!"// @generated by gen_keyhash from {path}. Do not edit by hand.\n".toList, _, _,
    (s!"// keywords: {t.slots.length}, buckets: {t.displacements.length}\n\n"
      ++ renderTable t).toList, ?_, hline d, hline d', ?_, ?_⟩
  · have hend : ". Do not edit by hand.\n".toList = ". Do not edit by hand.".toList ++ ['\n'] := by
      decide
    simp only [toString, String.toList_append, hend, ← List.append_assoc]
    exact List.getLast?_concat
  all_goals
    have hend : "\n".toList = ['\n'] := by decide
    unfold render renderHeader
    simp only [toString, String.toList_append, hend, List.append_assoc, List.cons_append,
      List.nil_append]

end Artifact

namespace Pipeline

/-- What the built-in backend makes of the bytes it reads, as far as it gets. -/
theorem generate_builtin {fs : FileSystem} {s : Settings} {bytes : List UInt8}
    {spec : KeywordSpec} (hbackend : s.backend = .builtin)
    (hread : fs.read s.specPath = .ok bytes)
    (hspec : KeywordSpec.ofBytes s.specPath bytes = .ok spec) (around : Surroundings)
    (j : Journal) :
    ((generate fs around s).run j).1 =
      match HashTable.build s.seed spec with
      | .ok t => .ok ⟨spec, some t, Artifact.render t ⟨s.specPath, digest bytes⟩⟩
      | .error e => .error (.build e) := by
  have hfile : KeywordSpec.readFile fs s.specPath = .ok bytes := by
    rw [KeywordSpec.readFile, hread]
    rfl
  unfold generate makeTable
  rw [hfile, run_orFail_ok, hspec, run_orFail_ok, run_modify, hbackend]
  cases HashTable.build s.seed spec with
  | ok t => rfl
  | error e => rfl

/-- Under the settings `s` the built-in backend, salted with `salt`, reads the text `src` from
the file at `path`. -/
structure BuiltinReads (fs : FileSystem) (s : Settings) (path : String) (salt : UInt64)
    (src : List Char) : Prop where
  backend : s.backend = .builtin
  seed : s.seed = salt
  specPath : s.specPath = path
  content : fs.read path = .ok (Utf8.encode src)

theorem BuiltinReads.generate {fs : FileSystem} {s : Settings} {path : String} {salt : UInt64}
    {src : List Char} (h : BuiltinReads fs s path salt src) {spec : KeywordSpec}
    (hspec : KeywordSpec.parse src = .ok spec) {t : HashTable}
    (hbuild : HashTable.build salt spec = .ok t) (around : Surroundings) (j : Journal) :
    ((Pipeline.generate fs around s).run j).1
      = .ok ⟨spec, some t, Artifact.render t ⟨path, digest (Utf8.encode src)⟩⟩ := by
  obtain ⟨hbackend, rfl, rfl, hread⟩ := h
  have hbytes : KeywordSpec.ofBytes s.specPath (Utf8.encode src) = .ok spec := by
    rw [KeywordSpec.ofBytes, Utf8.decode_encode]
    exact hspec
  rw [generate_builtin hbackend hread hbytes around j, hbuild]

/-- **What the built-in backend makes of a file depends on the keywords it defines, and on the
salt.** If two files define the same keywords, the search stops for both or for none, and at
the same key. Building gives the same table, or fails alike. And where there is a table, runs
that read the files under the same name both make an artifact of it. The two artifacts agree
but for the digest. -/
theorem artifact_depends_on_keywords {src src' : List Char} {spec spec' : KeywordSpec}
    (hspec : KeywordSpec.parse src = .ok spec) (hspec' : KeywordSpec.parse src' = .ok spec')
    (hsame : ∀ word k, KeywordSpec.Defines src word k ↔ KeywordSpec.Defines src' word k)
    (salt : UInt64) :
    (∀ k, Placement.StopsAt spec.words salt k ↔ Placement.StopsAt spec'.words salt k) ∧
      HashTable.build salt spec = HashTable.build salt spec' ∧
      ∀ t, HashTable.build salt spec = .ok t → ∀ fs fs' s s' path,
        BuiltinReads fs s path salt src → BuiltinReads fs' s' path salt src' →
        ∀ around around' j j', ∃ text text',
          ((generate fs around s).run j).1 = .ok ⟨spec, some t, text⟩ ∧
          ((generate fs' around' s').run j').1 = .ok ⟨spec', some t, text'⟩ ∧
          Artifact.SameButDigest text text' := by
  have hpairs := KeywordSpec.pairs_eq_of_defines hspec hspec' hsame
  have hbuild := HashTable.build_congr hpairs salt
  refine ⟨fun k => by rw [HashTable.words_congr hpairs], hbuild, ?_⟩
  intro t ht fs fs' s s' path hreads hreads' around around' j j'
  exact ⟨_, _, hreads.generate hspec ht around j,
    hreads'.generate hspec' (hbuild.symm.trans ht) around' j',
    Artifact.sameButDigest_render t path _ _⟩

/-- The same two keywords, in two orders and two spellings. -/
theorem artifact_depends_on_keywords_two_spellings :
    ∃ t text text',
      HashTable.build 1 ⟨[⟨"if", .ifWord, 2⟩, ⟨"in", .inWord, 1⟩]⟩ = .ok t ∧
      ((generate ⟨[], [(["words"], .file (Utf8.encode "in,In\nif,If".toList) false)]⟩ ⟨[], []⟩
        { Settings.standard with specPath := "words", seed := 1 }).run Journal.empty).1
          = .ok ⟨⟨[⟨"if", .ifWord, 2⟩, ⟨"in", .inWord, 1⟩]⟩, some t, text⟩ ∧
      ((generate ⟨[], [(["words"],
            .file (Utf8.encode "# both\n%%\n\"if\" , kw::If\nin, In\n".toList) false)]⟩ ⟨[], []⟩
        { Settings.standard with specPath := "words", seed := 1 }).run Journal.empty).1
          = .ok ⟨⟨[⟨"if", .ifWord, 3⟩, ⟨"in", .inWord, 4⟩]⟩, some t, text'⟩ ∧
      Artifact.SameButDigest text text' := by
  have hparse : KeywordSpec.parse "in,In\nif,If".toList
      = .ok ⟨[⟨"if", .ifWord, 2⟩, ⟨"in", .inWord, 1⟩]⟩ := by cbv
  have hparse' : KeywordSpec.parse "# both\n%%\n\"if\" , kw::If\nin, In\n".toList
      = .ok ⟨[⟨"if", .ifWord, 3⟩, ⟨"in", .inWord, 4⟩]⟩ := by cbv
  have hsame : ∀ word k, KeywordSpec.Defines "in,In\nif,If".toList word k
      ↔ KeywordSpec.Defines "# both\n%%\n\"if\" , kw::If\nin, In\n".toList word k :=
    fun word k => (KeywordSpec.mem_pairs_iff hparse).symm.trans (KeywordSpec.mem_pairs_iff hparse')
  have hstop : Placement.StopsAt
      (KeywordSpec.words ⟨[⟨"if", .ifWord, 2⟩, ⟨"in", .inWord, 1⟩]⟩) 1 1 := by
    refine ⟨by cbv, fun j hj => ?_⟩
    obtain rfl : j = 0 := by omega
    cbv
  obtain ⟨t, ht⟩ := HashTable.exists_build_of_stopsAt hparse (by decide) hstop
  have hreads : ∀ src, BuiltinReads ⟨[], [(["words"], .file (Utf8.encode src) false)]⟩
      { Settings.standard with specPath := "words", seed := 1 } "words" 1 src :=
    fun _ => ⟨rfl, rfl, rfl, rfl⟩
  obtain ⟨text, text', hrun, hrun', htext⟩ :=
    (artifact_depends_on_keywords hparse hparse' hsame 1).2.2 t ht _ _ _ _ "words"
      (hreads _) (hreads _) ⟨[], []⟩ ⟨[], []⟩ Journal.empty Journal.empty
  exact ⟨t, text, text', ht, hrun, hrun', htext⟩

end Pipeline

end Reserved
