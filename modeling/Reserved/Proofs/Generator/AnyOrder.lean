import Reserved.Proofs.Generator.Independence

/-!
# Edits in any order

The rules are applied one after the other, each to what the ones before it have left, yet
their counts are taken from the raw text. Both come to the same: since an edit still to come
finds its own pieces and nothing else, the edits already made only say which pieces have been
edited. When all of them are made, every piece has been, in whatever order; and a rule counts
its pieces in the raw text.
-/

namespace Reserved

namespace EditRule

/-! ## Templates -/

theorem expand_cons {c : Char} (hc : c ≠ '$') (captured rest : List Char) :
    expand captured (c :: rest) = c :: expand captured rest := by
  rw [expand]
  · exact fun _ h => absurd h hc
  · exact fun _ h => absurd h hc

/-- A text is escaped so that a template stands for it, whatever it holds. -/
theorem expand_escapeDollars (captured : List Char) (s : String) (rest : List Char) :
    expand captured ((escapeDollars s).toList ++ rest) = s.toList ++ expand captured rest := by
  unfold escapeDollars
  rw [String.toList_ofList]
  induction s.toList with
  | nil => rfl
  | cons c cs ih =>
      rw [List.flatMap_cons, List.append_assoc]
      by_cases hc : c = '$'
      · subst hc
        rw [if_pos rfl]
        show '$' :: expand captured (cs.flatMap _ ++ rest) = _
        rw [ih]
        rfl
      · rw [if_neg hc]
        show expand captured (c :: (cs.flatMap _ ++ rest)) = _
        rw [expand_cons hc, ih]
        rfl

/-- Text without a dollar sign stands for itself. -/
theorem expand_append (captured : List Char) : ∀ (s rest : List Char), '$' ∉ s →
    expand captured (s ++ rest) = s ++ expand captured rest
  | [], _, _ => rfl
  | c :: s, rest, h => by
      have hc : c ≠ '$' := fun hc => h (hc ▸ List.mem_cons_self)
      rw [List.cons_append, expand_cons hc,
        expand_append captured s rest fun hs => h (List.mem_cons_of_mem c hs)]
      rfl

/-- A template stands for something if it has a character that means only itself. -/
theorem expand_ne_nil {c : Char} (hc : c ∉ "$\x7b1\x7d".toList) (captured : List Char) :
    ∀ {template : List Char}, c ∈ template → expand captured template ≠ [] := by
  intro template h
  fun_induction expand captured template with
  | case1 rest _ => exact List.cons_ne_nil _ _
  | case2 rest ih =>
      refine List.append_ne_nil_of_right_ne_nil _ (ih ?_)
      have hlist : "$\x7b1\x7d".toList = ['$', '\x7b', '1', '\x7d'] := by decide
      rw [hlist] at hc
      simp only [List.mem_cons, List.not_mem_nil, or_false, not_or] at h hc
      obtain ⟨h1, h2, h3, h4⟩ := hc
      simpa [h1, h2, h3, h4] using h
  | case3 c rest _ _ _ => exact List.cons_ne_nil _ _
  | case4 => exact absurd h List.not_mem_nil

end EditRule

namespace Edit

def all : List Edit :=
  [returnType, matchedEntry, noMatch]

/-- What an edit is called. -/
def name : Edit → String
  | returnType => "return type"
  | matchedEntry => "matched entry"
  | noMatch => "no match"

/-- The rule that makes an edit. -/
def rule (cfg : GeneratorConfig) (e : Edit) : EditRule where
  name := e.name
  pattern := e.pattern
  template :=
    match e with
    | returnType => s!"inline {EditRule.escapeDollars cfg.kindType} "
    | matchedEntry => "$\x7b1\x7d.kind"
    | noMatch => s!"$\x7b1\x7d{EditRule.escapeDollars cfg.sentinel};"
  expected :=
    match e with
    | returnType => 2
    | matchedEntry => 1
    | noMatch => 1

theorem forConfig_eq (cfg : GeneratorConfig) : EditRule.forConfig cfg = all.map (rule cfg) := rfl

theorem name_injective {e e' : Edit} (h : e.name = e'.name) : e = e' := by
  revert h
  cases e <;> cases e' <;> decide

/-- A rule makes of its sites what they are to become. -/
theorem expand_rule (cfg : GeneratorConfig) (s : Shape) :
    EditRule.expand s.site.captured (s.edit.rule cfg).template.toList = s.edited cfg := by
  have hnil : ∀ captured, EditRule.expand captured [] = [] := fun _ => rfl
  cases s with
  | returnType ws ws' =>
      have htemplate : (Edit.returnType.rule cfg).template.toList
          = "inline ".toList ++ ((EditRule.escapeDollars cfg.kindType).toList ++ " ".toList) := by
        show ("inline " ++ EditRule.escapeDollars cfg.kindType ++ " ").toList = _
        rw [String.toList_append, String.toList_append, List.append_assoc]
      have hinline : '$' ∉ "inline ".toList := by decide
      have hspace : " ".toList = [' '] := by decide
      unfold Shape.edit
      rw [htemplate, EditRule.expand_append _ _ _ hinline, EditRule.expand_escapeDollars, hspace,
        EditRule.expand_cons (by decide), hnil]
      rfl
  | matchedEntry =>
      have htemplate : (Edit.matchedEntry.rule cfg).template.toList
          = '$' :: '\x7b' :: '1' :: '\x7d' :: ".kind".toList := by
        show "$\x7b1\x7d.kind".toList = _
        decide
      have hkind : '$' ∉ ".kind".toList := by decide
      have htext := EditRule.expand_append "wordlist[key]".toList ".kind".toList [] hkind
      have hedited : "wordlist[key].kind".toList = "wordlist[key]".toList ++ ".kind".toList := by
        decide
      rw [List.append_nil, hnil, List.append_nil] at htext
      unfold Shape.edit
      rw [htemplate]
      show "wordlist[key]".toList ++ EditRule.expand "wordlist[key]".toList ".kind".toList = _
      rw [htext]
      exact hedited.symm
  | noMatch ws ws' =>
      have htemplate : (Edit.noMatch.rule cfg).template.toList
          = '$' :: '\x7b' :: '1' :: '\x7d'
            :: ((EditRule.escapeDollars cfg.sentinel).toList ++ [';']) := by
        have hopen : "$\x7b1\x7d".toList = ['$', '\x7b', '1', '\x7d'] := by decide
        have hsemi : ";".toList = [';'] := by decide
        show ("$\x7b1\x7d" ++ EditRule.escapeDollars cfg.sentinel ++ ";").toList = _
        rw [String.toList_append, String.toList_append, hopen, hsemi]
        rfl
      unfold Shape.edit
      rw [htemplate]
      show "return".toList ++ ws.val ++ EditRule.expand ("return".toList ++ ws.val)
        ((EditRule.escapeDollars cfg.sentinel).toList ++ [';']) = _
      rw [EditRule.expand_escapeDollars, EditRule.expand_cons (by decide), hnil, List.append_assoc]
      rfl

end Edit

/-! ## One edit after the other -/

/-- Making an edit makes the difference between the texts before it and after it. -/
theorem edit_render {cfg : GeneratorConfig} (hcfg : cfg.Harmless) {done : List Edit} {e : Edit}
    (he : e ∉ done) {text : List Char} {ps : List Piece} (h : Divides text ps) :
    EditRule.edit (render cfg done ps) (e.rule cfg) = render cfg (done ++ [e]) ps := by
  unfold EditRule.edit Pattern.replaceAll
  show (e.pattern.segments (render cfg done ps)).flatMap _ = _
  rw [segments_render hcfg he h, List.flatMap_assoc]
  show _ = ps.flatMap (Piece.textAfter cfg (done ++ [e]))
  congr 1
  funext q
  cases q with
  | kept c => rfl
  | site s =>
      rw [segmentsOf]
      by_cases hs : s.edit = e
      · subst hs
        rw [if_pos rfl, List.flatMap_singleton,
          Piece.textAfter_of_mem (List.mem_append_right _ (List.mem_singleton_self _))]
        exact Edit.expand_rule cfg s
      · -- a site of another edit is as far as it was
        have hmem : s.edit ∈ done ++ [e] ↔ s.edit ∈ done := by simp [hs]
        have hsame : (Piece.site s).textAfter cfg (done ++ [e])
            = (Piece.site s).textAfter cfg done := by
          by_cases hdone : s.edit ∈ done
          · rw [Piece.textAfter_of_mem hdone, Piece.textAfter_of_mem (hmem.mpr hdone)]
          · rw [Piece.textAfter_of_not_mem hdone, Piece.textAfter_of_not_mem (mt hmem.mp hdone)]
        rw [if_neg hs, hsame, List.flatMap_map]
        exact List.flatMap_singleton' _

/-- **Edits that are made one after the other edit each its own pieces.** -/
theorem foldl_edit {cfg : GeneratorConfig} (hcfg : cfg.Harmless) {text : List Char}
    {ps : List Piece} (h : Divides text ps) : ∀ (es done : List Edit), (done ++ es).Nodup →
    (es.map (Edit.rule cfg)).foldl EditRule.edit (render cfg done ps) = render cfg (done ++ es) ps
  | [], done, _ => by
      rw [List.append_nil]
      rfl
  | e :: es, done, hnodup => by
      have he : e ∉ done := fun hmem =>
        (List.nodup_append.mp hnodup).2.2 e hmem e List.mem_cons_self rfl
      -- the edit just made joins those that are done
      have hassoc : done ++ e :: es = done ++ [e] ++ es := by
        rw [List.append_assoc]
        rfl
      rw [hassoc] at hnodup ⊢
      rw [List.map_cons, List.foldl_cons, edit_render hcfg he h]
      exact foldl_edit hcfg h es (done ++ [e]) hnodup

/-- When every edit has been made, every piece is what it is to become. -/
theorem render_all {cfg : GeneratorConfig} {done : List Edit} (hall : ∀ e, e ∈ done)
    (ps : List Piece) : render cfg done ps = ps.flatMap (Piece.edited cfg) := by
  unfold render
  congr 1
  funext q
  cases q with
  | kept c => rfl
  | site s => exact Piece.textAfter_of_mem (hall s.edit)

/-! ## Counts -/

/-- How many pieces a rule is for. -/
def sites (ps : List Piece) (r : EditRule) : Nat :=
  ps.countP fun q => q.edit?.map Edit.name == some r.name

theorem sites_rule (cfg : GeneratorConfig) (e : Edit) (ps : List Piece) :
    sites ps (e.rule cfg) = ps.countP fun q => q.edit? == some e := by
  unfold sites
  congr 1
  funext q
  rw [Bool.eq_iff_iff, beq_iff_eq, beq_iff_eq]
  constructor
  · intro h
    obtain ⟨e', he', hname⟩ := Option.map_eq_some_iff.mp h
    rw [he', Edit.name_injective hname]
  · intro h
    rw [h]
    rfl

/-- A rule counts its pieces in the raw text. -/
theorem count_rule {cfg : GeneratorConfig} (hcfg : cfg.Harmless) (e : Edit) {text : List Char}
    {ps : List Piece} (h : Divides text ps) :
    (e.rule cfg).pattern.count text = sites ps (e.rule cfg) := by
  have hnone : e ∉ ([] : List Edit) := List.not_mem_nil
  -- the raw text is edited in part, with no part edited
  have hsegments := segments_render hcfg hnone h
  rw [render_nil, ← h.source] at hsegments
  rw [sites_rule]
  show (e.pattern.segments text).countP Segment.isSite = _
  rw [hsegments]
  clear hsegments h
  induction ps with
  | nil => rfl
  | cons q ps ih =>
      rw [List.flatMap_cons, List.countP_append, ih, List.countP_cons, Nat.add_comm]
      congr 1
      cases q with
      | kept c => rfl
      | site s =>
          have hedit : ((Piece.site s).edit? == some e) = true ↔ s.edit = e := by
            simp [Piece.edit?]
          rw [segmentsOf]
          by_cases hs : s.edit = e
          · rw [if_pos hs, if_pos (hedit.mpr hs)]
            rfl
          · rw [if_neg hs, if_neg (mt hedit.mp hs), List.countP_map]
            exact List.countP_eq_zero.mpr fun _ _ => Bool.false_ne_true

/-- The edit that a rule is named for. -/
def editOf (r : EditRule) : Edit :=
  (Edit.all.find? fun e => e.name == r.name).getD .noMatch

theorem editOf_rule (cfg : GeneratorConfig) (e : Edit) : editOf (e.rule cfg) = e := by
  cases e <;> rfl

/-- The rules in any order are the rules of the edits in some order. -/
theorem exists_edits {cfg : GeneratorConfig} {rules : List EditRule}
    (h : rules.Perm (EditRule.forConfig cfg)) :
    ∃ es : List Edit, es.Perm Edit.all ∧ rules = es.map (Edit.rule cfg) := by
  have hid : editOf ∘ Edit.rule cfg = id := funext (editOf_rule cfg)
  have hrule : ∀ r ∈ rules, (editOf r).rule cfg = r := by
    intro r hr
    rw [h.mem_iff, Edit.forConfig_eq] at hr
    obtain ⟨e, -, rfl⟩ := List.mem_map.mp hr
    rw [editOf_rule]
  refine ⟨rules.map editOf, ?_, ?_⟩
  · have hperm := h.map editOf
    rw [Edit.forConfig_eq, List.map_map, hid, List.map_id] at hperm
    exact hperm
  · rw [List.map_map]
    exact ((List.map_congr_left hrule).trans (List.map_id' rules)).symm

/-! ## All rules at once -/

theorem mismatch?_eq_none {raw : String} {r : EditRule} {n : Nat}
    (hn : r.pattern.count raw.toList = n) :
    EditRule.mismatch? raw r = none ↔ n = r.expected := by
  unfold EditRule.mismatch?
  rw [hn]
  show (if n = r.expected then none else _) = none ↔ _
  split <;> simp [*]

theorem mismatch?_eq_some {raw : String} {r : EditRule} {n : Nat} {m : ContractMismatch}
    (hn : r.pattern.count raw.toList = n) :
    EditRule.mismatch? raw r = some m ↔
      n ≠ r.expected ∧ m = ⟨r.name, r.pattern.source, r.expected, n⟩ := by
  unfold EditRule.mismatch?
  rw [hn]
  show (if n = r.expected then none else some _) = some m ↔ _
  split <;> simp [*, eq_comm]

/-- The rules are applied when each of them matches as often as it must. -/
theorem applyAll_eq_ok_iff {rules : List EditRule} {raw out : String} :
    EditRule.applyAll rules raw = .ok out ↔
      (∀ r ∈ rules, r.pattern.count raw.toList = r.expected) ∧
        rules.foldl EditRule.edit raw.toList = out.toList := by
  have hall : (∀ r ∈ rules, r.pattern.count raw.toList = r.expected) ↔
      rules.findSome? (EditRule.mismatch? raw) = none := by
    rw [List.findSome?_eq_none_iff]
    exact forall₂_congr fun r _ => (mismatch?_eq_none rfl).symm
  rw [hall]
  unfold EditRule.applyAll
  cases rules.findSome? (EditRule.mismatch? raw) with
  | some m => exact ⟨fun h => absurd h (by simp), fun h => absurd h.1 (by simp)⟩
  | none =>
      constructor
      · intro h
        obtain rfl := Except.ok.inj h
        exact ⟨rfl, String.toList_ofList.symm⟩
      · rintro ⟨-, h⟩
        exact congrArg Except.ok (by rw [h, String.ofList_toList])

/-- A rule makes something of its sites. -/
theorem expand_template_ne_nil {cfg : GeneratorConfig} {r : EditRule} (hr : r ∈ EditRule.forConfig cfg)
    (captured : List Char) : EditRule.expand captured r.template.toList ≠ [] := by
  have hchar : ∃ c, c ∉ "$\x7b1\x7d".toList ∧ c ∈ r.template.toList := by
    rw [Edit.forConfig_eq] at hr
    obtain ⟨e, -, rfl⟩ := List.mem_map.mp hr
    cases e with
    | returnType =>
      refine ⟨'i', by decide, ?_⟩
      show 'i' ∈ ("inline " ++ EditRule.escapeDollars cfg.kindType ++ " ").toList
      rw [String.toList_append, String.toList_append, List.mem_append, List.mem_append]
      exact .inl (.inl (by decide))
    | matchedEntry => exact ⟨'.', by decide, by show '.' ∈ "$\x7b1\x7d.kind".toList; decide⟩
    | noMatch =>
      refine ⟨';', by decide, ?_⟩
      show ';' ∈ ("$\x7b1\x7d" ++ EditRule.escapeDollars cfg.sentinel ++ ";").toList
      rw [String.toList_append, List.mem_append]
      exact .inr (by decide)
  obtain ⟨c, hc, hmem⟩ := hchar
  exact EditRule.expand_ne_nil hc captured hmem

/-- What the rules have edited is not empty. -/
theorem applyAll_ne_empty {cfg : GeneratorConfig} {raw out : String}
    (h : EditRule.applyAll (EditRule.forConfig cfg) raw = .ok out) : out ≠ "" := by
  obtain ⟨hcounts, hedits⟩ := applyAll_eq_ok_iff.mp h
  have hraw : raw.toList ≠ [] := by
    intro hnil
    have hcount := hcounts _ List.mem_cons_self
    rw [hnil] at hcount
    cases hcount
  have hfold : ∀ {rules : List EditRule}, rules ⊆ EditRule.forConfig cfg → ∀ {cs : List Char},
      cs ≠ [] → rules.foldl EditRule.edit cs ≠ [] := by
    intro rules
    induction rules with
    | nil => exact fun _ _ h => h
    | cons r rest ih =>
      intro hrules cs hcs
      have hr : r ∈ EditRule.forConfig cfg := hrules List.mem_cons_self
      exact ih (List.subset_of_cons_subset hrules)
        (Pattern.replaceAll_ne_nil (fun s => expand_template_ne_nil hr s.captured) hcs)
  rintro rfl
  exact hfold (List.Subset.refl _) hraw hedits

/-- **The rules do not interfere.** Every raw text has one division into pieces, and the rules,
in whatever order, do to it what that division says. The count of a rule is the number of its
pieces. The rules are rejected for the first of them whose count is not the one expected.
Otherwise each piece has become what it is to become, and every other character is kept where
it was. -/
theorem applyAll_any_order {cfg : GeneratorConfig} (hcfg : cfg.Harmless) (raw : String) :
    ∃ ps, Divides raw.toList ps ∧ (∀ ps', Divides raw.toList ps' → ps' = ps) ∧
      ∀ rules, rules.Perm (EditRule.forConfig cfg) →
        (∀ r ∈ rules, r.pattern.count raw.toList = sites ps r) ∧
        match EditRule.applyAll rules raw with
        | .error m => ∃ before r after, rules = before ++ r :: after ∧
            (∀ r' ∈ before, sites ps r' = r'.expected) ∧ sites ps r ≠ r.expected ∧
            m = ⟨r.name, r.pattern.source, r.expected, sites ps r⟩
        | .ok out => (∀ r ∈ rules, sites ps r = r.expected) ∧
            out.toList = ps.flatMap (Piece.edited cfg) := by
  obtain ⟨ps, hps⟩ := exists_divides raw.toList
  refine ⟨ps, hps, fun ps' hps' => hps'.unique hps, fun rules hrules => ?_⟩
  obtain ⟨es, hes, rfl⟩ := exists_edits hrules
  have hcount : ∀ r ∈ es.map (Edit.rule cfg), r.pattern.count raw.toList = sites ps r := by
    intro r hr
    obtain ⟨e, -, rfl⟩ := List.mem_map.mp hr
    exact count_rule hcfg e hps
  refine ⟨hcount, ?_⟩
  unfold EditRule.applyAll
  cases hfind : (es.map (Edit.rule cfg)).findSome? (EditRule.mismatch? raw) with
  | some m =>
      obtain ⟨before, r, after, hrules, hr, hbefore⟩ := List.findSome?_eq_some_iff.mp hfind
      -- the rules before the one that is found match as often as expected
      have hmem : ∀ r' ∈ before ++ r :: after, r'.pattern.count raw.toList = sites ps r' :=
        hrules ▸ hcount
      obtain ⟨hne, hm⟩ := (mismatch?_eq_some (hmem r (by simp))).mp hr
      refine ⟨before, r, after, hrules, fun r' hr' => ?_, hne, hm⟩
      exact (mismatch?_eq_none (hmem r' (List.mem_append_left _ hr'))).mp (hbefore r' hr')
  | none =>
      have hall : ∀ e, e ∈ es := fun e => hes.mem_iff.mpr (by cases e <;> decide)
      have hnodup : es.Nodup := hes.nodup_iff.mpr (by decide)
      refine ⟨fun r hr => ?_, ?_⟩
      · exact (mismatch?_eq_none (hcount r hr)).mp (List.findSome?_eq_none_iff.mp hfind r hr)
      · have hfold := foldl_edit hcfg hps es [] hnodup
        rw [render_nil, ← hps.source] at hfold
        rw [String.toList_ofList, hfold]
        exact render_all hall ps

/-- Settings that look like parts of a template. -/
def templateLike : GeneratorConfig :=
  ⟨none, 1, [], "$\x7b1\x7d", "$$n", ""⟩

/-- The rules from last to first, with settings that look like parts of a template. -/
theorem applyAll_any_order_reversed :
    ∃ ps, Divides
        "struct keyword_hash_entry*f:&wordlist[key];return\t0;struct\nkeyword_hash_entry *".toList
        ps ∧
      ps.flatMap (Piece.edited templateLike)
        = "inline $\x7b1\x7d f:wordlist[key].kind;return\t$$n;inline $\x7b1\x7d ".toList := by
  have hcfg : templateLike.Harmless := ⟨by decide, by decide, by decide, by decide⟩
  obtain ⟨ps, hps, -, hall⟩ := applyAll_any_order hcfg
    "struct keyword_hash_entry*f:&wordlist[key];return\t0;struct\nkeyword_hash_entry *"
  have hout : ((EditRule.applyAll (EditRule.forConfig templateLike).reverse
      "struct keyword_hash_entry*f:&wordlist[key];return\t0;struct\nkeyword_hash_entry *"
      ).toOption.map String.toList)
      = some "inline $\x7b1\x7d f:wordlist[key].kind;return\t$$n;inline $\x7b1\x7d ".toList := by
    decide +kernel
  obtain ⟨-, hrun⟩ := hall _ (List.reverse_perm _)
  refine ⟨ps, hps, ?_⟩
  revert hrun hout
  generalize EditRule.applyAll _ _ = result
  intro hout hrun
  cases result with
  | error m => exact absurd hout (by simp [Except.toOption])
  | ok out => exact hrun.2.symm.trans (Option.some.inj hout)

end Reserved
