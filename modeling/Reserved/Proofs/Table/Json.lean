import Mathlib.Data.List.Forall2
import Reserved.Proofs.Json.Structure

/-!
# Tables that are read back

What is written for a table is read as this table. Lists and objects are laid out on lines of
their own, in front of which stand the blanks of the indentation; read as a list or an object,
such a text is a part after the other, each behind a line feed and those blanks.

The limit that the readers are given comes from the length of the whole document. It is handed
down with the lengths: a part is shorter than the list or the object it stands in.
-/

namespace Reserved

namespace TableJson

open Json (Reader Reads Ended Separates Inside Members)

variable {α σ : Type}

/-! ## Layout -/

/-- What stands before a part on a line of its own. -/
def lead (indent : String) : Bool → List UInt8
  | true => ("\n" ++ indent ++ "  ").utf8
  | false => (",\n" ++ indent ++ "  ").utf8

theorem separates_lead {indent : String} (h : Json.Blanks indent.utf8) (first : Bool) :
    Separates first (lead indent first) := by
  have hfeed : Json.Blanks "\n".utf8 := by decide
  have hspaces : Json.Blanks "  ".utf8 := by decide
  have hline : Json.Blanks ("\n" ++ indent ++ "  ").utf8 := by
    rw [utf8_append, utf8_append]
    exact (hfeed.append h).append hspaces
  cases first with
  | true => exact hline
  | false =>
      refine ⟨[], _, fun _ hb => absurd hb List.not_mem_nil, hline, ?_⟩
      have hcomma : ",\n".utf8 = ','.toUInt8 :: "\n".utf8 := rfl
      rw [lead, utf8_append, utf8_append, utf8_append, utf8_append, hcomma]
      rfl

theorem lead_pos (indent : String) (first : Bool) : 0 < (lead indent first).length := by
  have hfeed : 0 < "\n".utf8.length ∧ 0 < ",\n".utf8.length := by decide
  cases first
  all_goals
    rw [lead, utf8_append, utf8_append, List.length_append, List.length_append]
    omega

/-- What stands before the closing mark of a list or an object. -/
theorem blanks_trail {indent : String} (h : Json.Blanks indent.utf8) :
    Json.Blanks ("\n" ++ indent).utf8 := by
  have hfeed : Json.Blanks "\n".utf8 := by decide
  rw [utf8_append]
  exact hfeed.append h

/-- The lines of a list or an object, each behind the blanks before it. -/
def linesFrom (indent : String) : Bool → List String → List UInt8
  | _, [] => ("\n" ++ indent).utf8
  | first, part :: rest => lead indent first ++ (part.utf8 ++ linesFrom indent false rest)

theorem intercalate_singleton (sep a : String) : sep.intercalate [a] = a := by
  rw [← String.toList_inj, String.toList_intercalate]
  exact List.intercalate_singleton

theorem intercalate_cons_cons (sep a b : String) (rest : List String) :
    sep.intercalate (a :: b :: rest) = a ++ (sep ++ sep.intercalate (b :: rest)) := by
  rw [← String.toList_inj, String.toList_intercalate, String.toList_append, String.toList_append,
    String.toList_intercalate]
  simp only [List.map_cons]
  rw [List.intercalate_cons_cons, List.append_assoc]

theorem utf8_lines (indent : String) (part : String) (rest : List String) :
    ("\n" ++ ",\n".intercalate ((part :: rest).map fun e => indent ++ "  " ++ e)
      ++ ("\n" ++ indent)).utf8 = linesFrom indent true (part :: rest) := by
  -- with any mark before the first line, so that the induction goes through
  suffices h : ∀ (first : Bool) (mark : String), lead indent first = (mark ++ indent ++ "  ").utf8 →
      (mark ++ ",\n".intercalate ((part :: rest).map fun e => indent ++ "  " ++ e)
        ++ ("\n" ++ indent)).utf8 = linesFrom indent first (part :: rest) from h true "\n" rfl
  induction rest generalizing part with
  | nil =>
      intro first mark hlead
      rw [List.map_singleton, intercalate_singleton, linesFrom, linesFrom, hlead]
      simp only [utf8_append, List.append_assoc]
  | cons part' rest ih =>
      intro first mark hlead
      rw [List.map_cons, List.map_cons, intercalate_cons_cons, linesFrom,
        ← ih part' false ",\n" rfl, hlead]
      simp only [List.map_cons, utf8_append, List.append_assoc]

theorem utf8_renderList {indent : String} (part : String) (rest : List String) :
    (renderList indent (part :: rest)).utf8
      = '['.toUInt8 :: (linesFrom indent true (part :: rest) ++ [']'.toUInt8]) := by
  have hopen : "[\n".utf8 = '['.toUInt8 :: "\n".utf8 := rfl
  have hclose : "]".utf8 = [']'.toUInt8] := rfl
  rw [← utf8_lines, renderList, if_neg (by simp)]
  simp only [toString, utf8_append, hopen, hclose, List.append_assoc, List.cons_append]

/-- A field of an object as a part of it. -/
def fieldText (f : String × String) : String :=
  "\"" ++ f.1 ++ "\": " ++ f.2

theorem renderObject_eq (indent : String) (fields : List (String × String)) :
    renderObject indent fields = "\x7b\n" ++
      ",\n".intercalate ((fields.map fieldText).map fun e => indent ++ "  " ++ e)
        ++ ("\n" ++ indent ++ "\x7d") := by
  rw [List.map_map]
  refine congrArg (fun lines => "\x7b\n" ++ ",\n".intercalate lines ++ ("\n" ++ indent ++ "\x7d"))
    (List.map_congr_left fun f _ => String.toList_inj.mp ?_)
  simp [fieldText, toString]

theorem utf8_renderObject {indent : String} (field : String × String)
    (rest : List (String × String)) :
    (renderObject indent (field :: rest)).utf8
      = '\x7b'.toUInt8 :: (linesFrom indent true
          ((field :: rest).map fieldText) ++ ['\x7d'.toUInt8]) := by
  have hopen : "\x7b\n".utf8 = '\x7b'.toUInt8 :: "\n".utf8 := rfl
  have hclose : "\x7d".utf8 = ['\x7d'.toUInt8] := rfl
  rw [List.map_cons, ← utf8_lines, ← List.map_cons, renderObject_eq]
  simp only [utf8_append, hopen, hclose, List.append_assoc, List.cons_append]

/-! ## Lists and objects as they are laid out -/

/-- Parts that are read one by one are the inside of a list. -/
theorem inside_linesFrom {element : Reader α} {indent : String} (hindent : Json.Blanks indent.utf8)
    {limit : Nat} {texts : List String} {xs : List α}
    (h : List.Forall₂ (fun text x => text.utf8.length < limit → Reads element text.utf8 x)
      texts xs) :
    ∀ first, (linesFrom indent first texts).length ≤ limit →
      Inside element first (linesFrom indent first texts) xs := by
  induction h with
  | nil => exact fun _ _ => .done (blanks_trail hindent)
  | @cons text x texts xs htext _ ih =>
      intro first hlimit
      rw [linesFrom, List.length_append, List.length_append] at hlimit
      have hlead := lead_pos indent first
      rw [linesFrom]
      exact .part (separates_lead hindent first) (htext (by omega)) (ih false (by omega))

theorem reads_renderList {element : Reader α} {indent : String} (hindent : Json.Blanks indent.utf8)
    {limit : Nat} {texts : List String} {xs : List α}
    (h : List.Forall₂ (fun text x => text.utf8.length < limit → Reads element text.utf8 x)
      texts xs) (hlimit : (renderList indent texts).utf8.length < limit) :
    Reads (Json.listOf limit element) (renderList indent texts).utf8 xs := by
  cases h with
  | nil =>
      have hnone : (renderList indent []).utf8 = '['.toUInt8 :: ([] ++ [']'.toUInt8]) := by
        have hempty : "[]".utf8 = ['['.toUInt8, ']'.toUInt8] := rfl
        exact hempty
      rw [hnone] at hlimit ⊢
      refine Json.reads_listOf (.done fun _ hb => absurd hb List.not_mem_nil) ?_
      simp at hlimit ⊢
      omega
  | @cons text x texts xs htext hrest =>
      rw [utf8_renderList] at hlimit ⊢
      rw [List.length_cons, List.length_append, List.length_singleton] at hlimit
      exact Json.reads_listOf (inside_linesFrom hindent (.cons htext hrest) true (by omega))
        (by omega)

/-- A list is read back if each of its elements is. -/
theorem reads_renderList_map {element : Reader α} {indent : String}
    (hindent : Json.Blanks indent.utf8) {limit : Nat} {write : α → String}
    (h : ∀ x, (write x).utf8.length < limit → Reads element (write x).utf8 x) (xs : List α)
    (hlimit : (renderList indent (xs.map write)).utf8.length < limit) :
    Reads (Json.listOf limit element) (renderList indent (xs.map write)).utf8 xs := by
  refine reads_renderList hindent ?_ hlimit
  rw [List.forall₂_map_left_iff, List.forall₂_same]
  exact fun x _ => h x

/-- The field `name` takes a value that is written as `value`, and `s` becomes `s'`. -/
def Sets (field : String → σ → Reader σ) (name : String) (s : σ) (value : String) (s' : σ) :
    Prop :=
  ∀ rest, Ended rest →
    field name s (':'.toUInt8 :: ' '.toUInt8 :: (value.utf8 ++ rest)) = .ok (s', rest)

/-- Fields that, set one after the other, take `s` on to the last of the states. -/
inductive Fills (field : String → σ → Reader σ) (limit : Nat) :
    σ → List (String × String) → σ → Prop
  | nil {s : σ} : Fills field limit s [] s
  | cons {s s' s'' : σ} {name value : String} {fields : List (String × String)} :
      name.utf8 = Json.escaped name → (value.utf8.length < limit → Sets field name s value s') →
      Fills field limit s' fields s'' → Fills field limit s ((name, value) :: fields) s''

theorem members_linesFrom {field : String → σ → Reader σ} {indent : String}
    (hindent : Json.Blanks indent.utf8) {limit : Nat} {s s' : σ} {fields : List (String × String)}
    (h : Fills field limit s fields s') :
    ∀ first, (linesFrom indent first (fields.map fieldText)).length ≤ limit →
      Members field first s (linesFrom indent first (fields.map fieldText)) s' := by
  induction h with
  | nil => exact fun _ _ => .done (blanks_trail hindent)
  | @cons s s' s'' name value fields hname hvalue _ ih =>
      intro first hlimit
      have htext : (fieldText (name, value)).utf8
          = '"'.toUInt8 :: (Json.escaped name ++ '"'.toUInt8 :: ':'.toUInt8 :: ' '.toUInt8
            :: value.utf8) := by
        have hopen : "\"".utf8 = ['"'.toUInt8] := rfl
        have hcolon : "\": ".utf8 = ['"'.toUInt8, ':'.toUInt8, ' '.toUInt8] := rfl
        rw [fieldText, utf8_append, utf8_append, utf8_append, hname, hopen, hcolon]
        simp only [List.append_assoc, List.cons_append, List.nil_append]
      have hlead := lead_pos indent first
      rw [List.map_cons, linesFrom, htext] at hlimit ⊢
      simp only [List.length_append, List.length_cons] at hlimit
      have htakes : ∀ rest, Ended rest →
          field name s (':'.toUInt8 :: ' '.toUInt8 :: value.utf8 ++ rest) = .ok (s', rest) :=
        hvalue (by omega)
      have hpart := Members.part (separates_lead hindent first) htakes (ih false (by omega))
      simpa only [List.append_assoc, List.cons_append] using hpart

/-! ## The parts of a table -/

/-- A value that is made of what a reader answers. -/
theorem reads_map {β : Type} {r : Reader α} {w : List UInt8} {x : α} (f : α → β)
    (h : Reads r w x) : Reads (fun cs => do
      let (x, rest) ← r cs
      return (f x, rest)) w (f x) := by
  refine ⟨h.begins, ?_⟩
  intro bs rest hbs hrest
  rw [h.reads hbs hrest]
  rfl

theorem reads_word64 (n : UInt64) : Reads word64 (toString n.toNat).utf8 n := by
  rw [Json.utf8_toString]
  have h := reads_map UInt64.ofNat (Json.reads_unsigned "u64" n.toNat_lt (Nat.le_refl _))
  rwa [UInt64.ofNat_toNat] at h

theorem reads_length {n : Nat} (hn : n < UInt64.size) : Reads length (toString n).utf8 n := by
  rw [Json.utf8_toString]
  exact Json.reads_unsigned "usize" hn (Nat.le_refl _)

theorem reads_word32 (n : UInt32) : Reads word32 (toString n.toNat).utf8 n := by
  rw [Json.utf8_toString]
  have h := reads_map UInt32.ofNat
    (Json.reads_unsigned "u32" n.toNat_lt (by decide : UInt32.size ≤ UInt64.size))
  rwa [UInt32.ofNat_toNat] at h

theorem reads_displacement (d : Displacement) :
    Reads displacement (renderDisplacement d).utf8 d := by
  have hindent : Json.Blanks "    ".utf8 := by decide
  rw [renderDisplacement, utf8_renderList]
  refine Json.reads_bracketed _ fun rest => ⟨_, blanks_trail hindent, ?_⟩
  have hended : Ended (("\n" ++ "    ").utf8 ++ ']'.toUInt8 :: rest) :=
    Ended.blanks_append (blanks_trail hindent) (Json.ended_cons _ (by decide))
  have hfactor : ∀ rest, Ended rest →
      Json.elementAt "a tuple of size 2" 0 word32
        (lead "    " true ++ ((toString d.factor.toNat).utf8 ++ rest)) = .ok (d.factor, rest) :=
    fun rest => Json.elementAt_part _ (separates_lead hindent true) (reads_word32 d.factor)
  have hshift := Json.elementAt_part "a tuple of size 2" (i := 1)
    (separates_lead hindent false) (reads_word32 d.shift) hended
  simp only [linesFrom, List.append_assoc]
  rw [hfactor _ ((separates_lead hindent false).ended _)]
  dsimp only [bind, Except.bind]
  rw [hshift]
  rfl

/-- A field that has not been set before takes the value that is read for it. -/
theorem sets_of_reads {field : String → σ → Reader σ} {name : String} {s : σ} {value : Reader α}
    (set : α → σ)
    (hfield : ∀ cs, field name s cs = do
      let (v, left) ← Json.fieldValue name false value cs
      return (set v, left))
    {text : String} {x : α} (h : Reads value text.utf8 x) : Sets field name s text (set x) := by
  have hspace : Json.Blanks [' '.toUInt8] := by decide
  intro rest hrest
  have hvalue := Json.fieldValue_append name Json.blanks_nil hspace h hrest
  rw [List.nil_append, List.singleton_append] at hvalue
  rw [hfield, hvalue]
  rfl

/-- The fields of an object that is laid out are read one by one. -/
theorem object_renderObject {field : String → σ → Reader σ} {indent : String}
    (hindent : Json.Blanks indent.utf8) {limit : Nat} {s s' : σ} {f : String × String}
    {fields : List (String × String)} (h : Fills field limit s (f :: fields) s')
    (hlimit : (renderObject indent (f :: fields)).utf8.length < limit) :
    ∃ w, (renderObject indent (f :: fields)).utf8
        = '\x7b'.toUInt8 :: (w ++ ['\x7d'.toUInt8]) ∧
      ∀ rest, Json.object field limit true s (w ++ '\x7d'.toUInt8 :: rest) = .ok (s', rest) := by
  rw [utf8_renderObject] at hlimit ⊢
  rw [List.length_cons, List.length_append, List.length_singleton] at hlimit
  have hmembers := members_linesFrom hindent h true (by omega)
  exact ⟨_, rfl, fun rest => Json.object_members hmembers rest limit (by omega)⟩

theorem fills_slot (s : Slot) (limit : Nat) :
    Fills (slotField limit) limit ⟨none, none⟩
      [("text", renderString s.text), ("kind", renderString s.kind.name)]
      ⟨some s.text, some s.kind⟩ := by
  have htext : Sets (slotField limit) "text" ⟨none, none⟩ (renderString s.text)
      ⟨some s.text, none⟩ :=
    sets_of_reads (fun v => SlotFields.mk (some v) none) (fun _ => rfl) (Json.reads_string _ _)
  have hkind : Sets (slotField limit) "kind" ⟨some s.text, none⟩ (renderString s.kind.name)
      ⟨some s.text, some s.kind⟩ :=
    sets_of_reads (fun v => SlotFields.mk (some s.text) (some v)) (fun _ => rfl)
      (Json.reads_variant _ (TokenKind.ofName?_name s.kind))
  refine .cons (by decide) (fun _ => htext) ?_
  exact .cons (by decide) (fun _ => hkind) .nil

theorem reads_slot (s : Slot) {limit : Nat} (hlimit : (renderSlot s).utf8.length < limit) :
    Reads (slot limit) (renderSlot s).utf8 s := by
  obtain ⟨w, hw, hobject⟩ :=
    object_renderObject (by decide) (fills_slot s limit) hlimit
  rw [renderSlot, hw]
  refine Json.reads_record _ _ fun rest => ?_
  rw [slotByName, hobject rest]
  rfl

/-! ## Tables -/

/-- The fields of a table, each as it is written. -/
def fieldTexts (t : HashTable) : List (String × String) :=
  [("seed", toString t.seed.toNat),
    ("min_len", toString t.minLen),
    ("max_len", toString t.maxLen),
    ("displacements", renderList "  " (t.displacements.map renderDisplacement)),
    ("slots", renderList "  " (t.slots.map renderSlot))]

theorem fills_table {t : HashTable} (hmin : t.minLen < UInt64.size)
    (hmax : t.maxLen < UInt64.size) (limit : Nat) :
    Fills (tableField limit) limit ⟨none, none, none, none, none⟩ (fieldTexts t)
      ⟨some t.seed, some t.minLen, some t.maxLen, some t.displacements, some t.slots⟩ := by
  have hlists : Json.Blanks "  ".utf8 := by decide
  have hseed : Sets (tableField limit) "seed" ⟨none, none, none, none, none⟩
      (toString t.seed.toNat) ⟨some t.seed, none, none, none, none⟩ :=
    sets_of_reads (fun v => TableFields.mk (some v) none none none none) (fun _ => rfl)
      (reads_word64 _)
  have hminLen : Sets (tableField limit) "min_len" ⟨some t.seed, none, none, none, none⟩
      (toString t.minLen) ⟨some t.seed, some t.minLen, none, none, none⟩ :=
    sets_of_reads (fun v => TableFields.mk (some t.seed) (some v) none none none) (fun _ => rfl)
      (reads_length hmin)
  have hmaxLen : Sets (tableField limit) "max_len" ⟨some t.seed, some t.minLen, none, none, none⟩
      (toString t.maxLen) ⟨some t.seed, some t.minLen, some t.maxLen, none, none⟩ :=
    sets_of_reads (fun v => TableFields.mk (some t.seed) (some t.minLen) (some v) none none)
      (fun _ => rfl) (reads_length hmax)
  have hdisplacements :
      (renderList "  " (t.displacements.map renderDisplacement)).utf8.length < limit →
      Sets (tableField limit) "displacements"
        ⟨some t.seed, some t.minLen, some t.maxLen, none, none⟩
        (renderList "  " (t.displacements.map renderDisplacement))
        ⟨some t.seed, some t.minLen, some t.maxLen, some t.displacements, none⟩ := fun h =>
    sets_of_reads
      (fun v => TableFields.mk (some t.seed) (some t.minLen) (some t.maxLen) (some v) none)
      (fun _ => rfl) (reads_renderList_map hlists (fun d _ => reads_displacement d) _ h)
  have hslots : (renderList "  " (t.slots.map renderSlot)).utf8.length < limit →
      Sets (tableField limit) "slots"
        ⟨some t.seed, some t.minLen, some t.maxLen, some t.displacements, none⟩
        (renderList "  " (t.slots.map renderSlot))
        ⟨some t.seed, some t.minLen, some t.maxLen, some t.displacements, some t.slots⟩ := fun h =>
    sets_of_reads
      (fun v => TableFields.mk (some t.seed) (some t.minLen) (some t.maxLen)
        (some t.displacements) (some v))
      (fun _ => rfl) (reads_renderList_map hlists (fun s => reads_slot s) _ h)
  refine .cons (by decide) (fun _ => hseed) ?_
  refine .cons (by decide) (fun _ => hminLen) ?_
  refine .cons (by decide) (fun _ => hmaxLen) ?_
  refine .cons (by decide) hdisplacements ?_
  exact .cons (by decide) hslots .nil

theorem reads_table {t : HashTable} (hmin : t.minLen < UInt64.size) (hmax : t.maxLen < UInt64.size)
    {limit : Nat} (hlimit : (renderObject "" (fieldTexts t)).utf8.length < limit) :
    Reads (table limit) (renderObject "" (fieldTexts t)).utf8 t := by
  obtain ⟨w, hw, hobject⟩ :=
    object_renderObject (by decide) (fills_table hmin hmax limit) hlimit
  rw [fieldTexts, hw]
  refine Json.reads_record _ _ fun rest => ?_
  rw [tableByName, hobject rest]
  rfl

/-- **What is written for a table is read as the table**, if its lengths fit the 64 bits that a
length has. -/
theorem parse_utf8_render {t : HashTable} (hmin : t.minLen < UInt64.size)
    (hmax : t.maxLen < UInt64.size) : parse (render t).utf8 = .ok t := by
  have hfeed : Json.Blanks "\n".utf8 := by decide
  have hrender : (render t).utf8 = (renderObject "" (fieldTexts t)).utf8 ++ "\n".utf8 :=
    utf8_append _ _
  rw [parse, hrender]
  refine Json.document_append hfeed (reads_table hmin hmax ?_)
  rw [List.length_append]
  omega

/-- It begins with a brace. -/
theorem head?_toList_render (t : HashTable) : (render t).toList.head? = some '\x7b' := by
  unfold render renderObject
  simp only [String.append_assoc, String.toList_append, List.head?_append]
  rfl

theorem render_ne_empty (t : HashTable) : render t ≠ "" := by
  intro hempty
  have hhead := head?_toList_render t
  rw [hempty] at hhead
  cases hhead

end TableJson

end Reserved
