import Reserved.Proofs.Json.Record
import Reserved.Proofs.Spec.Entry
import Reserved.Proofs.Table.Json

/-!
# The documents of a table

A table may be written in many ways: with blanks anywhere, with the fields of an object in any
order and unknown ones among them, with the table or a slot as the list of its fields, with a kind
as an object, and with escapes in any string. `Document` is the grammar of all of them. What it
leaves out is what would be ambiguous: a field twice or not at all, a list of another length, a
number that is not one of the type it is wanted in.
-/

namespace Reserved

namespace TableJson

open Json (Form Field Record Bracketed Quoted Variant Cell Accepts Row Places decimal)

/-! ## The grammar -/

/-- A pair of numbers of 32 bits. -/
def DisplacementText (w : List UInt8) (d : Displacement) : Prop :=
  Bracketed [Eq (decimal d.factor.toNat), Eq (decimal d.shift.toNat)] w

def slotFields (s : Slot) : List Field :=
  [⟨"text", fun w => Quoted w s.text⟩, ⟨"kind", fun w => Variant w s.kind.name⟩]

/-- A length is a number of 64 bits. -/
def LengthText (w : List UInt8) (n : Nat) : Prop :=
  n < UInt64.size ∧ w = decimal n

def tableFields (t : HashTable) : List Field :=
  [⟨"seed", Eq (decimal t.seed.toNat)⟩,
    ⟨"min_len", fun w => LengthText w t.minLen⟩,
    ⟨"max_len", fun w => LengthText w t.maxLen⟩,
    ⟨"displacements", Bracketed (t.displacements.map fun d w => DisplacementText w d)⟩,
    ⟨"slots", Bracketed (t.slots.map fun s => Record (slotFields s))⟩]

/-- A document of a table: the table as a record, between blanks. -/
inductive Document : Form HashTable
  | mk {bs w bs' : List UInt8} {t : HashTable} : Json.Blanks bs → Record (tableFields t) w →
      Json.Blanks bs' → Document (bs ++ (w ++ bs')) t

/-! ## The parts of a table -/

theorem accepts_word64 (limit : Nat) :
    Accepts limit word64 fun w n => decimal n.toNat = w := by
  refine (Json.accepts_unsigned limit "u64" (Nat.le_refl _)).map UInt64.ofNat ?_
  intro w n
  constructor
  · rintro rfl
    exact ⟨n.toNat, ⟨n.toNat_lt, rfl⟩, UInt64.ofNat_toNat⟩
  · rintro ⟨m, ⟨hm, rfl⟩, rfl⟩
    rw [UInt64.toNat_ofNat_of_lt' hm]

theorem accepts_length (limit : Nat) : Accepts limit length LengthText :=
  Json.accepts_unsigned limit "usize" (Nat.le_refl _)

theorem accepts_word32 (limit : Nat) :
    Accepts limit word32 fun w n => decimal n.toNat = w := by
  refine (Json.accepts_unsigned limit "u32" (by decide : UInt32.size ≤ UInt64.size)).map
    UInt32.ofNat ?_
  intro w n
  constructor
  · rintro rfl
    exact ⟨n.toNat, ⟨n.toNat_lt, rfl⟩, UInt32.ofNat_toNat⟩
  · rintro ⟨m, ⟨hm, rfl⟩, rfl⟩
    rw [UInt32.toNat_ofNat_of_lt' hm]

theorem accepts_displacement (limit : Nat) : Accepts limit displacement DisplacementText := by
  refine Row.bracketed ?_ "a tuple of size 2"
  refine Row.cons (i := 0) (p := Displacement.factor) rfl (accepts_word32 limit) fun factor => ?_
  refine Row.cons (i := 1) (p := Displacement.shift) rfl (accepts_word32 limit) fun shift => ?_
  refine Row.nil limit false fun d => ⟨?_, ?_⟩
  · rintro ⟨⟨-, rfl⟩, rfl⟩
    rfl
  · rintro rfl
    exact ⟨⟨trivial, rfl⟩, rfl⟩

theorem accepts_kind (limit : Nat) : Accepts limit kind fun w k => Variant w k.name := by
  refine (Json.accepts_variant limit TokenKind.ofName? _).congr ?_
  intro w k
  constructor
  · intro h
    exact ⟨k.name, TokenKind.ofName?_name k, h⟩
  · rintro ⟨name, hname, h⟩
    rwa [← KeywordSpec.ofName?_eq_some.mp hname]

/-! ## Slots -/

def slotCells : List (Cell SlotFields Slot) :=
  [{ name := "text", value := text, form := Quoted, get := SlotFields.text,
     set := fun v s => { s with text := some v }, part := Slot.text },
   { name := "kind", value := kind, form := fun w k => Variant w k.name, get := SlotFields.kind,
     set := fun v s => { s with kind := some v }, part := Slot.kind }]

theorem places_slot (limit : Nat) : Places limit (slotField limit) slotCells where
  distinct := by decide
  accepts := by
    simp only [slotCells, List.forall_mem_cons]
    exact ⟨Json.accepts_string limit _, accepts_kind limit, fun _ h => absurd h List.not_mem_nil⟩
  known := by
    intro c hc
    simp only [slotCells, List.mem_cons, List.not_mem_nil, or_false] at hc
    rcases hc with rfl | rfl
    · exact fun _ _ => rfl
    · exact fun _ _ => rfl
  unknown := by
    intro name h s
    funext cs
    unfold slotField
    split
    · exact absurd h (by decide)
    · exact absurd h (by decide)
    · rfl
  get_set := by
    intro c hc
    simp only [slotCells, List.mem_cons, List.not_mem_nil, or_false] at hc
    rcases hc with rfl | rfl
    · exact fun _ _ => rfl
    · exact fun _ _ => rfl
  get_set_ne := by
    intro c hc c' hc' hne v s
    simp only [slotCells, List.mem_cons, List.not_mem_nil, or_false] at hc hc'
    rcases hc with rfl | rfl <;> rcases hc' with rfl | rfl <;> first | rfl | exact absurd rfl hne

theorem row_slotInOrder (limit : Nat) : Row limit true (fun _ => True) slotInOrder fun s =>
    (slotCells.map (Cell.field s)).map Field.form := by
  refine Row.cons (i := 0) (p := Slot.text) rfl (Json.accepts_string limit _) fun text => ?_
  refine Row.cons (i := 1) (p := Slot.kind) rfl (accepts_kind limit) fun kind => ?_
  refine Row.nil limit false fun s => ⟨?_, ?_⟩
  · rintro ⟨⟨-, rfl⟩, rfl⟩
    rfl
  · rintro rfl
    exact ⟨⟨trivial, rfl⟩, rfl⟩

/-- The state in which all fields of a slot have been read. -/
def slotRead (s : Slot) : SlotFields :=
  ⟨some s.text, some s.kind⟩

theorem slotByName_eq_ok_iff {limit : Nat} {cs rest : List UInt8} {s : Slot} :
    slotByName limit cs = .ok (s, rest) ↔
      Json.object (slotField limit) limit true ⟨none, none⟩ cs = .ok (slotRead s, rest) := by
  unfold slotByName
  constructor
  · intro h
    obtain ⟨⟨⟨text, kind⟩, left⟩, hobject, h⟩ := bind_eq_ok.mp h
    obtain ⟨text', htext, h⟩ := bind_eq_ok.mp h
    obtain ⟨kind', hkind, h⟩ := bind_eq_ok.mp h
    obtain ⟨rfl, rfl⟩ := Prod.mk.inj (Except.ok.inj h)
    obtain rfl := Json.required_eq_ok_iff.mp htext
    obtain rfl := Json.required_eq_ok_iff.mp hkind
    exact hobject
  · intro h
    rw [h]
    rfl

theorem accepts_slot (limit : Nat) :
    Accepts limit (slot limit) fun w s => Record (slotFields s) w := by
  refine (places_slot limit).accepts_record ?_ ?_ (row_slotInOrder limit) slotByName_eq_ok_iff
    "struct Slot"
  · intro c hc
    simp only [slotCells, List.mem_cons, List.not_mem_nil, or_false] at hc
    rcases hc with rfl | rfl
    all_goals rfl
  · intro s x
    simp only [slotCells, List.forall_mem_cons]
    constructor
    · rintro ⟨htext, hkind, -⟩
      obtain ⟨text, kind⟩ := s
      obtain rfl : text = some x.text := htext
      obtain rfl : kind = some x.kind := hkind
      rfl
    · rintro rfl
      exact ⟨rfl, rfl, fun _ h => absurd h List.not_mem_nil⟩

/-! ## Tables -/

def tableCells (limit : Nat) : List (Cell TableFields HashTable) :=
  [{ name := "seed", value := word64, form := fun w n => decimal n.toNat = w,
     get := TableFields.seed, set := fun v s => { s with seed := some v },
     part := HashTable.seed },
   { name := "min_len", value := length, form := LengthText, get := TableFields.minLen,
     set := fun v s => { s with minLen := some v }, part := HashTable.minLen },
   { name := "max_len", value := length, form := LengthText, get := TableFields.maxLen,
     set := fun v s => { s with maxLen := some v }, part := HashTable.maxLen },
   { name := "displacements", value := Json.listOf limit displacement,
     form := fun w ds => Bracketed (ds.map fun d w => DisplacementText w d) w,
     get := TableFields.displacements, set := fun v s => { s with displacements := some v },
     part := HashTable.displacements },
   { name := "slots", value := Json.listOf limit (slot limit),
     form := fun w ss => Bracketed (ss.map fun s => Record (slotFields s)) w,
     get := TableFields.slots, set := fun v s => { s with slots := some v },
     part := HashTable.slots }]

theorem accepts_displacements (limit : Nat) : Accepts limit (Json.listOf limit displacement)
    fun w ds => Bracketed (ds.map fun d w => DisplacementText w d) w :=
  Json.accepts_listOf (accepts_displacement limit)

theorem accepts_slots (limit : Nat) : Accepts limit (Json.listOf limit (slot limit))
    fun w ss => Bracketed (ss.map fun s => Record (slotFields s)) w :=
  Json.accepts_listOf (accepts_slot limit)

theorem places_table (limit : Nat) :
    Places limit (tableField limit) (tableCells limit) where
  distinct := by
    show ["seed", "min_len", "max_len", "displacements", "slots"].Nodup
    decide
  accepts := by
    simp only [tableCells, List.forall_mem_cons]
    exact ⟨accepts_word64 limit, accepts_length limit, accepts_length limit,
      accepts_displacements limit, accepts_slots limit, fun _ h => absurd h List.not_mem_nil⟩
  known := by
    intro c hc
    simp only [tableCells, List.mem_cons, List.not_mem_nil, or_false] at hc
    rcases hc with rfl | rfl | rfl | rfl | rfl
    all_goals exact fun _ _ => rfl
  unknown := by
    intro name h s
    funext cs
    unfold tableField
    split
    all_goals first | rfl | exact absurd h (by simp [tableCells])
  get_set := by
    intro c hc
    simp only [tableCells, List.mem_cons, List.not_mem_nil, or_false] at hc
    rcases hc with rfl | rfl | rfl | rfl | rfl
    all_goals exact fun _ _ => rfl
  get_set_ne := by
    intro c hc c' hc' hne v s
    simp only [tableCells, List.mem_cons, List.not_mem_nil, or_false] at hc hc'
    rcases hc with rfl | rfl | rfl | rfl | rfl <;>
      rcases hc' with rfl | rfl | rfl | rfl | rfl <;>
      first | rfl | exact absurd rfl hne

theorem row_tableInOrder (limit : Nat) : Row limit true (fun _ => True) (tableInOrder limit)
    fun t => ((tableCells limit).map (Cell.field t)).map Field.form := by
  refine Row.cons (i := 0) (p := HashTable.seed) rfl (accepts_word64 limit) fun seed => ?_
  refine Row.cons (i := 1) (p := HashTable.minLen) rfl (accepts_length limit) fun minLen => ?_
  refine Row.cons (i := 2) (p := HashTable.maxLen) rfl (accepts_length limit) fun maxLen => ?_
  refine Row.cons (i := 3) (p := HashTable.displacements) rfl (accepts_displacements limit)
    fun displacements => ?_
  refine Row.cons (i := 4) (p := HashTable.slots) rfl (accepts_slots limit) fun slots => ?_
  refine Row.nil limit false fun t => ⟨?_, ?_⟩
  · rintro ⟨⟨⟨⟨⟨-, rfl⟩, rfl⟩, rfl⟩, rfl⟩, rfl⟩
    rfl
  · rintro rfl
    exact ⟨⟨⟨⟨⟨trivial, rfl⟩, rfl⟩, rfl⟩, rfl⟩, rfl⟩

/-- The state in which all fields of a table have been read. -/
def tableRead (t : HashTable) : TableFields :=
  ⟨some t.seed, some t.minLen, some t.maxLen, some t.displacements, some t.slots⟩

theorem tableByName_eq_ok_iff {limit : Nat} {cs rest : List UInt8} {t : HashTable} :
    tableByName limit cs = .ok (t, rest) ↔
      Json.object (tableField limit) limit true ⟨none, none, none, none, none⟩ cs
        = .ok (tableRead t, rest) := by
  unfold tableByName
  constructor
  · intro h
    obtain ⟨⟨⟨seed, minLen, maxLen, displacements, slots⟩, left⟩, hobject, h⟩ := bind_eq_ok.mp h
    obtain ⟨seed', hseed, h⟩ := bind_eq_ok.mp h
    obtain ⟨minLen', hmin, h⟩ := bind_eq_ok.mp h
    obtain ⟨maxLen', hmax, h⟩ := bind_eq_ok.mp h
    obtain ⟨displacements', hdisplacements, h⟩ := bind_eq_ok.mp h
    obtain ⟨slots', hslots, h⟩ := bind_eq_ok.mp h
    obtain ⟨rfl, rfl⟩ := Prod.mk.inj (Except.ok.inj h)
    obtain rfl := Json.required_eq_ok_iff.mp hseed
    obtain rfl := Json.required_eq_ok_iff.mp hmin
    obtain rfl := Json.required_eq_ok_iff.mp hmax
    obtain rfl := Json.required_eq_ok_iff.mp hdisplacements
    obtain rfl := Json.required_eq_ok_iff.mp hslots
    exact hobject
  · intro h
    rw [h]
    rfl

theorem accepts_table (limit : Nat) :
    Accepts limit (table limit) fun w t => Record (tableFields t) w := by
  refine (places_table limit).accepts_record ?_ ?_ (row_tableInOrder limit) tableByName_eq_ok_iff
    "struct HashTable"
  · intro c hc
    simp only [tableCells, List.mem_cons, List.not_mem_nil, or_false] at hc
    rcases hc with rfl | rfl | rfl | rfl | rfl
    all_goals rfl
  · intro s t
    simp only [tableCells, List.forall_mem_cons]
    constructor
    · rintro ⟨hseed, hmin, hmax, hdisplacements, hslots, -⟩
      obtain ⟨seed, minLen, maxLen, displacements, slots⟩ := s
      obtain rfl : seed = some t.seed := hseed
      obtain rfl : minLen = some t.minLen := hmin
      obtain rfl : maxLen = some t.maxLen := hmax
      obtain rfl : displacements = some t.displacements := hdisplacements
      obtain rfl : slots = some t.slots := hslots
      rfl
    · rintro rfl
      exact ⟨rfl, rfl, rfl, rfl, rfl, fun _ h => absurd h List.not_mem_nil⟩

/-- **A table is read from its documents and from nothing else.** No document is one of two tables,
and what is written for a table is one of its documents. -/
theorem parse_eq_ok_iff_document :
    (∀ bytes t, parse bytes = .ok t ↔ Document bytes t) ∧
      (∀ bytes t t', Document bytes t → Document bytes t' → t = t') ∧
      ∀ t : HashTable, t.minLen < UInt64.size → t.maxLen < UInt64.size →
        Document (render t).utf8 t := by
  have hparse : ∀ bytes t, parse bytes = .ok t ↔ Document bytes t := by
    intro bytes t
    unfold parse
    rw [Json.document_eq_ok_iff accepts_table]
    constructor
    · rintro ⟨bs, w, bs', hbs, hw, hbs', rfl⟩
      exact .mk hbs hw hbs'
    · rintro ⟨hbs, hw, hbs'⟩
      exact ⟨_, _, _, hbs, hw, hbs', rfl⟩
  refine ⟨hparse, ?_, ?_⟩
  · intro bytes t t' h h'
    exact Except.ok.inj (((hparse bytes t).mpr h).symm.trans ((hparse bytes t').mpr h'))
  · intro t hmin hmax
    exact (hparse _ t).mp (parse_utf8_render hmin hmax)

/-- A document of a table with little in its plain form: the table and a slot are lists, the other
slot has its fields in the other order and an unknown one between them, which holds what could not
be read, the kind is an object and the text has an escape. -/
def respelt : String :=
  "\t[ 18446744073709551615,0 , 4,\r\n[[1,4294967295]],[\x7b\"kind\" :\x7b\"If\": null\x7d," ++
    "\"note\":[\x7b\"\":[-1e999,\"\\ud800\"]\x7d,[]],\"text\":\"\\u0069f\"\x7d," ++
    " [\"else\",\"Else\"]] ]\n"

def respeltTable : HashTable where
  seed := 0xFFFFFFFFFFFFFFFF
  minLen := 0
  maxLen := 4
  displacements := [⟨1, 0xFFFFFFFF⟩]
  slots := [⟨"if", .ifWord⟩, ⟨"else", .elseWord⟩]

theorem document_respelt :
    Document respelt.utf8 respeltTable ∧ Document (render respeltTable).utf8 respeltTable ∧
      (∀ t, ¬ Document "[1,0,4,[[1,4294967296]],[]]".utf8 t) ∧
      ∀ t, ¬ Document "[1,0,4,[],[],0]".utf8 t := by
  obtain ⟨hparse, -, hrender⟩ := parse_eq_ok_iff_document
  have hread : parse respelt.utf8 = .ok respeltTable := by decide +kernel
  refine ⟨(hparse _ _).mp hread, hrender respeltTable (by decide) (by decide), ?_, ?_⟩
  · intro t h
    have hwide : parse "[1,0,4,[[1,4294967296]],[]]".utf8
        = .error (.invalidValue 4294967296 "u32") := by decide +kernel
    exact absurd (hwide.symm.trans ((hparse _ t).mpr h)) (by simp)
  · intro t h
    have hlong : parse "[1,0,4,[],[],0]".utf8 = .error .trailingCharacters := by decide +kernel
    exact absurd (hlong.symm.trans ((hparse _ t).mpr h)) (by simp)

end TableJson

end Reserved
