import Reserved.Proofs.Json.Numeral
import Reserved.Proofs.Json.Quoted
import Reserved.Proofs.Json.Structure

/-!
# The grammar of JSON

Lists and objects are made in one way: parts stand between an opening and a closing mark, with a
comma between two of them and blanks wherever they say nothing. `Parts` says so for parts of any
kind, each of which may be wanted to be another text; `Value` is the grammar of a value that may be
anything, which is what stands in a field that nobody asked for.

How a place spells what it holds is a `Form`: which texts stand for which values.
-/

namespace Reserved

namespace Json

variable {α : Type}

/-- Which texts stand for a value. -/
abbrev Form (α : Type) := List UInt8 → α → Prop

/-! ## Lists and objects -/

/-- The inside of a list or an object that has the given parts, or what is left of it. -/
inductive Parts : Bool → List (List UInt8 → Prop) → List UInt8 → Prop
  | done {first : Bool} {bs : List UInt8} : Blanks bs → Parts first [] bs
  | part {first : Bool} {sep w more : List UInt8} {part : List UInt8 → Prop}
      {parts : List (List UInt8 → Prop)} :
      Separates first sep → part w → Parts false parts more →
      Parts first (part :: parts) (sep ++ (w ++ more))

/-- A member of an object. -/
inductive Labelled (key value : List UInt8 → Prop) : List UInt8 → Prop
  | mk {k bs bs' v : List UInt8} : key k → Blanks bs → Blanks bs' → value v →
      Labelled key value ('"'.toUInt8 :: (k ++ '"'.toUInt8 :: (bs ++ ':'.toUInt8 :: (bs' ++ v))))

/-- A list of the given parts. -/
inductive Bracketed (parts : List (List UInt8 → Prop)) : List UInt8 → Prop
  | mk {inner : List UInt8} : Parts true parts inner →
      Bracketed parts ('['.toUInt8 :: (inner ++ [']'.toUInt8]))

/-- An object of the given members. -/
inductive Braced (parts : List (List UInt8 → Prop)) : List UInt8 → Prop
  | mk {inner : List UInt8} : Parts true parts inner →
      Braced parts ('\x7b'.toUInt8 :: (inner ++ ['\x7d'.toUInt8]))

/-- The name of a member, however it is spelt. -/
def Named (name : String) (k : List UInt8) : Prop :=
  Unescapes k name.utf8

/-! ## Values -/

def Frame.opening : Frame → UInt8
  | list => '['.toUInt8
  | object => '\x7b'.toUInt8

def Frame.closing : Frame → UInt8
  | list => ']'.toUInt8
  | object => '\x7d'.toUInt8

/-- A value as a part of a list or an object. -/
def Frame.Part : Frame → List UInt8 → List UInt8 → Prop
  | list, v => Eq v
  | object, v => Labelled Loose (Eq v)

/-- A value of any type, which has the form of one. -/
inductive Value : List UInt8 → Prop
  | word {w : List UInt8} : w ∈ ["null".utf8, "true".utf8, "false".utf8] → Value w
  | number {w : List UInt8} : NumberText w → Value w
  | negative {w : List UInt8} : NumberText w → Value ('-'.toUInt8 :: w)
  | string {body : List UInt8} : Loose body → Value ('"'.toUInt8 :: (body ++ ['"'.toUInt8]))
  | within {frame : Frame} {vs : List (List UInt8)} {inner : List UInt8} :
      (∀ v ∈ vs, Value v) → Parts true (vs.map frame.Part) inner →
      Value (frame.opening :: (inner ++ [frame.closing]))

/-! ## Values of a wanted type -/

/-- A string. -/
inductive Quoted : Form String
  | mk {body : List UInt8} {s : String} : Unescapes body s.utf8 →
      Quoted ('"'.toUInt8 :: (body ++ ['"'.toUInt8])) s

/-- A name: as a string, or as the name of the only member of an object, which holds a null. -/
inductive Variant : Form String
  | plain {w : List UInt8} {name : String} : Quoted w name → Variant w name
  | object {w : List UInt8} {name : String} :
      Braced [Labelled (Named name) (Eq "null".utf8)] w → Variant w name

/-- A field of a record: its name, and the texts that may stand for what it holds. -/
structure Field where
  name : String
  form : List UInt8 → Prop

/-- The members of an object by their names, each spelt in some way, and the texts of their
values. -/
def memberForms (ms : List (String × List UInt8)) : List (List UInt8 → Prop) :=
  ms.map fun m => Labelled (Named m.1) (Eq m.2)

/-- A record of the given fields. As an object it has each of them exactly once, and may have
other members, which may hold any values. -/
inductive Record (fields : List Field) : List UInt8 → Prop
  | inOrder {w : List UInt8} : Bracketed (fields.map Field.form) w → Record fields w
  | byName {ms : List (String × List UInt8)} {w : List UInt8} :
      (∀ f ∈ fields, ∃ v, ms.filter (fun m => m.1 = f.name) = [(f.name, v)] ∧ f.form v) →
      (∀ m ∈ ms, m.1 ∉ fields.map Field.name → Value m.2) →
      Braced (memberForms ms) w → Record fields w

/-! ## Where a part begins and ends -/

theorem ne_of_isDigit {b c : UInt8} (h : isDigit b = true) (hc : isDigit c = false) : b ≠ c := by
  rintro rfl
  exact absurd (h.symm.trans hc) (by decide)

theorem NumberText.exists_digit {w : List UInt8} (h : NumberText w) :
    ∃ d rest, w = d :: rest ∧ isDigit d = true := by
  obtain ⟨⟨⟨hne, hdigits⟩, -⟩, -, -⟩ := h
  obtain ⟨d, ds, rfl⟩ := List.exists_cons_of_ne_nil hne
  exact ⟨d, _, rfl, hdigits d List.mem_cons_self⟩

theorem Frame.opening_begins (frame : Frame) (w : List UInt8) : Begins (frame.opening :: w) := by
  refine ⟨frame.opening, w, rfl, ?_, ?_⟩
  · cases frame <;> decide
  · cases frame <;> decide

theorem Frame.closing_ends (frame : Frame) (rest : List UInt8) : Ended (frame.closing :: rest) := by
  refine ended_cons rest ?_
  cases frame <;> decide

theorem Value.begins {w : List UInt8} (h : Value w) : Begins w := by
  cases h with
  | word hw =>
      simp only [List.mem_cons, List.not_mem_nil, or_false] at hw
      rcases hw with rfl | rfl | rfl
      · exact ⟨'n'.toUInt8, "ull".utf8, rfl, by decide, by decide⟩
      · exact ⟨'t'.toUInt8, "rue".utf8, rfl, by decide, by decide⟩
      · exact ⟨'f'.toUInt8, "alse".utf8, rfl, by decide, by decide⟩
  | number hw =>
      obtain ⟨d, rest, rfl, hd⟩ := hw.exists_digit
      obtain ⟨hblank, hbracket, -⟩ := lead_of_isDigit hd
      exact ⟨d, rest, rfl, hblank, hbracket⟩
  | negative _ => exact ⟨'-'.toUInt8, _, rfl, by decide, by decide⟩
  | string _ => exact begins_quote _
  | within _ _ => exact Frame.opening_begins _ _

/-- Whatever is left of a list or an object ends the part before it. -/
theorem Parts.ended {parts : List (List UInt8 → Prop)} {w : List UInt8} (h : Parts false parts w)
    {rest : List UInt8} (hrest : Ended rest) : Ended (w ++ rest) := by
  cases h with
  | done hbs => exact Ended.blanks_append hbs hrest
  | part hsep _ _ =>
      rw [List.append_assoc]
      exact hsep.ended _

/-- Blanks before the first part belong to what separates it. -/
theorem Separates.append {first : Bool} {sep bs : List UInt8} (h : Separates first sep)
    (hbs : Blanks bs) : Separates first (sep ++ bs) := by
  cases first with
  | true => exact Blanks.append h hbs
  | false =>
      obtain ⟨before, after, hbefore, hafter, rfl⟩ := h
      exact ⟨before, after ++ bs, hbefore, hafter.append hbs, by simp⟩

end Json

end Reserved
