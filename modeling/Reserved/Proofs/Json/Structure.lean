import Reserved.Proofs.Json.Text

/-!
# Values that are read back

`Reads` says that a reader takes some bytes for a value, whatever blanks stand before them and
whatever follows that ends a value. Numbers, strings and names are read so, and with them the
lists and the objects that are laid out of values which are: between two parts stands a comma,
and blanks may stand wherever they say nothing.

The limit to the number of parts is never felt. Each part takes at least a byte, so the length
of what is read is a limit no list or object in it exceeds.
-/

namespace Reserved

namespace Json

variable {α σ : Type}

/-- Bytes that a value may begin with: a blank would be passed over, and a closing bracket
would end the list that the value stands in. -/
def Begins (w : List UInt8) : Prop :=
  ∃ b rest, w = b :: rest ∧ isBlank b = false ∧ b ≠ ']'.toUInt8

/-- `r` takes `w` for `x`. -/
structure Reads (r : Reader α) (w : List UInt8) (x : α) : Prop where
  begins : Begins w
  reads : ∀ {bs rest : List UInt8}, Blanks bs → Ended rest → r (bs ++ (w ++ rest)) = .ok (x, rest)

theorem blanks_nil : Blanks [] :=
  fun _ hb => absurd hb List.not_mem_nil

/-- Without blanks before it. -/
theorem Reads.here {r : Reader α} {w rest : List UInt8} {x : α} (h : Reads r w x)
    (hrest : Ended rest) : r (w ++ rest) = .ok (x, rest) :=
  h.reads blanks_nil hrest

/-! ## One byte -/

/-- `read` passes over `b` and the blanks before it, and over nothing else. -/
structure Passes (read : List UInt8 → Except Error (List UInt8)) (b : UInt8) : Prop where
  append : ∀ {bs : List UInt8}, Blanks bs → ∀ rest, read (bs ++ b :: rest) = .ok rest
  before : ∀ {cs rest : List UInt8}, read cs = .ok rest → ∃ bs, Blanks bs ∧ cs = bs ++ b :: rest

theorem passes_of_iff {read : List UInt8 → Except Error (List UInt8)} {b : UInt8}
    (hblank : isBlank b = false)
    (h : ∀ cs rest, read cs = .ok rest ↔ skipBlanks cs = b :: rest) : Passes read b where
  append hbs rest := (h _ rest).mpr (skipBlanks_append hbs rest hblank)
  before hread := exists_blanks ((h _ _).mp hread)

theorem passes_endList : Passes endList ']'.toUInt8 := by
  refine passes_of_iff (by decide) fun cs rest => ?_
  unfold endList
  cases skipBlanks cs with
  | nil => simp
  | cons c after =>
      by_cases hc : c = ']'.toUInt8
      · simp [hc]
      · simp only [hc, if_false, List.cons.injEq, false_and, iff_false]
        split
        · split <;> simp
        · simp

theorem passes_colon : Passes colon ':'.toUInt8 := by
  refine passes_of_iff (by decide) fun cs rest => ?_
  unfold colon
  cases skipBlanks cs with
  | nil => simp
  | cons c after => by_cases hc : c = ':'.toUInt8 <;> simp [hc]

theorem passes_onlyKey : Passes onlyKey '"'.toUInt8 := by
  refine passes_of_iff (by decide) fun cs rest => ?_
  unfold onlyKey
  cases skipBlanks cs with
  | nil => simp
  | cons c after => by_cases hc : c = '"'.toUInt8 <;> simp [hc]

/-! ## Values without parts -/

theorem reads_unsigned (wanted : String) {limit n : Nat} (hn : n < limit)
    (hlimit : limit ≤ UInt64.size) : Reads (unsigned wanted limit) (decimal n) n := by
  obtain ⟨b, w, hw⟩ := List.exists_cons_of_ne_nil (decimal_ne_nil n)
  have hdigit : isDigit b = true := by
    refine isDigit_of_mem_decimal n b ?_
    rw [hw]
    exact List.mem_cons_self
  obtain ⟨hblank, hbracket, hminus⟩ := lead_of_isDigit hdigit
  refine ⟨⟨b, w, hw, hblank, hbracket⟩, ?_⟩
  intro bs rest hbs hrest
  have hnumber := number_decimal (by omega : n < UInt64.size) hrest
  rw [hw, List.cons_append] at hnumber
  have hrange : (0 : Int) ≤ (n : Int) ∧ (n : Int) < (limit : Int) := by omega
  unfold unsigned
  rw [hw, List.cons_append, skipBlanks_append hbs _ hblank]
  dsimp only
  rw [if_neg hminus, if_pos hdigit, hnumber]
  show (if 0 ≤ (n : Int) ∧ (n : Int) < (limit : Int) then
    Except.ok ((n : Int).toNat, rest) else _) = _
  rw [if_pos hrange, Int.toNat_natCast]

theorem begins_quote (w : List UInt8) : Begins ('"'.toUInt8 :: w) :=
  ⟨_, w, rfl, by decide, by decide⟩

theorem reads_string (wanted : String) (s : String) :
    Reads (string wanted) (TableJson.renderString s).utf8 s := by
  rw [utf8_renderString]
  refine ⟨begins_quote _, ?_⟩
  intro bs rest hbs _
  unfold string
  rw [List.cons_append, skipBlanks_append hbs _ (by decide)]
  dsimp only
  rw [if_pos rfl, List.append_assoc]
  exact stringBody_escaped s rest

theorem reads_variant {find? : String → Option α} {name : String} {x : α}
    (known : List String) (h : find? name = some x) :
    Reads (variant find? known) (TableJson.renderString name).utf8 x := by
  rw [utf8_renderString]
  refine ⟨begins_quote _, ?_⟩
  intro bs rest hbs _
  unfold variant
  rw [List.cons_append, skipBlanks_append hbs _ (by decide)]
  dsimp only
  rw [if_pos rfl, List.append_assoc, List.singleton_append, stringBody_escaped]
  rw [ok_bind]
  dsimp only
  rw [h]
  rfl

/-! ## Lists -/

/-- What may stand before a part of a list or an object: blanks, and a comma among them unless
the part is the first. -/
def Separates : Bool → List UInt8 → Prop
  | true, sep => Blanks sep
  | false, sep => ∃ bs bs', Blanks bs ∧ Blanks bs' ∧ sep = bs ++ ','.toUInt8 :: bs'

theorem Separates.ended {sep : List UInt8} (h : Separates false sep) (rest : List UInt8) :
    Ended (sep ++ rest) := by
  obtain ⟨bs, bs', hbs, -, rfl⟩ := h
  rw [List.append_assoc]
  exact Ended.blanks_append hbs (ended_cons _ (by decide))

/-- `w` is the inside of a list of `xs`, or what is left of one, up to the closing bracket. -/
inductive Inside (element : Reader α) : Bool → List UInt8 → List α → Prop
  | done {first : Bool} {bs : List UInt8} : Blanks bs → Inside element first bs []
  | part {first : Bool} {sep w more : List UInt8} {x : α} {xs : List α} :
      Separates first sep → Reads element w x → Inside element false more xs →
      Inside element first (sep ++ (w ++ more)) (x :: xs)

/-- Whatever is left of a list ends the element before it. -/
theorem Inside.ended {element : Reader α} {w : List UInt8} {xs : List α}
    (h : Inside element false w xs) (rest : List UInt8) : Ended (w ++ ']'.toUInt8 :: rest) := by
  cases h with
  | done hbs => exact Ended.blanks_append hbs (ended_cons _ (by decide))
  | part hsep _ _ =>
      rw [List.append_assoc]
      exact hsep.ended _

theorem nextElement_part {first : Bool} {sep w : List UInt8} (hsep : Separates first sep)
    (hw : Begins w) (rest : List UInt8) :
    nextElement first (sep ++ (w ++ rest)) = .ok (some (w ++ rest)) := by
  obtain ⟨b, w, rfl, hblank, hbracket⟩ := hw
  unfold nextElement
  cases first with
  | true =>
      rw [List.cons_append, skipBlanks_append hsep _ hblank]
      dsimp only
      rw [if_neg hbracket, if_pos rfl]
  | false =>
      obtain ⟨bs, bs', hbs, hbs', rfl⟩ := hsep
      have hcomma : ¬ ','.toUInt8 = ']'.toUInt8 := by decide
      rw [List.append_assoc, List.cons_append, List.cons_append,
        skipBlanks_append hbs _ (by decide)]
      dsimp only
      rw [if_neg hcomma, if_neg Bool.false_ne_true, if_pos rfl, skipBlanks_append hbs' _ hblank]
      dsimp only
      rw [if_neg hbracket]

theorem nextElement_done (first : Bool) {bs : List UInt8} (hbs : Blanks bs) (rest : List UInt8) :
    nextElement first (bs ++ ']'.toUInt8 :: rest) = .ok none := by
  unfold nextElement
  rw [skipBlanks_append hbs _ (by decide)]
  dsimp only
  rw [if_pos rfl]

/-- The inside of a list is read up to the blanks before its closing bracket. -/
theorem elements_inside {element : Reader α} {first : Bool} {w : List UInt8} {xs : List α}
    (h : Inside element first w xs) (rest : List UInt8) : ∀ limit, w.length < limit →
    ∃ bs, Blanks bs ∧ elements element limit first (w ++ ']'.toUInt8 :: rest)
      = .ok (xs, bs ++ ']'.toUInt8 :: rest) := by
  induction h with
  | @done first bs hbs =>
      intro limit hlimit
      obtain ⟨limit, rfl⟩ := Nat.exists_eq_add_of_lt hlimit
      refine ⟨bs, hbs, ?_⟩
      rw [elements, nextElement_done first hbs]
      rfl
  | @part first sep w more x xs hsep hw hmore ih =>
      intro limit hlimit
      have hpos : 0 < w.length := by
        obtain ⟨b, w, rfl, -, -⟩ := hw.begins
        exact Nat.zero_lt_succ _
      rw [List.length_append, List.length_append] at hlimit
      obtain ⟨limit, rfl⟩ : ∃ n, limit = n + 1 := ⟨limit - 1, by omega⟩
      obtain ⟨bs, hbs, hrest⟩ := ih limit (by omega)
      refine ⟨bs, hbs, ?_⟩
      rw [List.append_assoc, List.append_assoc, elements, nextElement_part hsep hw.begins]
      rw [ok_bind]
      dsimp only
      rw [hw.here (hmore.ended rest), ok_bind]
      dsimp only
      rw [hrest]
      rfl

theorem begins_bracket (w : List UInt8) : Begins ('['.toUInt8 :: w) :=
  ⟨_, w, rfl, by decide, by decide⟩

/-- A list is read by what reads the inside of it. -/
theorem reads_bracketed (wanted : String) {parts : Reader α} {w : List UInt8} {x : α}
    (h : ∀ rest, ∃ bs, Blanks bs ∧
      parts (w ++ ']'.toUInt8 :: rest) = .ok (x, bs ++ ']'.toUInt8 :: rest)) :
    Reads (bracketed wanted parts) ('['.toUInt8 :: (w ++ [']'.toUInt8])) x := by
  refine ⟨begins_bracket _, ?_⟩
  intro bs rest hbs _
  obtain ⟨bs', hbs', hparts⟩ := h rest
  unfold bracketed
  rw [List.cons_append, List.append_assoc, List.singleton_append,
    skipBlanks_append hbs _ (by decide)]
  dsimp only
  rw [if_pos rfl, hparts]
  show (do
    let left ← endList (bs' ++ ']'.toUInt8 :: rest)
    Except.ok (x, left)) = _
  rw [passes_endList.append hbs']
  rfl

theorem reads_listOf {element : Reader α} {w : List UInt8} {xs : List α}
    (h : Inside element true w xs) {limit : Nat} (hlimit : w.length < limit) :
    Reads (listOf limit element) ('['.toUInt8 :: (w ++ [']'.toUInt8])) xs :=
  reads_bracketed _ fun rest => elements_inside h rest limit hlimit

theorem elementAt_part (wanted : String) {i : Nat} {element : Reader α} {sep w rest : List UInt8}
    {x : α} (hsep : Separates (i == 0) sep) (hw : Reads element w x) (hrest : Ended rest) :
    elementAt wanted i element (sep ++ (w ++ rest)) = .ok (x, rest) := by
  unfold elementAt
  rw [nextElement_part hsep hw.begins]
  exact hw.here hrest

/-! ## Objects -/

/-- `w` is the inside of an object that takes the fields `s` on to `s'`, or what is left of
one, up to the closing brace. -/
inductive Members (field : String → σ → Reader σ) : Bool → σ → List UInt8 → σ → Prop
  | done {first : Bool} {s : σ} {bs : List UInt8} : Blanks bs → Members field first s bs s
  | part {first : Bool} {sep value more : List UInt8} {name : String} {s s' s'' : σ} :
      Separates first sep →
      (∀ rest, Ended rest → field name s (value ++ rest) = .ok (s', rest)) →
      Members field false s' more s'' →
      Members field first s
        (sep ++ '"'.toUInt8 :: (escaped name ++ '"'.toUInt8 :: (value ++ more))) s''

/-- Whatever is left of an object ends the value before it. -/
theorem Members.ended {field : String → σ → Reader σ} {s s' : σ} {w : List UInt8}
    (h : Members field false s w s') (rest : List UInt8) : Ended (w ++ '\x7d'.toUInt8 :: rest) := by
  cases h with
  | done hbs => exact Ended.blanks_append hbs (ended_cons _ (by decide))
  | part hsep _ _ =>
      rw [List.append_assoc]
      exact hsep.ended _

theorem nextKey_part {first : Bool} {sep : List UInt8} (hsep : Separates first sep)
    (rest : List UInt8) : nextKey first (sep ++ '"'.toUInt8 :: rest) = .ok (.key rest) := by
  have hbrace : ¬ '"'.toUInt8 = '\x7d'.toUInt8 := by decide
  unfold nextKey
  cases first with
  | true =>
      rw [skipBlanks_append hsep _ (by decide)]
      dsimp only
      rw [if_neg hbrace, if_pos rfl, if_pos rfl]
  | false =>
      obtain ⟨bs, bs', hbs, hbs', rfl⟩ := hsep
      have hcomma : ¬ ','.toUInt8 = '\x7d'.toUInt8 := by decide
      rw [List.append_assoc, List.cons_append, skipBlanks_append hbs _ (by decide)]
      dsimp only
      rw [if_neg hcomma, if_neg Bool.false_ne_true, if_pos rfl,
        skipBlanks_append hbs' _ (by decide)]
      dsimp only
      rw [if_pos rfl]

theorem nextKey_done (first : Bool) {bs : List UInt8} (hbs : Blanks bs) (rest : List UInt8) :
    nextKey first (bs ++ '\x7d'.toUInt8 :: rest) = .ok (.done rest) := by
  unfold nextKey
  rw [skipBlanks_append hbs _ (by decide)]
  dsimp only
  rw [if_pos rfl]

/-- **The inside of an object is read field by field.** -/
theorem object_members {field : String → σ → Reader σ} {first : Bool} {s s' : σ} {w : List UInt8}
    (h : Members field first s w s') (rest : List UInt8) : ∀ limit, w.length < limit →
    object field limit first s (w ++ '\x7d'.toUInt8 :: rest) = .ok (s', rest) := by
  induction h with
  | @done first s bs hbs =>
      intro limit hlimit
      obtain ⟨limit, rfl⟩ := Nat.exists_eq_add_of_lt hlimit
      rw [object, nextKey_done first hbs]
      rfl
  | @part first sep value more name s s' s'' hsep hvalue hmore ih =>
      intro limit hlimit
      simp only [List.length_append, List.length_cons] at hlimit
      obtain ⟨limit, rfl⟩ : ∃ n, limit = n + 1 := ⟨limit - 1, by omega⟩
      have hrest := ih limit (by omega)
      simp only [List.append_assoc, List.cons_append]
      rw [object, nextKey_part hsep]
      rw [ok_bind]
      dsimp only
      rw [stringBody_escaped, ok_bind]
      dsimp only
      rw [hvalue _ (hmore.ended rest), ok_bind]
      exact hrest

/-- A field of a known name takes a value that has not been set before. -/
theorem fieldValue_append (name : String) {value : Reader α} {bs bs' w rest : List UInt8} {x : α}
    (hbs : Blanks bs) (hbs' : Blanks bs') (hw : Reads value w x) (hrest : Ended rest) :
    fieldValue name false value (bs ++ ':'.toUInt8 :: (bs' ++ (w ++ rest))) = .ok (x, rest) := by
  unfold fieldValue
  rw [if_neg Bool.false_ne_true, passes_colon.append hbs]
  exact hw.reads hbs' hrest

/-- A record is read by what reads the object of its fields. -/
theorem reads_record (wanted : String) (inOrder : Reader α) {byName : Reader α} {w : List UInt8}
    {x : α} (h : ∀ rest, byName (w ++ '\x7d'.toUInt8 :: rest) = .ok (x, rest)) :
    Reads (record wanted inOrder byName) ('\x7b'.toUInt8 :: (w ++ ['\x7d'.toUInt8])) x := by
  have hbracket : ¬ '\x7b'.toUInt8 = '['.toUInt8 := by decide
  refine ⟨⟨_, _, rfl, by decide, by decide⟩, ?_⟩
  intro bs rest hbs _
  unfold record
  rw [List.cons_append, List.append_assoc, List.singleton_append,
    skipBlanks_append hbs _ (by decide)]
  dsimp only
  rw [if_neg hbracket, if_pos rfl]
  exact h rest

/-- A document holds the value it is read as; only blanks may follow. -/
theorem document_append {value : Nat → Reader α} {w bs : List UInt8} {x : α} (hbs : Blanks bs)
    (h : Reads (value ((w ++ bs).length + 1)) w x) : document value (w ++ bs) = .ok x := by
  have hended : Ended bs := by
    have := Ended.blanks_append hbs (fun _ hb => absurd hb (by simp) : Ended [])
    rwa [List.append_nil] at this
  unfold document
  rw [h.here hended]
  show (if (skipBlanks bs).isEmpty then Except.ok x else _) = _
  rw [skipBlanks_of_blanks hbs]
  rfl

end Json

end Reserved
