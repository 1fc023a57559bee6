import Reserved.Proofs.Text.Numeral
import Reserved.Table.Basic

/-!
# Reading an artifact

An artifact is source text, so what it declares is a matter of the language it is written
in, not of the function that writes it. This module reads a declaration by the rules of that
language: white space separates lexemes and means nothing else, a numeral is decimal or, after
`0x`, hexadecimal, and a string literal may hold escapes.

Lexemes are told apart by a machine that takes one character at a time. What it does on a text
that is written piece by piece is then what it does on the pieces, one after the other.
-/

namespace Reserved

namespace Source

inductive Lexeme
  /-- A name or a numeral. -/
  | word (cs : List Char)
  /-- A string literal, as the text it stands for. -/
  | text (cs : List Char)
  | mark (c : Char)
  deriving DecidableEq, Repr

/-! ## Lexemes -/

/-- Where in a lexeme the machine is, with what it has of the lexeme. -/
inductive Mode
  | between
  | word (soFar : List Char)
  | text (soFar : List Char)
  /-- After a backslash. -/
  | escape (soFar : List Char)
  /-- After a backslash and a `u`. -/
  | opening (soFar : List Char)
  | code (soFar digits : List Char)
  deriving DecidableEq, Repr

def isSpace (c : Char) : Bool :=
  c ∈ [' ', '\t', '\n', '\r']

def isMark (c : Char) : Bool :=
  c ∈ ":=&,;()[]\x7b\x7d".toList

/-- The character that a letter stands for after a backslash. -/
def escaped? : Char → Option Char
  | '0' => some '\x00'
  | 't' => some '\t'
  | 'n' => some '\n'
  | 'r' => some '\r'
  | '"' => some '"'
  | '\\' => some '\\'
  | _ => none

/-- The character with a number in hexadecimal digits. -/
def character? (digits : List Char) : Option Char := do
  let n ← Numeral.value? 16 digits
  if n.isValidChar then some (Char.ofNat n) else none

/-- A character that no lexeme is open for. -/
def start (c : Char) : Option (List Lexeme × Mode) :=
  if isSpace c then some ([], .between)
  else if isWordPart c then some ([], .word [c])
  else if c = '"' then some ([], .text [])
  else if isMark c then some ([.mark c], .between)
  else none

/-- The lexemes that a character completes, and the mode after it. -/
def step : Mode → Char → Option (List Lexeme × Mode)
  | .between, c => start c
  | .word w, c =>
    if isWordPart c then some ([], .word (w ++ [c]))
    -- a word right before a quote would make it another kind of literal
    else if c = '"' then none
    else (start c).map fun (ts, m) => (.word w :: ts, m)
  | .text s, c =>
    if c = '"' then some ([.text s], .between)
    else if c = '\\' then some ([], .escape s)
    else if c = '\r' then none
    else some ([], .text (s ++ [c]))
  | .escape s, c =>
    if c = 'u' then some ([], .opening s)
    else (escaped? c).map fun e => ([], .text (s ++ [e]))
  | .opening s, c => if c = '\x7b' then some ([], .code s []) else none
  | .code s digits, c =>
    if c = '\x7d' then (character? digits).map fun e => ([], .text (s ++ [e]))
    else if digits.length < 6 then some ([], .code s (digits ++ [c]))
    else none

def run : Mode → List Char → Option (List Lexeme × Mode)
  | m, [] => some ([], m)
  | m, c :: cs => do
    let (ts, m) ← step m c
    let (rest, m) ← run m cs
    return (ts ++ rest, m)

/-- The lexemes of a text that ends with a complete one. -/
def lexemes? (cs : List Char) : Option (List Lexeme) :=
  match run .between cs with
  | some (ts, .between) => some ts
  | _ => none

/-! ## Values -/

/-- The number that a word is a numeral of. -/
def number? : List Char → Option Nat
  | '0' :: 'x' :: digits => Numeral.value? 16 digits
  | digits => Numeral.value? 10 digits

def word64? (cs : List Char) : Option UInt64 := do
  let n ← number? cs
  if n < UInt64.size then some (UInt64.ofNat n) else none

def word32? (cs : List Char) : Option UInt32 := do
  let n ← number? cs
  if n < UInt32.size then some (UInt32.ofNat n) else none

/-! ## The declaration -/

/-- What follows the given lexemes. -/
def after? (wanted ts : List Lexeme) : Option (List Lexeme) :=
  if wanted.isPrefixOf ts then some (ts.drop wanted.length) else none

/-- The value of a field that is a numeral, and what follows it. -/
def field? (name : String) (ts : List Lexeme) : Option (List Char × List Lexeme) := do
  match ← after? [.word name.toList, .mark ':'] ts with
  | .word value :: .mark ',' :: rest => some (value, rest)
  | _ => none

/-- The pairs of numerals up to the end of a list. -/
def pairs? : List Lexeme → Option (List (UInt32 × UInt32) × List Lexeme)
  | .mark ']' :: .mark ',' :: rest => some ([], rest)
  | .mark '(' :: .word a :: .mark ',' :: .word b :: .mark ')' :: .mark ',' :: rest => do
    let pair := (← word32? a, ← word32? b)
    let (pairs, rest) ← pairs? rest
    return (pair :: pairs, rest)
  | _ => none

/-- The pairs of a text and a kind up to the end of a list. -/
def slots? : List Lexeme → Option (List (String × TokenKind) × List Lexeme)
  | .mark ']' :: .mark ',' :: rest => some ([], rest)
  | .mark '(' :: .text s :: .mark ',' :: .word path :: .mark ':' :: .mark ':' :: .word name
      :: .mark ')' :: .mark ',' :: rest => do
    let kind ← if path = "TokenKind".toList then TokenKind.ofName? (String.ofList name) else none
    let (slots, rest) ← slots? rest
    return ((String.ofList s, kind) :: slots, rest)
  | _ => none

/-- The lexemes that a list begins with when it is the value of a field. -/
def listOpening (name : String) : List Lexeme :=
  [.word name.toList, .mark ':', .mark '&', .mark '[']

/-- The line that a declaration begins with. -/
def heading : List Char :=
  "pub static KEYWORDS: StaticTable = StaticTable \x7b".toList

/-- The lexemes of the heading. -/
def headingLexemes : List Lexeme :=
  [.word "pub".toList, .word "static".toList, .word "KEYWORDS".toList, .mark ':',
    .word "StaticTable".toList, .mark '=', .word "StaticTable".toList, .mark '\x7b']

/-- The table that a declaration, and nothing after it, declares. -/
def table? (ts : List Lexeme) : Option StaticTable := do
  let ts ← after? headingLexemes ts
  let (seed, ts) ← field? "seed" ts
  let (minLen, ts) ← field? "min_len" ts
  let (maxLen, ts) ← field? "max_len" ts
  let ts ← after? (listOpening "displacements") ts
  let (displacements, ts) ← pairs? ts
  let ts ← after? (listOpening "slots") ts
  let (slots, ts) ← slots? ts
  if ts = [.mark '\x7d', .mark ';'] then
    some ⟨← word64? seed, ← number? minLen, ← number? maxLen, displacements, slots⟩
  else none

/-- The table that a source text declares. -/
def read? (cs : List Char) : Option StaticTable := do
  table? (← lexemes? cs)

/-- What a text holds from its last line that equals `mark` on. `fresh` says whether the text
begins a line. -/
def fromLast? (mark : List Char) : Bool → List Char → Option (List Char)
  | fresh, [] => if fresh ∧ mark = [] then some [] else none
  | fresh, c :: rest =>
    match fromLast? mark (c == '\n') rest with
    | some part => some part
    | none =>
      if fresh ∧ (c :: rest).takeWhile (· != '\n') = mark then some (c :: rest) else none

/-- The part of a source text that holds the declaration. -/
def declaration? (cs : List Char) : Option (List Char) :=
  fromLast? heading true cs

/-! ## The machine on pieces -/

theorem run_append : ∀ (m : Mode) (xs ys : List Char),
    run m (xs ++ ys) = (run m xs).bind fun (ts, m) =>
      (run m ys).map fun (us, m) => (ts ++ us, m)
  | m, [], ys => by
      show run m ys = (run m ys).map fun (us, m) => ([] ++ us, m)
      simp
  | m, c :: xs, ys => by
      rw [List.cons_append, run, run]
      cases hstep : step m c with
      | none => rfl
      | some p =>
          obtain ⟨ts, m'⟩ := p
          show (run m' (xs ++ ys)).bind _ = _
          rw [run_append m' xs ys]
          cases hxs : run m' xs with
          | none =>
              simp [hxs]
          | some q =>
              obtain ⟨us, m''⟩ := q
              cases hys : run m'' ys <;> simp [hxs, hys]

/-- A text read as lexemes, from between two lexemes to between two lexemes. -/
def Reads (cs : List Char) (ts : List Lexeme) : Prop :=
  run .between cs = some (ts, .between)

instance (cs : List Char) (ts : List Lexeme) : Decidable (Reads cs ts) :=
  inferInstanceAs (Decidable (_ = _))

theorem Reads.lexemes? {cs : List Char} {ts : List Lexeme} (h : Reads cs ts) :
    lexemes? cs = some ts := by
  unfold Source.lexemes?
  rw [h]

theorem Reads.append {xs ys : List Char} {ts us : List Lexeme} (hx : Reads xs ts)
    (hy : Reads ys us) : Reads (xs ++ ys) (ts ++ us) := by
  unfold Reads
  rw [run_append, hx]
  show (run .between ys).map _ = _
  rw [hy]
  rfl

theorem Reads.flatMap {α : Type} {text : α → List Char} {toks : α → List Lexeme}
    (h : ∀ a, Reads (text a) (toks a)) :
    ∀ as : List α, Reads (as.flatMap text) (as.flatMap toks)
  | [] => rfl
  | a :: as => by
      rw [List.flatMap_cons, List.flatMap_cons]
      exact (h a).append (Reads.flatMap h as)

/-! ## Words -/

theorem run_word : ∀ (w s : List Char), (∀ c ∈ w, isWordPart c = true) →
    run (.word s) w = some ([], .word (s ++ w))
  | [], s, _ => by
      rw [List.append_nil]
      rfl
  | c :: w, s, h => by
      have hc : step (.word s) c = some ([], .word (s ++ [c])) := if_pos (h c List.mem_cons_self)
      have ih := run_word w (s ++ [c]) fun x hx => h x (List.mem_cons_of_mem _ hx)
      rw [run, hc]
      show (run (.word (s ++ [c])) w).bind _ = _
      rw [ih, List.append_assoc]
      rfl

theorem start_of_isWordPart {c : Char} (h : isWordPart c = true) :
    start c = some ([], .word [c]) := by
  have hspace : isSpace c = false := by
    rw [Bool.eq_false_iff]
    intro hs
    simp only [isSpace, List.mem_cons, List.not_mem_nil, or_false, decide_eq_true_eq] at hs
    rcases hs with rfl | rfl | rfl | rfl <;> exact absurd h (by decide)
  unfold start
  rw [hspace, h]
  rfl

theorem not_word_of_isMark {c : Char} (h : isMark c = true) :
    isWordPart c = false ∧ c ≠ '"' := by
  have hall : (":=&,;()[]\x7b\x7d".toList.all fun d => !isWordPart d && d != '"') = true := by
    decide
  have hc := List.all_eq_true.mp hall c (of_decide_eq_true h)
  simpa using hc

/-- A word ends at a mark. -/
theorem Reads.word {w cs : List Char} {c : Char} {ts : List Lexeme} (hne : w ≠ [])
    (hw : ∀ x ∈ w, isWordPart x = true) (hmark : isMark c = true) (h : Reads (c :: cs) ts) :
    Reads (w ++ c :: cs) (.word w :: ts) := by
  obtain ⟨hc, hquote⟩ := not_word_of_isMark hmark
  obtain ⟨d, ds, rfl⟩ := List.exists_cons_of_ne_nil hne
  have hopen : run .between (d :: ds) = some ([], .word (d :: ds)) := by
    rw [run, step, start_of_isWordPart (hw d List.mem_cons_self)]
    show (run (.word [d]) ds).bind _ = _
    rw [run_word ds [d] fun x hx => hw x (List.mem_cons_of_mem _ hx)]
    rfl
  have hclose : step (.word (d :: ds)) c
      = (start c).map fun (us, m) => (.word (d :: ds) :: us, m) := by
    rw [step, if_neg (by rw [hc]; decide), if_neg hquote]
  -- the mark is read as it would be on its own
  unfold Reads at h ⊢
  rw [run_append, hopen]
  show (run (.word (d :: ds)) (c :: cs)).map _ = _
  rw [run, hclose]
  rw [run, step] at h
  cases hstart : start c with
  | none =>
      rw [hstart] at h
      exact absurd h (by simp)
  | some p =>
      obtain ⟨us, m⟩ := p
      rw [hstart] at h
      cases hrun : run m cs with
      | none =>
          simp [hrun] at h
      | some q =>
          simp [hrun] at h ⊢
          exact h

/-! ## Lines -/

theorem takeWhile_line {l : List Char} (h : '\n' ∉ l) (rest : List Char) :
    (l ++ '\n' :: rest).takeWhile (· != '\n') = l := by
  rw [List.takeWhile_append_of_pos]
  · exact List.append_nil l
  · intro c hc
    have hne : c ≠ '\n' := fun hc' => h (hc' ▸ hc)
    simpa using hne

/-- The part from the last line that equals `mark` is looked for after a line first, and then
at the line. -/
theorem fromLast?_line {mark : List Char} (rest : List Char) : ∀ {l : List Char} (fresh : Bool),
    '\n' ∉ l → fromLast? mark fresh (l ++ '\n' :: rest)
      = (fromLast? mark true rest).or
          (if fresh ∧ l = mark then some (l ++ '\n' :: rest) else none)
  | [], fresh, _ => by
      have hfresh : ('\n' == '\n') = true := rfl
      rw [List.nil_append, fromLast?, hfresh]
      cases fromLast? mark true rest <;> rfl
  | c :: l, fresh, h => by
      have hne : c ≠ '\n' := fun hc => h (hc ▸ List.mem_cons_self)
      have hl : '\n' ∉ l := fun hl => h (List.mem_cons_of_mem _ hl)
      have hfresh : (c == '\n') = false := by simpa using hne
      have htake := takeWhile_line h rest
      rw [List.cons_append] at htake ⊢
      -- within a line no line begins, so only the whole of it can equal `mark`
      rw [fromLast?, hfresh, fromLast?_line rest false hl, htake]
      cases fromLast? mark true rest with
      | none => simp
      | some part => rfl

def ended (l : List Char) : List Char :=
  l ++ ['\n']

/-- A text in which no line equals `mark` has no such part. -/
theorem fromLast?_lines {mark : List Char} (hmark : mark ≠ []) : ∀ ls : List (List Char),
    (∀ l ∈ ls, '\n' ∉ l ∧ l ≠ mark) → fromLast? mark true (ls.flatMap ended) = none
  | [], _ => if_neg fun h => hmark h.2
  | l :: ls, h => by
      obtain ⟨hl, hne⟩ := h l List.mem_cons_self
      have ih := fromLast?_lines hmark ls fun x hx => h x (List.mem_cons_of_mem _ hx)
      rw [List.flatMap_cons, ended, List.append_assoc]
      show fromLast? mark true (l ++ '\n' :: ls.flatMap ended) = none
      rw [fromLast?_line _ true hl, ih, if_neg fun h => hne h.2]
      rfl

/-- Whatever lines stand before it, the last line that equals `mark` is found. -/
theorem fromLast?_before {mark part : List Char} (h : fromLast? mark true part = some part) :
    ∀ (before : List Char) (fresh : Bool), fromLast? mark fresh (before ++ '\n' :: part) = some part
  | [], fresh => by
      show fromLast? mark fresh ('\n' :: part) = some part
      have hfresh : ('\n' == '\n') = true := rfl
      rw [fromLast?, hfresh, h]
  | c :: before, fresh => by
      rw [List.cons_append, fromLast?, fromLast?_before h before]

end Source

end Reserved
