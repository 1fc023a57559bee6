import Reserved.Json.Structure

/-!
# Values of a wanted type

Readers for the types that a document may be wanted to hold. A value of another type is
named in the error, for which it is read as far as its name needs.
-/

namespace Reserved.Json

/-- The error for the value that stands next, where `wanted` was wanted. -/
def otherType (wanted : String) (cs : List UInt8) : Error :=
  let found : Except Error Found :=
    match cs with
    | [] => .error .expectedValue
    | b :: rest =>
      let numeric := fun (n : Except Error (Number × List UInt8)) =>
        n.map fun
          | (.integer n, _) => Found.integer n
          | (.float text, _) => Found.float text
      if b = 'n'.toUInt8 then (expectWord "ull".toList rest).map fun _ => .null
      else if b = 't'.toUInt8 then (expectWord "rue".toList rest).map fun _ => .boolean true
      else if b = 'f'.toUInt8 then (expectWord "alse".toList rest).map fun _ => .boolean false
      else if b = '-'.toUInt8 then numeric (number true rest)
      else if isDigit b then numeric (number false (b :: rest))
      else if b = '"'.toUInt8 then (stringBody rest).map fun (s, _) => .string s
      else if b = '['.toUInt8 then .ok .sequence
      else if b = '\x7b'.toUInt8 then .ok .map
      else .error .expectedValue
  match found with
  | .ok found => .invalidType found wanted
  | .error e => e

/-- An integer from zero up to below `limit`. -/
def unsigned (wanted : String) (limit : Nat) : Reader Nat := fun cs => do
  match skipBlanks cs with
  | [] => throw .endInValue
  | b :: rest =>
    let (n, rest) ←
      if b = '-'.toUInt8 then number true rest
      else if isDigit b then number false (b :: rest)
      else throw (otherType wanted (b :: rest))
    match n with
    | .float text => throw (.invalidType (.float text) wanted)
    | .integer n =>
      if 0 ≤ n ∧ n < limit then return (n.toNat, rest) else throw (.invalidValue n wanted)

def string (wanted : String) : Reader String := fun cs =>
  match skipBlanks cs with
  | [] => .error .endInValue
  | b :: rest =>
    if b = '"'.toUInt8 then stringBody rest else .error (otherType wanted (b :: rest))

def null : Reader Unit := fun cs =>
  match skipBlanks cs with
  | [] => .error .endInValue
  | b :: rest =>
    if b = 'n'.toUInt8 then do return ((), ← expectWord "ull".toList rest)
    else .error (otherType "unit" (b :: rest))

/-- A list; `parts` reads what is between its brackets. -/
def bracketed (wanted : String) (parts : Reader α) : Reader α := fun cs =>
  match skipBlanks cs with
  | [] => .error .endInValue
  | b :: rest =>
    if b = '['.toUInt8 then do
      let (x, rest) ← parts rest
      return (x, ← endList rest)
    else .error (otherType wanted (b :: rest))

/-- A list of any length. -/
def listOf (limit : Nat) (element : Reader α) : Reader (List α) :=
  bracketed "a sequence" (elements element limit true)

/-- Element number `i` of a list that has a fixed number of them. -/
def elementAt (wanted : String) (i : Nat) (element : Reader α) : Reader α := fun cs => do
  match ← nextElement (i == 0) cs with
  | none => throw (.invalidLength i wanted)
  | some start => element start

/-- A record: an object of its fields, or the list of them in their order. -/
def record (wanted : String) (inOrder : Reader α) (byName : Reader α) : Reader α := fun cs =>
  match skipBlanks cs with
  | [] => .error .endInValue
  | b :: rest =>
    if b = '['.toUInt8 then do
      let (x, rest) ← inOrder rest
      return (x, ← endList rest)
    else if b = '\x7b'.toUInt8 then byName rest
    else .error (otherType wanted (b :: rest))

/-- The value of a field of a known name, unless it has been set already. -/
def fieldValue (name : String) (already : Bool) (value : Reader α) : Reader α := fun cs =>
  if already then .error (.duplicateField name)
  else do value (← colon cs)

/-- Passes over the value of a field of an unknown name. -/
def unknownField (limit : Nat) (fields : σ) : Reader σ := fun cs => do
  return (fields, ← skipValue limit (← colon cs))

/-- The value of a field that must have been set. -/
def required (name : String) : Option α → Except Error α
  | some x => .ok x
  | none => .error (.missingField name)

/-- Goes to the key of an object that must have one, right after its opening quote. -/
def onlyKey (cs : List UInt8) : Except Error (List UInt8) :=
  match skipBlanks cs with
  | [] => .error .endInObject
  | b :: rest =>
    if b = '"'.toUInt8 then .ok rest
    else .error (if b = '\x7d'.toUInt8 then .expectedValue else .keyNotString)

/-- One of several names: as a string, or as the key of an object that holds a null. -/
def variant (find? : String → Option α) (known : List String) : Reader α := fun cs =>
  let named := fun (name : String) =>
    match find? name with
    | some x => Except.ok x
    | none => .error (.unknownVariant name known)
  match skipBlanks cs with
  | [] => .error .endInValue
  | b :: rest =>
    if b = '"'.toUInt8 then do
      let (name, rest) ← stringBody rest
      return (← named name, rest)
    else if b = '\x7b'.toUInt8 then do
      let (name, rest) ← stringBody (← onlyKey rest)
      let x ← named name
      let ((), rest) ← null (← colon rest)
      match skipBlanks rest with
      | [] => throw .endInObject
      | c :: rest => if c = '\x7d'.toUInt8 then return (x, rest) else throw .expectedValue
    else .error .expectedValue

/-- The value of a whole document: nothing but blanks may follow it. The reader is given a
limit to the parts of lists and objects. -/
def document (value : Nat → Reader α) (cs : List UInt8) : Except Error α := do
  let (x, rest) ← value (cs.length + 1) cs
  if (skipBlanks rest).isEmpty then return x else throw .trailingCharacters

end Reserved.Json
