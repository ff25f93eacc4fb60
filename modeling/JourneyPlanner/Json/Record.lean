import JourneyPlanner.Json.Value

/-!
Records with named fields, written as an object or as the list of their values in the order of the
fields. The fields are checked as they are met: an unknown name, where the record is closed, and a
name met before are refused before their values are read. Choices between names are written as a
string, or as an object whose only member has the chosen name and no value.
-/

namespace JourneyPlanner.Json

/-- How each field adds its value to the record read so far. -/
structure Record (σ : Type) where
  fields : List (String × (σ → Reader σ))
  closed : Bool

namespace Record

/-- A member of the object, with the names met before it. -/
def member (r : Record σ) (s : List String × σ) : Reader (List String × σ) := do
  let name ← Reader.string
  match r.fields.find? (·.1 = name) with
  | some (_, read) =>
      if s.1.contains name then Reader.fail .unsuitable
      else
        Reader.colon
        return (name :: s.1, ← read s.2)
  | none =>
      if r.closed then Reader.fail .unsuitable
      else
        Reader.colon
        let _ ← Reader.value
        return s

/-- Whether a list goes on; the comma before a next element is taken. -/
def goesOn (first : Bool) : Reader Bool :=
  Reader.afterSpace do
    match ← Reader.peek with
    | none => Reader.fail .truncated
    | some ']' => return false
    | some c =>
        if first then return true
        else if c = ',' then
          Reader.skip
          Reader.afterSpace do
            match ← Reader.peek with
            | none => Reader.fail .truncated
            | some ']' => Reader.fail .malformed
            | some _ => return true
        else Reader.fail .malformed

/-- The values of a list, which may stop before the last field. -/
def positions : List (String × (σ → Reader σ)) → (first : Bool) → σ → Reader σ
  | [], _, s => return s
  | (_, read) :: more, first, s => do
      if ← goesOn first then positions more false (← read s)
      else return s

def closeList : Reader Unit :=
  Reader.afterSpace (Reader.expect [']'])

/-- The record is complete when `finish` gives a value. -/
def read (r : Record σ) (start : σ) (finish : σ → Option α) : Reader α :=
  Reader.afterSpace do
    match ← Reader.peek with
    | some '\x7b' =>
        Reader.skip
        let s ← members r.member ([], start)
        Reader.check (finish s.2)
    | some '[' =>
        Reader.skip
        let s ← positions r.fields true start
        let a ← Reader.check (finish s)
        closeList
        return a
    | _ => Reader.notOfKind

end Record

/-- A choice among names. -/
def Reader.choice (parse : String → Option α) : Reader α :=
  afterSpace do
    match ← peek with
    | none => fail .truncated
    | some '"' => parsed parse
    | some '\x7b' =>
        skip
        let a ← parsed parse
        colon
        afterSpace do
          if (← peek) = some 'n' then expect "null".toList else notOfKind
        afterSpace (expect ['\x7d'])
        return a
    | some _ => fail .malformed

end JourneyPlanner.Json
