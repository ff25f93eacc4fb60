import JourneyPlanner.Json.Scalar

/-!
JSON values as a whole: reading one, and writing it without white space. A number is kept as the
text it was written with, so nothing is lost between reading and writing. Of several members of an
object with one name the last one counts.
-/

namespace JourneyPlanner.Json

inductive Value where
  | null
  | bool (b : Bool)
  | number (literal : String)
  | string (text : String)
  | list (elements : List Value)
  | object (members : List (String × Value))
deriving Inhabited

namespace Reader

/-- The characters a number is made of. -/
def isNumberChar (c : Char) : Bool :=
  Text.isDigit c || c == '-' || c == '+' || c == '.' || c == 'e' || c == 'E'

/-- A number, kept as it is written. -/
def literal : Reader String :=
  fun text =>
    let written := text.takeWhile isNumberChar
    let rest := text.dropWhile isNumberChar
    let body := match written with
      | '-' :: more => (numberBody true more).map Found.rest
      | _ => (numberBody false written).map Found.rest
    match body with
    | .error fault => .error (if rest = [] then fault else .malformed)
    | .ok [] => .ok ⟨String.ofList written, rest, (List.dropWhile_sublist _).length_le⟩
    | .ok (_ :: _) => .error .malformed

def colon : Reader Unit :=
  afterSpace (expect [':'])

/-- A scalar, or what the given readers make of a list and of an object, brackets included. -/
def scalarOr (list object : Reader Value) : Reader Value :=
  afterSpace do
    match ← peek with
    | none => fail .truncated
    | some 'n' => do expect "null".toList; return .null
    | some 't' => do expect "true".toList; return .bool true
    | some 'f' => do expect "false".toList; return .bool false
    | some '"' => do
        skip
        return .string (← stringBody "")
    | some '[' => list
    | some '\x7b' => object
    | some c =>
        if c = '-' ∨ Text.isDigit c then return .number (← literal)
        else fail .malformed

/-- A member joins the members read before it and replaces the one of its name. -/
def member (value : Reader Value) (read : Array (String × Value)) :
    Reader (Array (String × Value)) := do
  let name ← string
  colon
  let found ← value
  return (read.filter (·.1 ≠ name)).push (name, found)

/-- A value whose lists and objects are nested in at most `depth` levels. -/
def valueWithin : (depth : Nat) → Reader Value
  | 0 => scalarOr (fail .malformed) (fail .malformed)
  | depth + 1 =>
      scalarOr
        (do skip; return .list (← elements (valueWithin depth)).toList)
        (do skip; return .object (← members (member (valueWithin depth)) #[]).toList)

/-- Documents nest at most 127 levels deep. -/
def value : Reader Value :=
  valueWithin 127

end Reader

def hexDigit (n : Nat) : Char :=
  if n < 10 then Char.ofNat (48 + n) else Char.ofNat (87 + n)

/-- A quotation mark, a backslash and a control character are written as escapes. -/
def quotedChar (c : Char) : List Char :=
  if c = '"' then ['\\', '"']
  else if c = '\\' then ['\\', '\\']
  else if c = '\n' then ['\\', 'n']
  else if c.toNat < 0x20 then
    ['\\', 'u', '0', '0', hexDigit (c.toNat / 16), hexDigit (c.toNat % 16)]
  else [c]

def quoted (text : String) : String :=
  "\"" ++ text.foldl (fun written c => written ++ String.ofList (quotedChar c)) "" ++ "\""

mutual

def Value.write : Value → String
  | .null => "null"
  | .bool b => if b then "true" else "false"
  | .number literal => literal
  | .string text => quoted text
  | .list elements => "[" ++ Value.writeElements elements ++ "]"
  | .object members => "\x7b" ++ Value.writeMembers members ++ "\x7d"

def Value.writeElements : List Value → String
  | [] => ""
  | [v] => v.write
  | v :: more => v.write ++ "," ++ Value.writeElements more

def Value.writeMembers : List (String × Value) → String
  | [] => ""
  | [(name, v)] => quoted name ++ ":" ++ v.write
  | (name, v) :: more => quoted name ++ ":" ++ v.write ++ "," ++ Value.writeMembers more

end

def Value.parse (text : String) : Except Fault Value :=
  Reader.value.document text

/-- Reads a value that is part of a larger document. It is JSON already, so whatever is wrong with
it makes it unsuitable. -/
def Reader.onValue (reader : Reader α) (v : Value) : Except Fault α :=
  match reader.document v.write with
  | .ok a => .ok a
  | .error _ => .error .unsuitable

end JourneyPlanner.Json
