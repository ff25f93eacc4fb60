import JourneyPlanner.Decimal.Nearest
import JourneyPlanner.Json.Reader
import JourneyPlanner.Text.Numeral

/-!
Readers of the scalars of JSON: strings, numbers and the three literals, and of scalars of one
kind. Where another kind stands the value is unsuitable, unless it is a scalar that is itself
malformed or cut short.
-/

namespace JourneyPlanner.Json

/-- A whole number of at most 64 bits stays exact; zero with a minus sign, a number with a point or
an exponent, and a longer number are real. -/
inductive Number where
  | natural (n : Nat)
  | negative (n : Nat)
  | real (x : Float)

def hexValue? (c : Char) : Option Nat :=
  if '0' ≤ c ∧ c ≤ '9' then some (c.toNat - 48)
  else if 'a' ≤ c ∧ c ≤ 'f' then some (c.toNat - 87)
  else if 'A' ≤ c ∧ c ≤ 'F' then some (c.toNat - 55)
  else none

def byteCount (text : List Char) : Nat :=
  (String.ofList text).utf8ByteSize

namespace Reader

/-- The given characters, one after the other. -/
def expect : List Char → Reader Unit
  | [] => pure ()
  | c :: more => do
      match ← peek with
      | none => fail .truncated
      | some d => if d = c then do skip; expect more else fail .malformed

/-- Four hexadecimal digits; the text stops early when fewer than four bytes are left. -/
def fourHex : Reader Nat :=
  fun text => match (text.take 4).mapM hexValue? with
    | some [a, b, c, d] =>
        .ok ⟨((a * 16 + b) * 16 + c) * 16 + d, text.drop 4, by simp⟩
    | _ => .error (if byteCount text < 4 then .truncated else .malformed)

/-- The character after a backslash and `u`. A character beyond the basic plane is written as two
units, the second one in the same form. -/
def unicodeEscape : Reader Char := do
  let unit ← fourHex
  if 0xDC00 ≤ unit ∧ unit ≤ 0xDFFF then fail .malformed
  else if unit < 0xD800 ∨ 0xDBFF < unit then return Char.ofNat unit
  else
    expect ['\\', 'u']
    let second ← fourHex
    if second < 0xDC00 ∨ 0xDFFF < second then fail .malformed
    else return Char.ofNat (0x10000 + (unit - 0xD800) * 0x400 + (second - 0xDC00))

/-- The character after a backslash. -/
def escape : Reader Char := do
  let c ← peek
  skip
  match c with
  | none => fail .truncated
  | some 'u' => unicodeEscape
  | some 'b' => return Char.ofNat 8
  | some 'f' => return Char.ofNat 12
  | some 'n' => return '\n'
  | some 'r' => return '\r'
  | some 't' => return '\t'
  | some '"' => return '"'
  | some '\\' => return '\\'
  | some '/' => return '/'
  | some _ => fail .malformed

/-- A string whose opening quotation mark has been taken. -/
def stringBody (read : String) (text : List Char) : Except Fault (Found String text) :=
  match text with
  | [] => .error .truncated
  | '"' :: rest => .ok ⟨read, rest, by simp⟩
  | '\\' :: rest =>
      match escape rest with
      | .error fault => .error fault
      | .ok one =>
          have bound := one.rest_le
          match stringBody (read.push one.value) one.rest with
          | .error fault => .error fault
          | .ok all => .ok ⟨all.value, all.rest, by
              have := all.rest_le
              simp only [List.length_cons]
              omega⟩
  | c :: rest =>
      if c.toNat < 0x20 then .error .malformed
      else match stringBody (read.push c) rest with
        | .error fault => .error fault
        | .ok all => .ok ⟨all.value, all.rest, by
            have := all.rest_le
            simp only [List.length_cons]
            omega⟩
termination_by text.length

/-- A run of digits, possibly empty. -/
def digitRun : Reader (List Char) :=
  fun text =>
    .ok ⟨text.takeWhile Text.isDigit, text.dropWhile Text.isDigit,
      (List.dropWhile_sublist _).length_le⟩

/-- A run of at least one digit. -/
def someDigits : Reader (List Char) := do
  let run ← digitRun
  if run = [] then
    match ← peek with
    | none => fail .truncated
    | some _ => fail .malformed
  else return run

/-- The largest whole number of 64 bits. -/
def largestWord : Nat := 18446744073709551615

/-- The least negative number of 64 bits, without its sign. -/
def leastNegativeWord : Nat := 9223372036854775808

/-- The power of ten after an `e`, with an optional sign. -/
def powerOfTen : Reader Int := do
  let sign ← peek
  if sign = some '+' ∨ sign = some '-' then skip
  let run ← someDigits
  let n : Int := Text.value 0 run
  return if sign = some '-' then -n else n

/-- A number after its sign. -/
def numberBody (negative : Bool) : Reader Number := do
  let whole ← someDigits
  if whole.head? = some '0' ∧ whole.length ≠ 1 then fail .malformed
  else
    let n := Text.value 0 whole
    let point ← peek
    let fraction ← if point = some '.' then do skip; someDigits else pure []
    let mark ← peek
    let hasPower := mark = some 'e' ∨ mark = some 'E'
    let power ← if hasPower then do skip; powerOfTen else pure 0
    if point = some '.' ∨ hasPower ∨ largestWord < n then
      match Decimal.nearest? negative (Text.value n fraction) (power - fraction.length) with
      | some x => return .real x
      | none => fail .malformed
    else if !negative then return .natural n
    else if 0 < n ∧ n ≤ leastNegativeWord then return .negative n
    else return .real (-Float.ofNat n)

/-- The scalar at this place is read in full, so that its own problem comes first. -/
def notOfKind : Reader α := do
  match ← peek with
  | none => fail .truncated
  | some 'n' => do expect "null".toList; fail .unsuitable
  | some 't' => do expect "true".toList; fail .unsuitable
  | some 'f' => do expect "false".toList; fail .unsuitable
  | some '"' => do
      skip
      let _ ← stringBody ""
      fail .unsuitable
  | some '[' => fail .unsuitable
  | some '\x7b' => fail .unsuitable
  | some '-' => do
      skip
      let _ ← numberBody true
      fail .unsuitable
  | some c =>
      if Text.isDigit c then do
        let _ ← numberBody false
        fail .unsuitable
      else fail .malformed

def string : Reader String :=
  afterSpace do
    if (← peek) = some '"' then do skip; stringBody ""
    else notOfKind

def number : Reader Number :=
  afterSpace do
    match ← peek with
    | some '-' => do skip; numberBody true
    | some c => if Text.isDigit c then numberBody false else notOfKind
    | none => notOfKind

/-- A natural number up to a limit. -/
def natural (limit : Nat) : Reader Nat := do
  match ← number with
  | .natural n => check (if n ≤ limit then some n else none)
  | _ => fail .unsuitable

def real : Reader Float := do
  match ← number with
  | .natural n => return Float.ofNat n
  | .negative n => return -Float.ofNat n
  | .real x => return x

/-- None where `null` stands. -/
def optional (reader : Reader α) : Reader (Option α) :=
  afterSpace do
    if (← peek) = some 'n' then do expect "null".toList; return none
    else return some (← reader)

def listOf (element : Reader α) : Reader (Array α) :=
  afterSpace do
    if (← peek) = some '[' then do skip; elements element
    else notOfKind

/-- A text that stands for a value of another type. -/
def parsed (parse : String → Option α) : Reader α := do
  check (parse (← string))

end Reader

end JourneyPlanner.Json
