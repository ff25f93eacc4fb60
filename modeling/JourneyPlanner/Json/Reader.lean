/-!
Readers of a JSON document. A reader looks at the text from left to right, takes what belongs to
its value and gives back the rest, which is never longer than what it was given; that bound is part
of its result, so a loop over a list or an object ends without further argument. The first problem
met is the answer.
-/

namespace JourneyPlanner.Json

inductive Fault where
  /-- The text is not JSON, or goes on after the value, or holds a number too large to be one. -/
  | malformed
  /-- The text stops before the value does. -/
  | truncated
  /-- The text is JSON but not the kind of value that was asked for. -/
  | unsuitable
deriving DecidableEq, Repr

/-- What a reader found in a text, and what is left of the text. -/
structure Found (α : Type) (text : List Char) where
  value : α
  rest : List Char
  rest_le : rest.length ≤ text.length

def Reader (α : Type) : Type :=
  (text : List Char) → Except Fault (Found α text)

namespace Reader

def pure (a : α) : Reader α :=
  fun text => .ok ⟨a, text, Nat.le_refl _⟩

def fail (fault : Fault) : Reader α :=
  fun _ => .error fault

/-- The second reader goes on where the first one stopped. -/
def bind (first : Reader α) (next : α → Reader β) : Reader β :=
  fun text => match first text with
    | .error fault => .error fault
    | .ok found => match next found.value found.rest with
      | .error fault => .error fault
      | .ok last => .ok ⟨last.value, last.rest, Nat.le_trans last.rest_le found.rest_le⟩

instance : Monad Reader where
  pure := pure
  bind := bind

/-- A value that may turn out not to suit. -/
def check (a : Option α) : Reader α :=
  match a with
  | some a => pure a
  | none => fail .unsuitable

end Reader

/-- The white space of JSON: space, tab, line feed and carriage return. -/
def isSpace (c : Char) : Bool :=
  c == ' ' || c == '\t' || c == '\n' || c == '\r'

def skipSpace (text : List Char) : List Char :=
  text.dropWhile isSpace

theorem length_skipSpace_le (text : List Char) : (skipSpace text).length ≤ text.length :=
  (List.dropWhile_sublist _).length_le

namespace Reader

/-- Skips white space before the reader starts. -/
def afterSpace (reader : Reader α) : Reader α :=
  fun text => match reader (skipSpace text) with
    | .error fault => .error fault
    | .ok found =>
        .ok ⟨found.value, found.rest, Nat.le_trans found.rest_le (length_skipSpace_le text)⟩

/-- The next character, not taken; none at the end of the text. -/
def peek : Reader (Option Char) :=
  fun text => .ok ⟨text.head?, text, Nat.le_refl _⟩

/-- Takes one character, if there is one. -/
def skip : Reader Unit :=
  fun text => .ok ⟨(), text.tail, by simp⟩

/-- The whole document is one value, with nothing but white space after it. -/
def document (reader : Reader α) (text : String) : Except Fault α :=
  match reader text.toList with
  | .error fault => .error fault
  | .ok found => if skipSpace found.rest = [] then .ok found.value else .error .malformed

end Reader

/-- What follows an element of a list: another element after a comma, or the end. -/
def elementsAfter (element : Reader α) (read : Array α) (text : List Char) :
    Except Fault (Found (Array α) text) :=
  match h : skipSpace text with
  | [] => .error .truncated
  | ']' :: rest => .ok ⟨read, rest, by
      have := length_skipSpace_le text
      rw [h, List.length_cons] at this
      omega⟩
  | ',' :: rest =>
      match skipSpace rest with
      | [] => .error .truncated
      | ']' :: _ => .error .malformed
      | _ =>
          match element rest with
          | .error fault => .error fault
          | .ok one =>
              have shorter : one.rest.length < text.length := by
                have bound := length_skipSpace_le text
                rw [h, List.length_cons] at bound
                have := one.rest_le
                omega
              match elementsAfter element (read.push one.value) one.rest with
              | .error fault => .error fault
              | .ok all => .ok ⟨all.value, all.rest, Nat.le_trans all.rest_le (Nat.le_of_lt shorter)⟩
  | _ :: _ => .error .malformed
termination_by text.length

/-- The elements of a list whose opening bracket has been taken. -/
def elements (element : Reader α) : Reader (Array α) :=
  fun text => match h : skipSpace text with
    | [] => .error .truncated
    | ']' :: rest => .ok ⟨#[], rest, by
        have := length_skipSpace_le text
        rw [h, List.length_cons] at this
        omega⟩
    | _ :: _ =>
        match element text with
        | .error fault => .error fault
        | .ok one =>
            match elementsAfter element #[one.value] one.rest with
            | .error fault => .error fault
            | .ok all => .ok ⟨all.value, all.rest, Nat.le_trans all.rest_le one.rest_le⟩

/-- What follows a member of an object: another member after a comma, or the end. The state `s`
gathers what the members say; `member` starts at the quotation mark of the name. -/
def membersAfter (member : σ → Reader σ) (s : σ) (text : List Char) :
    Except Fault (Found σ text) :=
  match h : skipSpace text with
  | [] => .error .truncated
  | '\x7d' :: rest => .ok ⟨s, rest, by
      have := length_skipSpace_le text
      rw [h, List.length_cons] at this
      omega⟩
  | ',' :: rest =>
      match skipSpace rest with
      | [] => .error .truncated
      | '"' :: _ =>
          match (member s).afterSpace rest with
          | .error fault => .error fault
          | .ok one =>
              have shorter : one.rest.length < text.length := by
                have bound := length_skipSpace_le text
                rw [h, List.length_cons] at bound
                have := one.rest_le
                omega
              match membersAfter member one.value one.rest with
              | .error fault => .error fault
              | .ok all => .ok ⟨all.value, all.rest, Nat.le_trans all.rest_le (Nat.le_of_lt shorter)⟩
      | _ => .error .malformed
  | _ :: _ => .error .malformed
termination_by text.length

/-- The members of an object whose opening brace has been taken. -/
def members (member : σ → Reader σ) (s : σ) : Reader σ :=
  fun text => match h : skipSpace text with
    | [] => .error .truncated
    | '\x7d' :: rest => .ok ⟨s, rest, by
        have := length_skipSpace_le text
        rw [h, List.length_cons] at this
        omega⟩
    | '"' :: _ =>
        match (member s).afterSpace text with
        | .error fault => .error fault
        | .ok one =>
            match membersAfter member one.value one.rest with
            | .error fault => .error fault
            | .ok all => .ok ⟨all.value, all.rest, Nat.le_trans all.rest_le one.rest_le⟩
    | _ :: _ => .error .malformed

end JourneyPlanner.Json
