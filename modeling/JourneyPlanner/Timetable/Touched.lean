import JourneyPlanner.Timetable.Basic

/-!
The lines to ride in the next round, each with the first position at which somebody may board, in
the order in which they were met. Nobody boards at the last position of a line.
-/

namespace JourneyPlanner

/-- The smallest position recorded for each line, in a slot that is empty for a line that was not met,
and the lines that were, in their order. -/
structure TouchedLines where
  first : LineIndex → Option Nat
  lines : List LineIndex

namespace TouchedLines

def empty : TouchedLines := ⟨fun _ => none, []⟩

def size (t : TouchedLines) : Nat :=
  t.lines.length

def isEmpty (t : TouchedLines) : Bool :=
  t.lines.isEmpty

/-- The slots with another content in that of a line. -/
def setSlot (first : LineIndex → Option Nat) (line : LineIndex) (slot : Option Nat) :
    LineIndex → Option Nat :=
  fun other => if other = line then slot else first other

/-- Lowers the position of a line that was met before, and adds another line at the end. -/
def insert (t : TouchedLines) (line : LineIndex) (position : Nat) : TouchedLines :=
  match t.first line with
  | some first =>
      if position < first then { t with first := setSlot t.first line (some position) } else t
  | none => ⟨setSlot t.first line (some position), t.lines ++ [line]⟩

/-- Empties the slots of some lines one after the other, and collects what is in them. -/
def takeSlots : List LineIndex → (LineIndex → Option Nat) →
    List (LineIndex × Nat) × (LineIndex → Option Nat)
  | [], first => ([], first)
  | line :: rest, first =>
      let (taken, left) := takeSlots rest (setSlot first line none)
      match first line with
      | some position => ((line, position) :: taken, left)
      | none => (taken, left)

/-- The content, and what is left afterwards. -/
def drain (t : TouchedLines) : List (LineIndex × Nat) × TouchedLines :=
  let (taken, left) := takeSlots t.lines t.first
  (taken, ⟨left, []⟩)

def entries (t : TouchedLines) : List (LineIndex × Nat) :=
  t.drain.1

def clear (t : TouchedLines) : TouchedLines :=
  ⟨t.lines.foldl (fun first line => setSlot first line none) t.first, []⟩

end TouchedLines

/-- The lines that can be boarded at a stop, with the positions. -/
def Timetable.boardableAt (t : Timetable) (stop : StopIndex) : List (LineIndex × Nat) :=
  (t.linesAt stop).filter fun (index, position) => position + 1 < (t.line index).nbOfPositions

/-- Records the lines that can be boarded at some stops. -/
def Timetable.touch (t : Timetable) (stops : List StopIndex) (touched : TouchedLines) :
    TouchedLines :=
  (stops.flatMap t.boardableAt).foldl (fun touched (line, position) =>
    touched.insert line position) touched

end JourneyPlanner
