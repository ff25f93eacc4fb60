import JourneyPlanner.Network.Mode
import JourneyPlanner.Parameter
import JourneyPlanner.Text.Blank
import JourneyPlanner.Text.Ordered

/-!
Which trip patterns a search may use. A mode filter allows modes, each with a set of submodes; an
empty set allows the mode with every submode and without one. Once a mode has a submode in its set
the mode is restricted to that set, whatever is allowed afterwards. A banned route is never used.
-/

namespace JourneyPlanner

/-- The allowed modes in the order of their ranks, each with its ordered set of submodes. -/
structure ModeFilter where
  allowed : List (Mode × List String)
deriving DecidableEq

namespace ModeFilter

def all : ModeFilter :=
  ⟨Mode.all.map fun mode => (mode, [])⟩

def none : ModeFilter :=
  ⟨[]⟩

/-- Changes the set of a mode, which is empty when the mode was not allowed before. -/
def alter (mode : Mode) (change : List String → List String) :
    List (Mode × List String) → List (Mode × List String)
  | [] => [(mode, change [])]
  | (other, submodes) :: rest =>
      if mode = other then (other, change submodes) :: rest
      else if mode.rank < other.rank then (mode, change []) :: (other, submodes) :: rest
      else (other, submodes) :: alter mode change rest

def allow (f : ModeFilter) (mode : Mode) : ModeFilter :=
  ⟨alter mode id f.allowed⟩

def allowSubmode (f : ModeFilter) (mode : Mode) (submode : String) : ModeFilter :=
  ⟨alter mode (Text.insertOrdered submode) f.allowed⟩

def submodesOf? (f : ModeFilter) (mode : Mode) : Option (List String) :=
  (f.allowed.find? (·.1 = mode)).map (·.2)

def accepts (f : ModeFilter) (mode : Mode) (submode : Option String) : Bool :=
  match f.submodesOf? mode with
  | .none => false
  | .some submodes => submodes.isEmpty || submode.any submodes.contains

def isBlankSubmode (submode : String) : Bool :=
  Text.isAllBlank submode.toList

/-- An entry of a list of filters: a mode, or a mode and a submode around a colon. -/
structure Entry where
  mode : Mode
  submode : Option String
deriving DecidableEq

/-- The text up to the first colon names the mode; what follows the colon is the submode, which must
not be blank. -/
def Entry.parse? (text : String) : Option Entry :=
  let modeText := text.toList.takeWhile (· ≠ ':')
  match Mode.ofName? (String.ofList modeText), text.toList.drop modeText.length with
  | .none, _ => .none
  | .some mode, [] => .some ⟨mode, .none⟩
  | .some mode, _ :: submode =>
      if Text.isAllBlank submode then .none else .some ⟨mode, String.ofList submode⟩

def add (f : ModeFilter) (entry : Entry) : ModeFilter :=
  match entry.submode with
  | .none => f.allow entry.mode
  | .some submode => f.allowSubmode entry.mode submode

/-- The first entry that cannot be read is the reason of the refusal. -/
def parse (entries : List String) : Except InvalidParameter ModeFilter :=
  entries.foldlM (fun f text => match Entry.parse? text with
    | .some entry => .ok (f.add entry)
    | .none => .error (.modeFilter text)) none

def validate (f : ModeFilter) : Except InvalidParameter Unit :=
  if f.allowed.isEmpty then .error (.modeFilter "no transit mode is allowed")
  else match f.allowed.find? (·.2.any isBlankSubmode) with
    | .some (mode, _) => .error (.modeFilter ("empty submode for mode " ++ mode.name))
    | .none => .ok ()

end ModeFilter

structure PatternFilters where
  modes : ModeFilter := .all
  /-- An ordered set of route identifiers. -/
  bannedRoutes : List String := []

/-- Whether a search may use a pattern of this route and of this kind of vehicle. -/
def PatternFilters.accepts (f : PatternFilters) (routeId : String) (mode : Mode)
    (submode : Option String) : Bool :=
  !f.bannedRoutes.contains routeId && f.modes.accepts mode submode

end JourneyPlanner
