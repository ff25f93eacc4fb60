/-!
Environment variables as overrides. A variable holds bytes; one that is not set, is not valid UTF-8
or cannot be read leaves the default in place.
-/

namespace JourneyPlanner.Config

def readVariable (value : Option ByteArray) (default : α) (parse : String → Option α) : α :=
  ((value.bind String.fromUTF8?).bind parse).getD default

theorem readVariable_none (default : α) (parse : String → Option α) :
    readVariable none default parse = default := rfl

end JourneyPlanner.Config
