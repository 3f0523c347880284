import ContainerFeed.Binary64
import ContainerFeed.Keyed

/-!
# Options

The host hands over options under their names. A lookup asks for a kind of value and gives a
default; an option of another kind counts as absent.
-/

namespace ContainerFeed

/-- The value of an option. -/
inductive OptionValue where
  | bool (value : Bool)
  | int (value : Int64)
  | float (value : Binary64)
  | text (value : String)
  deriving DecidableEq

/-- Option values under the names of the options. -/
abbrev Options := List (String × OptionValue)

namespace Options

/-- The whole number under a name, or a default. -/
def int (options : Options) (name : String) (default : Int64) : Int64 :=
  match Keyed.get? name options with
  | some (.int value) => value
  | _ => default

/-- The text under a name, or a default. -/
def text (options : Options) (name : String) (default : String) : String :=
  match Keyed.get? name options with
  | some (.text value) => value
  | _ => default

end Options

end ContainerFeed
