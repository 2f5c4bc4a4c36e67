import AggregateLayout.Table
import AggregateLayout.Text.Code
import AggregateLayout.Text.LowerCase

namespace AggregateLayout

abbrev Environment := Table String

inductive VariableFault where
  | nullCharacter
  | equalsSign
  deriving DecidableEq

def VariableFault.message : VariableFault → String
  | .nullCharacter => "embedded null byte"
  | .equalsSign => "illegal environment variable name"

namespace Environment

def value? (env : Environment) (name : String) : Option String := Table.find? name env

def setting? (env : Environment) (name : String) : Option String :=
  (env.value? name).filter (!·.isEmpty)

def variableFault? (name value : String) : Option VariableFault :=
  if (name ++ value).toList.contains (Char.ofNat 0) then some .nullCharacter
  else if name.toList.contains '=' then some .equalsSign
  else none

def isYes (word : String) : Bool := ["true", "1", "yes", "on"].contains (Text.lower word)

def isOn (env : Environment) (name : String) : Bool :=
  ((env.value? name).map fun s => isYes (Text.trim s)).getD false

end Environment

end AggregateLayout
