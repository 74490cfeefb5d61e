import RegistryHive.Text.LowerCase
import RegistryHive.Timestamp
import RegistryHive.ValueData

/-!
# Keys and values

A key as it is handed out holds everything that the hive says about it: its
name and path, the time of its last change, the names of its subkeys and its
values. It is a snapshot and does not refer to the hive.
-/

namespace RegistryHive

/-- A value of a key. -/
structure Value where
  /-- The name, which is empty for the default value. -/
  name : String
  type : ValueType
  data : ValueData
  deriving DecidableEq

/-- A key. -/
structure Key where
  name : String
  /-- The names from the root to the key, joined by backslashes. -/
  path : String
  lastModified : Instant
  subkeyNames : List String
  values : List Value
  deriving DecidableEq

/-- The first value with this name, ignoring case. The empty name is that of the default value. -/
def Key.value? (key : Key) (name : String) : Option Value :=
  key.values.find? fun value => Text.SameName value.name name

end RegistryHive
