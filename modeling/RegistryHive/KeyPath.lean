/-!
# Key paths

A key path names keys from the root down, with backslashes between the names.
Only the names count: empty parts between backslashes, before the first and
after the last one are dropped.
-/

namespace RegistryHive.KeyPath

/-- The character between two names. -/
def separator : Char := '\\'

/-- The names in a path, in order. -/
def components (path : String) : List String :=
  ((path.toList.splitOn separator).filter fun name => !name.isEmpty).map String.ofList

/-- A path continued by a name. -/
def append (path name : String) : String := path ++ separator.toString ++ name

/-- A path relative to the root continued by a name; the path of the root itself is empty. -/
def child (relative name : String) : String :=
  if relative.isEmpty then name else append relative name

@[simp] theorem components_empty : components "" = [] := rfl

/-- A name without a separator is a path of one component. -/
theorem components_of_name {name : String} (nonempty : name ≠ "")
    (simple : separator ∉ name.toList) : components name = [name] := by
  have chars : name.toList ≠ [] := fun h => nonempty (String.toList_inj.mp (by simpa using h))
  rw [components, List.splitOn_eq_singleton simple]
  simp [chars]

/-- The components of a continued path are those of the path and those of the name. -/
theorem components_append (path name : String) :
    components (append path name) = components path ++ components name := by
  have parts : (append path name).toList = path.toList ++ separator :: name.toList := by
    simp [append, String.toList_append, Char.toString]
  rw [components, parts, List.splitOn_append_cons_self, List.filter_append, List.map_append]
  rfl

/-- Continuing a relative path adds the components of the name. -/
theorem components_child (relative name : String) :
    components (child relative name) = components relative ++ components name := by
  unfold child
  split
  · rename_i h
    have empty : relative = "" := by simpa using h
    simp [empty]
  · exact components_append relative name

end RegistryHive.KeyPath
