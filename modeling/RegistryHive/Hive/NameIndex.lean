import RegistryHive.Hive.Lookup
import Std.Data.HashMap.Basic
import Std.Data.HashMap.Lemmas

/-!
# Indexes of subkey names

A name index gives the first of several keys with a name, ignoring case, without
going through all of them. `descendIn` follows names from a key whose subkeys are
indexed; `descendIn_eq` says that it finds the key that `descend` finds.
-/

namespace RegistryHive

/-- The first key for each name in lower case. -/
structure NameIndex where
  offsets : Std.HashMap String UInt32

namespace NameIndex

/-- Adds a key, unless there is one with this name. -/
def add (index : NameIndex) (child : ChildKey) : NameIndex :=
  ⟨index.offsets.insertIfNew (Text.lowerCase child.name) child.offset⟩

/-- The index of a list of keys. -/
def ofList (children : List ChildKey) : NameIndex := children.foldl add ⟨∅⟩

/-- The first key with this name, ignoring case. -/
def find? (index : NameIndex) (name : String) : Option UInt32 :=
  index.offsets[Text.lowerCase name]?

/-- A key that is added is found by its name unless there was one with this name. -/
theorem find?_add (index : NameIndex) (child : ChildKey) (name : String) :
    (index.add child).find? name =
      (index.find? name).or
        (if Text.lowerCase child.name == Text.lowerCase name then some child.offset else none) := by
  simp only [add, find?, Std.HashMap.getElem?_insertIfNew, Std.HashMap.mem_iff_isSome_getElem?]
  by_cases same : Text.lowerCase child.name = Text.lowerCase name
  · rw [same]
    cases index.offsets[Text.lowerCase name]? <;> simp
  · simp [same]

private theorem find?_foldl (children : List ChildKey) (index : NameIndex) (name : String) :
    (children.foldl add index).find? name =
      (index.find? name).or
        ((children.find? fun child => Text.lowerCase child.name == Text.lowerCase name).map
          (·.offset)) := by
  induction children generalizing index with
  | nil => simp
  | cons child rest ih =>
    rw [List.foldl_cons, ih, find?_add, Option.or_assoc, List.find?_cons]
    cases Text.lowerCase child.name == Text.lowerCase name <;> simp

/-- An index finds the first key of the list with the name. -/
theorem find?_ofList (children : List ChildKey) (name : String) :
    (ofList children).find? name =
      (children.find? fun child => Text.lowerCase child.name == Text.lowerCase name).map
        (·.offset) := by
  rw [ofList, find?_foldl]
  simp [find?]

end NameIndex

namespace HiveImage

/-- The key that names lead to from a key whose subkeys are indexed. -/
def descendIn (image : HiveImage) (index : NameIndex) (found : FoundKey) :
    List String → Option FoundKey
  | [] => some found
  | name :: rest =>
    ((index.find? name).bind (image.subkeyAt? found)).bind fun next => image.descend next rest

/-- With the index of the subkeys of a key, names lead to where they lead without it. -/
theorem descendIn_eq (image : HiveImage) {found : FoundKey} (parent : found.node.hasSubkeys = true)
    (names : List String) :
    image.descendIn (.ofList (image.childrenAt found.node.subkeyList)) found names =
      image.descend found names := by
  cases names with
  | nil => rfl
  | cons name rest =>
    rw [descendIn, NameIndex.find?_ofList, ← findChild?_eq, descend, subkey?, if_pos parent]
    cases (image.findChild? found.node.subkeyList name).bind (image.subkeyAt? found) <;> rfl

end HiveImage

end RegistryHive
