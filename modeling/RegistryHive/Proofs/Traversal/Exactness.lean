import RegistryHive.Proofs.Traversal.Visible
import RegistryHive.Proofs.Writing.ReadBack

/-!
# The keys that a hive hands out

Whatever the bytes of a hive are, its traversal ends, hands out no cell twice and
hands out exactly the cells that are found by name (`Hive.keys_exact`). Where
names tell subkeys apart, these are the cells that can be reached through names
of one component (`Hive.keys_visible`).

Two written files show what is not handed out. In `maskedTree` the name of the
second subkey holds a separator, and it is the path of a key below the first
subkey, where there is none: the second subkey is hidden by its name. Then a key
is hung there with `hangUndeclared`. The path leads to it, but the first subkey
goes on declaring no subkeys, so the traversal does not look there.
-/

namespace RegistryHive

open HiveWriter

namespace Hive

/-- On every hive the traversal ends. The cells of the keys that it hands out differ from each
other, and they are the cells that are found by name, where a key that declares no subkeys has
none. -/
theorem keys_exact (hive : Hive) :
    (Traversal.start hive.image).Run hive.image.visitedKeys ∧
      hive.keys = hive.image.visitedKeys.map hive.image.keyOf ∧
      (hive.image.visitedKeys.map (·.offset)).Nodup ∧
      ∀ offset, offset ∈ hive.image.visitedKeys.map (·.offset) ↔
        hive.image.FoundByName hive.image.childNamed? offset := by
  have run := Traversal.run_start hive.image
  exact ⟨run, rfl, run.distinct.2, HiveImage.mem_visitedKeys_iff⟩

/-- Where names tell the subkeys of every reachable key apart, the cells of the keys of a hive
differ from each other, and they are the cells that can be reached through names of one
component. -/
theorem keys_visible (hive : Hive) (distinct : hive.image.NamesDistinct) :
    hive.keys = hive.image.visitedKeys.map hive.image.keyOf ∧
      (hive.image.visitedKeys.map (·.offset)).Nodup ∧
      ∀ offset, offset ∈ hive.image.visitedKeys.map (·.offset) ↔ hive.image.Visible offset := by
  refine ⟨rfl, (Traversal.run_start hive.image).distinct.2, ?_⟩
  intro offset
  rw [HiveImage.mem_visitedKeys_iff]
  exact ⟨HiveImage.FoundByName.visible, HiveImage.Visible.foundByName distinct⟩

/-- All names of the sample are components. -/
theorem keys_visible_sampleTree :
    (layOut sampleTree).2.hive.image.NamesDistinct ∧
      ∀ offset, offset ∈ (layOut sampleTree).2.hive.image.visitedKeys.map (·.offset) ↔
        (layOut sampleTree).2.hive.image.Reachable offset := by
  obtain ⟨contents, run, laid⟩ :=
    exists_laysOut sampleTree (by decide) size_layOut_sampleTree
  have wellNamed :=
    (run.readsTree laid (valid_layOut (by decide)) size_layOut_sampleTree).wellNamed
  refine ⟨wellNamed.namesDistinct, ?_⟩
  intro offset
  obtain ⟨-, -, visible⟩ := keys_visible (layOut sampleTree).2.hive wellNamed.namesDistinct
  rw [visible]
  apply HiveImage.visible_iff_reachable
  intro parent node reachable readable child listed
  obtain ⟨nonempty, simple, -⟩ := wellNamed parent node reachable readable child listed
  exact ⟨nonempty, simple⟩

end Hive

section Masked

/-- A root with two subkeys, where the name of the second one is the name of the first one
continued by a separator and another name. -/
def maskedTree : KeyTree ListPlan :=
  .node (.leaf .hashLeaf) "ROOT" []
    [.node (.leaf .hashLeaf) "Keys" [] [], .node (.leaf .hashLeaf) "Keys\\More" [] []]

/-- The same keys at their cells. -/
def maskedAt (root keys masked : UInt32) : KeyTree UInt32 :=
  .node root "ROOT" [] [.node keys "Keys" [] [], .node masked "Keys\\More" [] []]

theorem nodes_maskedAt (root keys masked : UInt32) :
    (maskedAt root keys masked).nodes =
      [maskedAt root keys masked, .node keys "Keys" [] [],
        .node masked "Keys\\More" [] []] := rfl

theorem keys_mem_maskedAt (root keys masked : UInt32) :
    KeyTree.node keys "Keys" [] [] ∈ (maskedAt root keys masked).nodes :=
  List.mem_cons_of_mem _ List.mem_cons_self

theorem masked_mem_maskedAt (root keys masked : UInt32) :
    KeyTree.node masked "Keys\\More" [] [] ∈ (maskedAt root keys masked).nodes :=
  List.mem_cons_of_mem _ (List.mem_cons_of_mem _ List.mem_cons_self)

/-- The first subkey has no subkeys, and no other key stands at its cell. -/
theorem subkeys_maskedAt_eq_nil {root keys masked : UInt32}
    (distinct : ((maskedAt root keys masked).nodes.map KeyTree.cell).Nodup) :
    ∀ node ∈ (maskedAt root keys masked).nodes, node.cell = keys → node.subkeys = [] := by
  rw [nodes_maskedAt, List.map_cons, List.nodup_cons] at distinct
  rw [nodes_maskedAt]
  intro node member
  rcases List.mem_cons.mp member with rfl | leaf
  · intro same
    rw [same] at distinct
    exact absurd List.mem_cons_self distinct.1
  · rcases List.mem_pair.mp leaf with rfl | rfl <;> exact fun _ => rfl

theorem exists_layOut_maskedTree :
    ∃ root keys masked, (layOut maskedTree).1 = maskedAt root keys masked :=
  ⟨_, _, _, rfl⟩

theorem size_layOut_maskedTree : (layOut maskedTree).2.bins.size < 2 ^ 31 :=
  Nat.lt_of_le_of_lt (size_layOut_le maskedTree) (by decide)

/-- All names are read as they are written, the last one because its fifth character is the
separator. -/
theorem isStoredName_maskedAt (root keys masked : UInt32) :
    ∀ node ∈ (maskedAt root keys masked).nodes,
      IsStoredName node.name ∧ ∀ value ∈ node.values, value.Valid := by
  have plain : IsKeyName "ROOT" ∧ IsKeyName "Keys" := by decide
  have separated : IsStoredName "Keys\\More" := ⟨by decide, by decide, .inr rfl⟩
  rw [nodes_maskedAt]
  intro node member
  rcases List.mem_cons.mp member with rfl | member
  · exact ⟨plain.1.isStoredName, fun value none => absurd none List.not_mem_nil⟩
  · rcases List.mem_cons.mp member with rfl | member
    · exact ⟨plain.2.isStoredName, fun value none => absurd none List.not_mem_nil⟩
    · obtain rfl := List.mem_singleton.mp member
      exact ⟨separated, fun value none => absurd none List.not_mem_nil⟩

theorem not_isComponent_masked : ¬ IsComponent "Keys\\More" := by
  intro component
  exact component.simple (by decide)

/-- The two subkeys have different names, since only one of these is a component. -/
theorem not_sameName_masked : ¬ Text.SameName "Keys" "Keys\\More" := by
  intro same
  have component : IsComponent "Keys" := ⟨by decide, by decide⟩
  exact not_isComponent_masked (component.of_sameName same)

/-- The keys of the tree are read at different cells, the uppermost one at the root cell. -/
structure ShowsMasked (image : HiveImage) (root keys masked : UInt32) : Prop where
  root_eq : image.baseBlock.rootOffset = root
  distinct : ((maskedAt root keys masked).nodes.map KeyTree.cell).Nodup
  reads : ∀ node ∈ (maskedAt root keys masked).nodes, ∃ keyNode, ReadsKey image node keyNode

/-- The tree is read from the image of a file in which it was laid out. -/
theorem ShowsMasked.of_laysOut {writer : HiveWriter} {contents : Contents}
    {root keys masked : UInt32} (run : Run writer contents)
    (laid : contents.LaysOut writer.root (maskedAt root keys masked))
    (small : writer.bins.size < 2 ^ 31) : ShowsMasked writer.image root keys masked where
  root_eq := (rootOffset_image writer).trans laid.root_eq.symm
  distinct := laid.distinct
  reads := run.readsKeys laid (isStoredName_maskedAt root keys masked) small

namespace ShowsMasked

variable {image : HiveImage} {root keys masked : UInt32}

/-- The root lists both subkeys. -/
theorem exists_root (shown : ShowsMasked image root keys masked) :
    ∃ node, image.keyNode? root = some node ∧
      image.subkeysOf node = [⟨"Keys", keys⟩, ⟨"Keys\\More", masked⟩] := by
  obtain ⟨node, read⟩ := shown.reads _ (maskedAt root keys masked).mem_nodes_self
  exact ⟨node, read.readable, read.subkeys⟩

theorem reachable (shown : ShowsMasked image root keys masked) : image.Reachable masked := by
  obtain ⟨node, readable, subkeys⟩ := shown.exists_root
  have listed : (⟨"Keys\\More", masked⟩ : ChildKey) ∈ image.subkeysOf node := by
    rw [subkeys]
    exact List.mem_cons_of_mem _ List.mem_cons_self
  rw [← shown.root_eq] at readable
  exact .subkey (.root readable) readable listed

/-- Only the root has subkeys, and it has two of different names. -/
theorem namesDistinct (shown : ShowsMasked image root keys masked) : image.NamesDistinct := by
  intro offset keyNode reachable readable child listed other listed' same
  obtain ⟨node, member, rfl⟩ := exists_node_of_reachable shown.root_eq shown.reads reachable
  obtain ⟨keyNode', reads⟩ := shown.reads node member
  cases readable.symm.trans reads.readable
  rw [reads.subkeys] at listed listed'
  rw [nodes_maskedAt] at member
  rcases List.mem_cons.mp member with rfl | leaf
  · change child ∈ [⟨"Keys", keys⟩, ⟨"Keys\\More", masked⟩] at listed
    change other ∈ [⟨"Keys", keys⟩, ⟨"Keys\\More", masked⟩] at listed'
    rw [List.mem_pair] at listed listed'
    rcases listed with rfl | rfl <;> rcases listed' with rfl | rfl
    · rfl
    · exact absurd same.symm not_sameName_masked
    · exact absurd same not_sameName_masked
    · rfl
  · rcases List.mem_pair.mp leaf with rfl | rfl <;> exact absurd listed List.not_mem_nil

/-- The name of the first subkey leads to it. -/
theorem listedNamed?_keys (shown : ShowsMasked image root keys masked) :
    image.listedNamed? root "Keys" = some keys := by
  obtain ⟨node, readable, subkeys⟩ := shown.exists_root
  have listed : (⟨"Keys", keys⟩ : ChildKey) ∈ image.subkeysOf node := by
    rw [subkeys]
    exact List.mem_cons_self
  have isRoot : image.Reachable root := by
    rw [← shown.root_eq] at readable ⊢
    exact .root readable
  have unique := shown.namesDistinct root node isRoot readable _ listed
  exact (HiveImage.childNamed?_eq readable listed unique).2

/-- The name of the second subkey leads to a key that is found below the first one. -/
theorem foundByName (shown : ShowsMasked image root keys masked) {key : UInt32}
    (second : image.listedNamed? keys "More" = some key) :
    image.FoundByName image.listedNamed? key := by
  obtain ⟨node, readable, subkeys⟩ := shown.exists_root
  have named : "Keys\\More" ∈ image.subkeyNames node := by
    rw [HiveImage.subkeyNames_eq, subkeys]
    exact List.mem_cons_of_mem _ List.mem_cons_self
  have components : KeyPath.components "Keys\\More" = ["Keys", "More"] := by decide
  have first := shown.listedNamed?_keys
  rw [← shown.root_eq] at readable first
  apply HiveImage.FoundByName.named (.root readable) readable named
  rw [components, List.foldlM_cons, first]
  change (["More"].foldlM image.listedNamed? keys : Option UInt32) = some key
  rw [List.foldlM_cons, second]
  rfl

/-- The second subkey cannot be seen under its name. -/
theorem not_visible (shown : ShowsMasked image root keys masked) : ¬ image.Visible masked := by
  intro visible
  have below : masked ≠ image.baseBlock.rootOffset := by
    have distinct := shown.distinct
    rw [nodes_maskedAt, List.map_cons, List.nodup_cons] at distinct
    rw [shown.root_eq]
    rintro rfl
    exact distinct.1 (List.mem_cons_of_mem _ List.mem_cons_self)
  obtain ⟨node, read⟩ := shown.reads _ (masked_mem_maskedAt root keys masked)
  have component := visible.isComponent below read.readable
  rw [read.name] at component
  exact not_isComponent_masked component

end ShowsMasked

/-- The second subkey of the tree is reachable and its name differs from that of the first one,
but the traversal does not hand it out. -/
theorem Hive.masked_key_hidden :
    Hive.ofBytes (layOut maskedTree).2.build = .ok (layOut maskedTree).2.hive ∧
      (layOut maskedTree).2.hive.image.NamesDistinct ∧
      ∃ offset, (layOut maskedTree).2.hive.image.Reachable offset ∧
        offset ∉ (layOut maskedTree).2.hive.image.visitedKeys.map (·.offset) := by
  obtain ⟨contents, run, laid⟩ :=
    exists_laysOut maskedTree (by decide) size_layOut_maskedTree
  obtain ⟨root, keys, masked, cells⟩ := exists_layOut_maskedTree
  rw [cells] at laid
  have shown := ShowsMasked.of_laysOut run laid size_layOut_maskedTree
  refine ⟨hive_ofBytes_build _, shown.namesDistinct, masked, shown.reachable, ?_⟩
  intro visited
  exact shown.not_visible ((HiveImage.mem_visitedKeys_iff masked).mp visited).visible

end Masked

section Undeclared

/-- Writes a key and hangs it under another one, which is left to declare that it has no
subkeys. -/
def HiveWriter.hangUndeclared (writer : HiveWriter) (cell : UInt32) (name : String) :
    HiveWriter :=
  let key := writer.key name
  let list := key.writer.list .hashLeaf [key.offset]
  list.writer.setSubkeys cell list.offset 0

/-- Hanging an undeclared key under a key changes this key, adds the other one at a new cell and
adds a list of it. -/
theorem HiveWriter.Run.exists_hangUndeclared {writer : HiveWriter} {contents : Contents}
    (run : Run writer contents) {cell : UInt32} {record : KeyRecord}
    (written : contents cell = some (.key record)) (name : String)
    (small : (writer.hangUndeclared cell name).bins.size < 2 ^ 31) :
    ∃ later key list, Run (writer.hangUndeclared cell name) later ∧
      contents.ExtendsBut cell later ∧ contents key = none ∧
      later key = some (.key (.new name)) ∧ later.HasLeaf list [key] ∧
      later cell = some (.key { record with subkeyCount := 0, subkeyList := list }) := by
  have smallList : ((writer.key name).writer.list .hashLeaf
      [(writer.key name).offset]).writer.bins.size < 2 ^ 31 :=
    Nat.lt_of_le_of_lt (size_le_setSubkeys _ cell _ _) small
  have smallKey : (writer.key name).writer.bins.size < 2 ^ 31 :=
    Nat.lt_of_le_of_lt (size_le_alloc _ _) smallList
  have smallStart : writer.bins.size < 2 ^ 31 := Nat.lt_of_le_of_lt (size_le_alloc _ _) smallKey
  have position : (writer.key name).offset.toNat = writer.bins.size :=
    toNat_offset_alloc (by omega) _
  have new : contents (writer.key name).offset = none := by
    apply Option.eq_none_iff_forall_ne_some.mpr
    intro content written
    have := run.toNat_lt smallStart written
    omega
  have added := run.extends_update smallStart position.ge (.key (.new name))
  have here := Function.update_self (writer.key name).offset (some (Content.key (.new name)))
    contents
  obtain ⟨middle, run', extend, listed, -⟩ :=
    (run.key name).exists_list .hashLeaf [(writer.key name).offset] smallList
  have other : (writer.key name).offset ≠ cell := by
    rintro rfl
    rw [new] at written
    cases written
  have changed := middle.extendsBut_update cell (.key { record with
    subkeyCount := 0
    subkeyList := ((writer.key name).writer.list .hashLeaf [(writer.key name).offset]).offset })
  have kept := extend (added written)
  have leaf : middle.HasLeaf _ [(writer.key name).offset] :=
    ⟨.hashLeaf, by decide, listed, Nat.le_of_ble_eq_true rfl⟩
  exact ⟨_, _, _, run'.setSubkeys kept _ _, ((added.trans extend).extendsBut cell).trans changed,
    new, changed other (extend here), leaf.keeps (changed.keeps kept), Function.update_self _ _ _⟩

theorem HiveWriter.root_hangUndeclared (writer : HiveWriter) (cell : UInt32) (name : String) :
    (writer.hangUndeclared cell name).root = writer.root := by
  simp only [hangUndeclared, setSubkeys, HiveWriter.list, HiveWriter.key, root_patch, root_alloc]

theorem HiveWriter.size_setSubkeys_le (writer : HiveWriter) (key list count : UInt32) :
    (writer.setSubkeys key list count).bins.size ≤ max writer.bins.size (key.toNat + 0x24) := by
  change (overwrite (overwrite writer.bins _ (u32Bytes count)) _ (u32Bytes list)).size ≤ _
  rw [size_overwrite, size_overwrite, size_u32Bytes, size_u32Bytes]
  omega

theorem HiveWriter.size_hangUndeclared_le (writer : HiveWriter) (cell : UInt32) (name : String) :
    (writer.hangUndeclared cell name).bins.size ≤
      max (writer.bins.size + keySpace name + listSpace .hashLeaf 1) (cell.toNat + 0x24) := by
  have key := size_key writer name
  have list := size_list (writer.key name).writer .hashLeaf [(writer.key name).offset]
  have hung := size_setSubkeys_le
    ((writer.key name).writer.list .hashLeaf [(writer.key name).offset]).writer cell
    ((writer.key name).writer.list .hashLeaf [(writer.key name).offset]).offset 0
  rwa [list, key] at hung

/-- A tree is still laid out when an undeclared key hangs under one of its keys that have no
subkeys. -/
theorem Contents.LaysOut.hangUndeclared {contents later : Contents} {root cell list : UInt32}
    {tree : KeyTree UInt32} (laid : contents.LaysOut root tree) {record : KeyRecord}
    (written : contents cell = some (.key record)) (kept : contents.ExtendsBut cell later)
    (here : later cell = some (.key { record with subkeyCount := 0, subkeyList := list }))
    (alone : ∀ node ∈ tree.nodes, node.cell = cell → node.subkeys = []) :
    later.LaysOut root tree where
  root_eq := laid.root_eq
  distinct := laid.distinct
  written := by
    intro node member
    by_cases other : node.cell = cell
    · obtain ⟨record', written', name, -, values⟩ := laid.written node member
      rw [other, written] at written'
      cases written'
      rw [← other] at here
      refine ⟨_, here, name, .inl ⟨?_, rfl⟩, values.keeps (kept.keeps written)⟩
      rw [alone node member other]
      rfl
    · exact (laid.written node member).extendsBut kept written other

/-- A key that is alone in a list is found there by its name, whatever number of subkeys the key
above declares. -/
theorem Shows.listedNamed?_eq {image : HiveImage} {contents : Contents}
    (shows : Shows image contents) {cell key : UInt32} {record : KeyRecord}
    (here : contents cell = some (.key record)) (stored : IsStoredName record.name)
    {name : String} (hung : contents key = some (.key (.new name))) (valid : IsKeyName name)
    (leaf : contents.HasLeaf record.subkeyList [key]) :
    image.listedNamed? cell name = some key := by
  obtain ⟨above, readable, describes⟩ := shows.keyNode?_eq here stored
  have child : SubkeyWalk.child? image key = some ⟨name, key⟩ :=
    shows.child?_eq hung valid.isStoredName
  have listed : image.childrenAt above.subkeyList = [⟨name, key⟩] := by
    rw [describes.subkeyList, shows.childrenAt_eq (.leaf leaf), List.filterMap_cons, child]
    rfl
  have only : (⟨name, key⟩ : ChildKey) ∈ image.childrenAt above.subkeyList := by
    rw [listed]
    exact List.mem_cons_self
  apply HiveImage.listedNamed?_eq readable only
  intro other member _
  rw [listed, List.mem_singleton] at member
  rw [member]

/-- The cell of the first subkey in `maskedTree`. -/
def maskedKeysCell : UInt32 := ((HiveWriter.start.rootKey "ROOT").writer.key "Keys").offset

/-- The file of `maskedTree`, where a key hangs under the first subkey. -/
def undeclaredWriter : HiveWriter :=
  (layOut maskedTree).2.hangUndeclared maskedKeysCell "More"

/-- The path leads to the key behind the first subkey, but the traversal does not look there. -/
theorem Hive.undeclared_key_passed_over :
    Hive.ofBytes undeclaredWriter.build = .ok undeclaredWriter.hive ∧
      ∃ offset, undeclaredWriter.hive.image.FoundByName
          undeclaredWriter.hive.image.listedNamed? offset ∧
        offset ∉ undeclaredWriter.hive.image.visitedKeys.map (·.offset) := by
  obtain ⟨before, run, laid⟩ := exists_laysOut maskedTree (by decide) size_layOut_maskedTree
  obtain ⟨root, masked, cells⟩ : ∃ root masked,
      (layOut maskedTree).1 = maskedAt root maskedKeysCell masked := ⟨_, _, rfl⟩
  rw [cells] at laid
  obtain ⟨record, written, name, -, -⟩ := laid.written _ (keys_mem_maskedAt root _ masked)
  have small : undeclaredWriter.bins.size < 2 ^ 31 := by
    have layout : (layOut maskedTree).2.bins.size ≤ 1000 :=
      Nat.le_trans (size_layOut_le maskedTree) (by decide)
    have inside : maskedKeysCell.toNat < (layOut maskedTree).2.bins.size :=
      run.toNat_lt size_layOut_maskedTree written
    have grown := size_hangUndeclared_le (layOut maskedTree).2 maskedKeysCell "More"
    have space : keySpace "More" + listSpace .hashLeaf 1 ≤ 1000 := by decide
    change ((layOut maskedTree).2.hangUndeclared maskedKeysCell "More").bins.size < _
    omega
  obtain ⟨contents, key, list, run', kept, new, hung, leaf, here⟩ :=
    run.exists_hangUndeclared written "More" small
  have laid' : contents.LaysOut undeclaredWriter.root (maskedAt root maskedKeysCell masked) := by
    rw [undeclaredWriter, root_hangUndeclared]
    exact laid.hangUndeclared written kept here (subkeys_maskedAt_eq_nil laid.distinct)
  have shown : ShowsMasked undeclaredWriter.image root maskedKeysCell masked :=
    .of_laysOut run' laid' small
  refine ⟨hive_ofBytes_build _, key, ?_, ?_⟩
  · have plain : IsKeyName "Keys" ∧ IsKeyName "More" := by decide
    have stored : IsStoredName record.name := by
      rw [name]
      exact plain.1.isStoredName
    have second : undeclaredWriter.image.listedNamed? maskedKeysCell "More" = some key :=
      (run'.shows small).listedNamed?_eq here stored hung plain.2 leaf
    exact shown.foundByName second
  · intro visited
    have visible := ((HiveImage.mem_visitedKeys_iff key).mp visited).visible
    obtain ⟨node, member, rfl⟩ :=
      exists_node_of_reachable shown.root_eq shown.reads visible.reachable
    obtain ⟨_, earlier, -⟩ := laid.written node member
    cases new.symm.trans earlier

end Undeclared

end RegistryHive
