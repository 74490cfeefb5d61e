import RegistryHive.Proofs.Writing.LayOut

/-!
# Every tree can be laid out

Laying a tree out depth first is a run of a writer. The cells below a key are new
when they are written, and what is written later touches only keys that are still
being filled, so everything that has been completed stays as it is (`exists_fill`).
Together with the way back from a file to its tree, every valid tree that takes
less than two gigabytes is read back as it was laid out.
-/

namespace RegistryHive

namespace Contents

variable {contents middle later : Contents} {cell : UInt32}

/-- Everything that was asked for apart from keys is still asked for. -/
def Keeps (contents later : Contents) : Prop :=
  ∀ ⦃cell content⦄, (∀ record, content ≠ .key record) → contents cell = some content →
    later cell = some content

/-- Everything that was asked for, except at one cell, is still asked for. -/
def ExtendsBut (cell : UInt32) (contents later : Contents) : Prop :=
  ∀ ⦃other content⦄, other ≠ cell → contents other = some content → later other = some content

/-- Everything that was asked for is still asked for. -/
def Extends (contents later : Contents) : Prop :=
  ∀ ⦃cell content⦄, contents cell = some content → later cell = some content

theorem Extends.extendsBut (h : contents.Extends later) (cell : UInt32) :
    contents.ExtendsBut cell later := by
  intro other content _ written
  exact h written

theorem Extends.keeps (h : contents.Extends later) : contents.Keeps later := by
  intro cell content _ written
  exact h written

theorem Extends.trans (first : contents.Extends middle) (second : middle.Extends later) :
    contents.Extends later := by
  intro cell content written
  exact second (first written)

theorem ExtendsBut.trans (first : contents.ExtendsBut cell middle)
    (second : middle.ExtendsBut cell later) : contents.ExtendsBut cell later := by
  intro other content different written
  exact second different (first different written)

/-- Changing what was asked for at a key keeps the rest. -/
theorem ExtendsBut.keeps (h : contents.ExtendsBut cell later) {record : KeyRecord}
    (written : contents cell = some (.key record)) : contents.Keeps later := by
  intro other content notKey here
  apply h ?_ here
  rintro rfl
  rw [written] at here
  exact notKey record (Option.some.inj here).symm

theorem extendsBut_update (contents : Contents) (cell : UInt32) (content : Content) :
    contents.ExtendsBut cell (Function.update contents cell (some content)) := by
  intro other content' different written
  rwa [Function.update_of_ne different]

theorem HasLeaf.keeps {leaf : UInt32} {cells : List UInt32} (has : contents.HasLeaf leaf cells)
    (keeps : contents.Keeps later) : later.HasLeaf leaf cells := by
  obtain ⟨shape, isLeaf, written, fits⟩ := has
  exact ⟨shape, isLeaf, keeps (by simp) written, fits⟩

theorem HasList.keeps {list : UInt32} {cells : List UInt32} (has : contents.HasList list cells)
    (keeps : contents.Keeps later) : later.HasList list cells := by
  cases has with
  | leaf written => exact .leaf (written.keeps keeps)
  | index written few distinct each =>
      apply HasList.index (keeps (by simp) written) few distinct
      exact each.imp fun _ _ leaf => leaf.keeps keeps

theorem HasSubkeys.keeps {record : KeyRecord} {cells : List UInt32}
    (has : contents.HasSubkeys record cells) (keeps : contents.Keeps later) :
    later.HasSubkeys record cells := by
  rcases has with none | ⟨count, list⟩
  · exact .inl none
  · exact .inr ⟨count, list.keeps keeps⟩

theorem HasValues.keeps {record : KeyRecord} {values : List WrittenValue}
    (has : contents.HasValues record values) (keeps : contents.Keeps later) :
    later.HasValues record values := by
  rcases has with none | ⟨count, cells, written, each⟩
  · exact .inl none
  · refine .inr ⟨count, cells, keeps (by simp) written, ?_⟩
    exact each.imp fun _ _ value => keeps (by simp) value

/-- Filling one key leaves another one as it was written. -/
theorem HasKey.extendsBut {tree : KeyTree UInt32} (has : contents.HasKey tree)
    (h : contents.ExtendsBut cell later) {record : KeyRecord}
    (written : contents cell = some (.key record)) (other : tree.cell ≠ cell) :
    later.HasKey tree := by
  obtain ⟨record', here, name, subkeys, values⟩ := has
  have keeps := h.keeps written
  exact ⟨record', h other here, name, subkeys.keeps keeps, values.keeps keeps⟩

theorem HasKey.extends {tree : KeyTree UInt32} (has : contents.HasKey tree)
    (h : contents.Extends later) : later.HasKey tree := by
  obtain ⟨record, here, name, subkeys, values⟩ := has
  exact ⟨record, h here, name, subkeys.keeps h.keeps, values.keeps h.keeps⟩

end Contents

/-- What was asked for stands in a cell. -/
theorem Content.StoredIn.exists_cell {heap : CellHeap} {cell : UInt32} {content : Content}
    (stored : content.StoredIn heap cell) : ∃ here, heap cell = some here := by
  cases content with
  | key record =>
      obtain ⟨body, here, -⟩ := stored
      exact ⟨_, here⟩
  | list shape offsets => exact ⟨_, stored⟩
  | value value =>
      obtain ⟨fields, here, -⟩ := stored
      exact ⟨_, here⟩
  | valueList offsets => exact ⟨_, stored⟩

namespace HiveWriter

namespace Run

variable {writer : HiveWriter} {contents : Contents}

/-- What was asked for so far stands in the bin as far as it is written. -/
theorem toNat_lt (run : Run writer contents) (small : writer.bins.size < 2 ^ 31) {cell : UInt32}
    {content : Content} (written : contents cell = some content) :
    cell.toNat < writer.bins.size := by
  obtain ⟨heap, stores⟩ := run.stores small
  obtain ⟨here, stored⟩ := (stores.stored written).exists_cell
  have ends := stores.represents.end_le stored
  omega

/-- What is asked for at a new offset adds to what was asked for before. -/
theorem extends_update (run : Run writer contents) (small : writer.bins.size < 2 ^ 31)
    {offset : UInt32} (new : writer.bins.size ≤ offset.toNat) (content : Content) :
    contents.Extends (Function.update contents offset (some content)) := by
  intro cell content' written
  have old := run.toNat_lt small written
  apply Contents.extendsBut_update contents offset content ?_ written
  rintro rfl
  omega

/-- A new key joins what was asked for. -/
theorem exists_key (run : Run writer contents) (name : String)
    (small : (writer.key name).writer.bins.size < 2 ^ 31) :
    ∃ later, Run (writer.key name).writer later ∧ contents.Extends later ∧
      later (writer.key name).offset = some (.key (.new name)) := by
  have small' : writer.bins.size < 2 ^ 31 := Nat.lt_of_le_of_lt (size_le_alloc _ _) small
  have position : (writer.key name).offset.toNat = writer.bins.size :=
    toNat_offset_alloc (by omega) _
  exact ⟨_, run.key name, run.extends_update small' position.ge _, Function.update_self _ _ _⟩

/-- A list stands at the offset that is given for it, behind everything else. -/
theorem exists_list (run : Run writer contents) (shape : ListShape) (offsets : List UInt32)
    (small : (writer.list shape offsets).writer.bins.size < 2 ^ 31) :
    ∃ later, Run (writer.list shape offsets).writer later ∧ contents.Extends later ∧
      later (writer.list shape offsets).offset = some (.list shape offsets) ∧
      (writer.list shape offsets).offset.toNat = writer.bins.size := by
  have small' : writer.bins.size < 2 ^ 31 := Nat.lt_of_le_of_lt (size_le_alloc _ _) small
  have position : (writer.list shape offsets).offset.toNat = writer.bins.size :=
    toNat_offset_alloc (by omega) _
  exact ⟨_, run.list shape offsets, run.extends_update small' position.ge _,
    Function.update_self _ _ _, position⟩

/-- Leaves name the cells that they are given, and each of them stands at its own offset. -/
theorem exists_leaves (run : Run writer contents) (plan : List (ListShape × Nat))
    (fits : ∀ leaf ∈ plan, leaf.1 ≠ .indexRoot ∧ leaf.2 ≤ 65535) (cells : List UInt32)
    (total : (plan.map (·.2)).sum = cells.length)
    (small : (writer.leaves plan cells).2.bins.size < 2 ^ 31) :
    ∃ later parts, Run (writer.leaves plan cells).2 later ∧ contents.Extends later ∧
      List.Forall₂ later.HasLeaf (writer.leaves plan cells).1 parts ∧ parts.flatten = cells ∧
      (writer.leaves plan cells).1.Nodup ∧
      ∀ leaf ∈ (writer.leaves plan cells).1, writer.bins.size ≤ leaf.toNat := by
  induction plan generalizing writer contents cells with
  | nil =>
      have none : cells = [] := List.length_eq_zero_iff.mp total.symm
      refine ⟨contents, [], run, fun _ _ h => h, .nil, none.symm, List.nodup_nil, ?_⟩
      intro leaf member
      exact absurd member List.not_mem_nil
  | cons leaf rest ih =>
      obtain ⟨isLeaf, few⟩ := fits leaf List.mem_cons_self
      rw [List.map_cons, List.sum_cons] at total
      have small' : (writer.list leaf.1 (cells.take leaf.2)).writer.bins.size < 2 ^ 31 :=
        Nat.lt_of_le_of_lt (size_le_leaves _ rest _) small
      obtain ⟨middle, run', extend, here, position⟩ := run.exists_list _ _ small'
      have fits' : ∀ other ∈ rest, other.1 ≠ .indexRoot ∧ other.2 ≤ 65535 := by
        intro other later
        exact fits other (List.mem_cons_of_mem leaf later)
      have total' : (rest.map (·.2)).sum = (cells.drop leaf.2).length := by
        rw [List.length_drop]
        omega
      obtain ⟨later, parts, run'', extend', each, flat, distinct, behind⟩ :=
        ih run' fits' (cells.drop leaf.2) total' small
      have first : later.HasLeaf (writer.list leaf.1 (cells.take leaf.2)).offset
          (cells.take leaf.2) := by
        refine ⟨leaf.1, isLeaf, extend' here, ?_⟩
        rw [List.length_take]
        omega
      have grown : writer.bins.size <
          (writer.list leaf.1 (cells.take leaf.2)).writer.bins.size := size_lt_alloc writer _
      refine ⟨later, cells.take leaf.2 :: parts, run'', extend.trans extend', .cons first each,
        ?_, ?_, ?_⟩
      · rw [List.flatten_cons, flat, List.take_append_drop]
      · apply List.nodup_cons.mpr
        constructor
        · intro member
          have := behind _ member
          omega
        · exact distinct
      · intro other member
        rcases List.mem_cons.mp member with rfl | member
        · exact position.ge
        · exact Nat.le_trans grown.le (behind other member)

/-- Lists that are written by a plan name the cells that they are given. -/
theorem exists_listBy (run : Run writer contents) (cells : List UInt32) (plan : ListPlan)
    (fits : plan.Fits cells.length) (small : (writer.listBy cells plan).writer.bins.size < 2 ^ 31) :
    ∃ later, Run (writer.listBy cells plan).writer later ∧ contents.Extends later ∧
      later.HasList (writer.listBy cells plan).offset cells := by
  cases plan with
  | leaf shape =>
      obtain ⟨isLeaf, few⟩ := fits
      obtain ⟨later, run', extend, here, -⟩ := run.exists_list shape cells small
      exact ⟨later, run', extend, .leaf ⟨shape, isLeaf, here, few⟩⟩
  | index plan =>
      obtain ⟨few, each, total⟩ := fits
      have small' : (writer.leaves plan cells).2.bins.size < 2 ^ 31 :=
        Nat.lt_of_le_of_lt (size_le_alloc _ _) small
      obtain ⟨middle, parts, run', extend, leaves, rfl, distinct, -⟩ :=
        run.exists_leaves plan each cells total small'
      obtain ⟨later, run'', extend', here, -⟩ := run'.exists_list .indexRoot _ small
      refine ⟨later, run'', extend.trans extend', .index here ?_ distinct ?_⟩
      · rwa [length_leaves]
      · apply leaves.imp
        intro leaf part has
        exact has.keeps extend'.keeps

theorem exists_allValues (run : Run writer contents) (values : List WrittenValue)
    (small : (writer.allValues values).2.bins.size < 2 ^ 31) :
    ∃ later, Run (writer.allValues values).2 later ∧ contents.Extends later ∧
      List.Forall₂ (fun cell value => later cell = some (.value value))
        (writer.allValues values).1 values := by
  induction values generalizing writer contents with
  | nil => exact ⟨contents, run, fun _ _ h => h, .nil⟩
  | cons value rest ih =>
      have small' : (writer.value value).writer.bins.size < 2 ^ 31 :=
        Nat.lt_of_le_of_lt (size_le_allValues _ rest) small
      have grown := size_le_payload writer value.payload
      have small'' : (writer.payload value.payload).2.bins.size < 2 ^ 31 :=
        Nat.lt_of_le_of_lt (size_le_alloc _ _) small'
      have position : (writer.value value).offset.toNat =
          (writer.payload value.payload).2.bins.size := toNat_offset_alloc (by omega) _
      have extend : contents.Extends
          (Function.update contents (writer.value value).offset (some (.value value))) :=
        run.extends_update (by omega) (by omega) _
      obtain ⟨later, run', extend', each⟩ := ih (run.value value) small
      have here := extend' (Function.update_self (writer.value value).offset
        (some (.value value)) contents)
      exact ⟨later, run', extend.trans extend', .cons here each⟩

/-- Hanging subkeys under a key changes this key and adds the lists. -/
theorem exists_hangSubkeys (run : Run writer contents) {key : UInt32} {record : KeyRecord}
    (written : contents key = some (.key record)) (plan : ListPlan) (cells : List UInt32)
    (fits : plan.Fits cells.length)
    (small : (writer.hangSubkeys key plan cells).bins.size < 2 ^ 31) :
    ∃ later list, Run (writer.hangSubkeys key plan cells) later ∧
      contents.ExtendsBut key later ∧ later.HasList list cells ∧
      later key = some (.key { record with
        subkeyCount := UInt32.ofNat cells.length, subkeyList := list }) := by
  have small' : (writer.listBy cells plan).writer.bins.size < 2 ^ 31 :=
    Nat.lt_of_le_of_lt (size_le_setSubkeys _ key _ _) small
  obtain ⟨middle, run', extend, list⟩ := run.exists_listBy cells plan fits small'
  have changed := middle.extendsBut_update key (.key { record with
    subkeyCount := UInt32.ofNat cells.length, subkeyList := (writer.listBy cells plan).offset })
  refine ⟨_, _, run'.setSubkeys (extend written) _ _, ?_, ?_, Function.update_self _ _ _⟩
  · exact (extend.extendsBut key).trans changed
  · exact list.keeps (changed.keeps (extend written))

/-- Hanging a list of values under a key changes this key and adds the list. -/
theorem exists_setValues (run : Run writer contents) {key : UInt32} {record : KeyRecord}
    (written : contents key = some (.key record)) (cells : List UInt32)
    (small : (writer.setValues key cells).bins.size < 2 ^ 31) :
    ∃ later list, Run (writer.setValues key cells) later ∧ contents.ExtendsBut key later ∧
      later list = some (.valueList cells) ∧
      later key = some (.key { record with
        valueCount := UInt32.ofNat cells.length, valueList := list }) := by
  have small' : writer.bins.size < 2 ^ 31 := Nat.lt_of_le_of_lt (size_le_setValues _ key _) small
  have position : (writer.alloc (offsetsBody cells)).offset.toNat = writer.bins.size :=
    toNat_offset_alloc (by omega) _
  have listed := run.extends_update small' position.ge (.valueList cells)
  have changed := Contents.extendsBut_update (Function.update contents
    (writer.alloc (offsetsBody cells)).offset (some (.valueList cells))) key
    (.key { record with
      valueCount := UInt32.ofNat cells.length
      valueList := (writer.alloc (offsetsBody cells)).offset })
  refine ⟨_, _, run.setValues written cells, ?_, ?_, Function.update_self _ _ _⟩
  · exact (listed.extendsBut key).trans changed
  · exact changed.keeps (listed written) (by simp) (Function.update_self _ _ _)

/-- Hanging values under a key changes this key and adds the values and their list. -/
theorem exists_hangValues (run : Run writer contents) {key : UInt32} {record : KeyRecord}
    (written : contents key = some (.key record)) (values : List WrittenValue)
    (small : (writer.hangValues key values).bins.size < 2 ^ 31) :
    ∃ later list cells, Run (writer.hangValues key values) later ∧
      contents.ExtendsBut key later ∧ later list = some (.valueList cells) ∧
      List.Forall₂ (fun cell value => later cell = some (.value value)) cells values ∧
      later key = some (.key { record with
        valueCount := UInt32.ofNat values.length, valueList := list }) := by
  have small' : (writer.allValues values).2.bins.size < 2 ^ 31 :=
    Nat.lt_of_le_of_lt (size_le_setValues _ key _) small
  obtain ⟨middle, run', extend, each⟩ := run.exists_allValues values small'
  obtain ⟨later, list, run'', changed, listed, here⟩ :=
    run'.exists_setValues (extend written) _ small
  have keeps := changed.keeps (extend written)
  rw [each.length_eq] at here
  refine ⟨later, list, _, run'', (extend.extendsBut key).trans changed, listed, ?_, here⟩
  exact each.imp fun _ _ value => keeps (by simp) value

end Run

/-- A tree has been written below a key: to cells behind a position, apart from the key itself,
and nothing else has changed. -/
structure Filled (position : Nat) (cell : UInt32) (contents : Contents) (tree : KeyTree UInt32)
    (later : Contents) : Prop where
  kept : contents.ExtendsBut cell later
  cell_eq : tree.cell = cell
  written : ∀ node ∈ tree.nodes, later.HasKey node
  behind : ∀ node ∈ KeyTree.nodesAll tree.subkeys, position ≤ node.cell.toNat
  distinct : (tree.nodes.map KeyTree.cell).Nodup

/-- Trees have been written to cells behind a position, and nothing else has changed. -/
structure FilledAll (position : Nat) (contents : Contents) (trees : List (KeyTree UInt32))
    (later : Contents) : Prop where
  kept : contents.Extends later
  written : ∀ node ∈ KeyTree.nodesAll trees, later.HasKey node
  behind : ∀ node ∈ KeyTree.nodesAll trees, position ≤ node.cell.toNat
  distinct : ((KeyTree.nodesAll trees).map KeyTree.cell).Nodup

section Fill

variable {writer : HiveWriter} {contents middle : Contents} {cell : UInt32}

/-- A key is complete when its lists are hung under it after everything below it. -/
theorem FilledAll.exists_filled {after : HiveWriter} {trees : List (KeyTree UInt32)}
    (below : FilledAll writer.bins.size contents trees middle) (run : Run after middle)
    {name : String} (written : contents cell = some (.key (.new name)))
    (old : cell.toNat < writer.bins.size) (plan : ListPlan) (fits : plan.Fits trees.length)
    (values : List WrittenValue)
    (small : ((after.hangSubkeys cell plan (trees.map KeyTree.cell)).hangValues cell
      values).bins.size < 2 ^ 31) :
    ∃ later, Run ((after.hangSubkeys cell plan (trees.map KeyTree.cell)).hangValues cell values)
        later ∧
      Filled writer.bins.size cell contents (.node cell name values trees) later := by
  have small' : (after.hangSubkeys cell plan (trees.map KeyTree.cell)).bins.size < 2 ^ 31 :=
    Nat.lt_of_le_of_lt (size_le_hangValues _ cell values) small
  rw [← List.length_map KeyTree.cell] at fits
  have here := below.kept written
  obtain ⟨hung, list, run', changed, named, here'⟩ :=
    run.exists_hangSubkeys here plan _ fits small'
  obtain ⟨later, valueList, cells, run'', changed', listed, each, here''⟩ :=
    run'.exists_hangValues here' values small
  have apart : ∀ node ∈ KeyTree.nodesAll trees, node.cell ≠ cell := by
    rintro node member rfl
    have := below.behind node member
    omega
  refine ⟨later, run'', ?_⟩
  constructor
  · exact (below.kept.extendsBut cell).trans (changed.trans changed')
  · rfl
  · intro node member
    rw [KeyTree.nodes, List.mem_cons] at member
    rcases member with rfl | member
    · refine ⟨_, here'', rfl, ?_, ?_⟩
      · exact .inr ⟨rfl, named.keeps (changed'.keeps here')⟩
      · exact .inr ⟨rfl, cells, listed, each⟩
    · apply (below.written node member).extendsBut (changed.trans changed') here
      exact apart node member
  · exact below.behind
  · rw [KeyTree.nodes, List.map_cons, List.nodup_cons]
    constructor
    · intro member
      obtain ⟨node, inside, same⟩ := List.mem_map.mp member
      exact apart node inside same
    · exact below.distinct

/-- A key that was new when the tree below it was written. -/
theorem Filled.of_update {position : Nat} {content : Option Content} {tree : KeyTree UInt32}
    {later : Contents} (filled : Filled position cell (Function.update contents cell content) tree
      later) : Filled position cell contents tree later := by
  constructor
  · intro other content different written
    apply filled.kept different
    rwa [Function.update_of_ne different]
  · exact filled.cell_eq
  · exact filled.written
  · exact filled.behind
  · exact filled.distinct

/-- Trees that are written behind a tree leave it as it is. -/
theorem Filled.cons {position : Nat} {after : HiveWriter} {tree : KeyTree UInt32}
    {rest : List (KeyTree UInt32)} {later : Contents}
    (first : Filled position cell contents tree middle)
    (others : FilledAll after.bins.size middle rest later) (run : Run after middle)
    (small : after.bins.size < 2 ^ 31) (new : contents cell = none) (start : cell.toNat ≤ position)
    (grown : cell.toNat ≤ after.bins.size) :
    FilledAll cell.toNat contents (tree :: rest) later := by
  constructor
  · intro other content written
    apply others.kept
    apply first.kept ?_ written
    rintro rfl
    rw [new] at written
    cases written
  · intro node member
    rw [KeyTree.nodesAll, List.mem_append] at member
    rcases member with member | member
    · exact (first.written node member).extends others.kept
    · exact others.written node member
  · intro node member
    rw [KeyTree.nodesAll, List.mem_append] at member
    rcases member with member | member
    · obtain ⟨mark, name, values, subkeys⟩ := tree
      rw [KeyTree.nodes, List.mem_cons] at member
      rcases member with rfl | member
      · rw [first.cell_eq]
      · exact Nat.le_trans start (first.behind node member)
    · exact Nat.le_trans grown (others.behind node member)
  · rw [KeyTree.nodesAll, List.map_append, List.nodup_append]
    refine ⟨first.distinct, others.distinct, ?_⟩
    rintro here before there behind rfl
    obtain ⟨node, member, rfl⟩ := List.mem_map.mp before
    obtain ⟨node', member', same⟩ := List.mem_map.mp behind
    obtain ⟨record, written, -⟩ := first.written node member
    have old := run.toNat_lt small written
    have := others.behind node' member'
    rw [same] at this
    omega

theorem FilledAll.nil (position : Nat) (contents : Contents) :
    FilledAll position contents [] contents := by
  constructor
  · intro cell content written
    exact written
  · intro node member
    exact absurd member List.not_mem_nil
  · intro node member
    exact absurd member List.not_mem_nil
  · exact List.nodup_nil

mutual

/-- Filling a key writes everything below it to new cells, and changes nothing else. -/
theorem exists_fill : (tree : KeyTree ListPlan) → {writer : HiveWriter} → {contents : Contents} →
    {cell : UInt32} → Run writer contents → tree.Fits →
    contents cell = some (.key (.new tree.name)) → cell.toNat < writer.bins.size →
    (writer.fill cell tree).2.bins.size < 2 ^ 31 →
    ∃ later, Run (writer.fill cell tree).2 later ∧
      Filled writer.bins.size cell contents (writer.fill cell tree).1 later
  | .node plan name values subkeys, writer, contents, cell => by
      intro run fits written old small
      have fitsBelow : ∀ tree ∈ subkeys, tree.Fits := by
        intro tree listed node member
        apply fits
        rw [KeyTree.nodes]
        exact List.mem_cons_of_mem _ (KeyTree.mem_nodesAll listed member)
      have fitsHere : plan.Fits (writer.fillAll subkeys).1.length := by
        rw [length_fillAll]
        exact fits _ (KeyTree.node plan name values subkeys).mem_nodes_self
      rw [fill] at small ⊢
      have small' : (writer.fillAll subkeys).2.bins.size < 2 ^ 31 := by
        apply Nat.lt_of_le_of_lt ?_ small
        exact Nat.le_trans (size_le_hangSubkeys _ cell plan _) (size_le_hangValues _ cell values)
      obtain ⟨middle, run', below⟩ := exists_fillAll subkeys run fitsBelow small'
      exact below.exists_filled run' written old plan fitsHere values small

/-- Trees that are written one after the other do not disturb each other. -/
theorem exists_fillAll : (trees : List (KeyTree ListPlan)) → {writer : HiveWriter} →
    {contents : Contents} → Run writer contents → (∀ tree ∈ trees, tree.Fits) →
    (writer.fillAll trees).2.bins.size < 2 ^ 31 →
    ∃ later, Run (writer.fillAll trees).2 later ∧
      FilledAll writer.bins.size contents (writer.fillAll trees).1 later
  | [], writer, contents => by
      intro run _ _
      exact ⟨contents, run, .nil _ contents⟩
  | tree :: rest, writer, contents => by
      intro run fits small
      rw [fillAll] at small ⊢
      have small' : ((writer.key tree.name).writer.fill (writer.key tree.name).offset
          tree).2.bins.size < 2 ^ 31 := Nat.lt_of_le_of_lt (size_le_fillAll _ rest) small
      have grown := size_le_fill (writer.key tree.name).writer (writer.key tree.name).offset tree
      have room : writer.bins.size < (writer.key tree.name).writer.bins.size :=
        size_lt_alloc writer _
      have position : (writer.key tree.name).offset.toNat = writer.bins.size :=
        toNat_offset_alloc (by omega) _
      have new : contents (writer.key tree.name).offset = none := by
        apply Option.eq_none_iff_forall_ne_some.mpr
        intro content written
        have := run.toNat_lt (by omega) written
        omega
      have written := Function.update_self (writer.key tree.name).offset
        (some (Content.key (.new tree.name))) contents
      obtain ⟨middle, run', first⟩ := exists_fill tree (run.key tree.name)
        (fits tree List.mem_cons_self) written (by omega) small'
      obtain ⟨later, run'', others⟩ := exists_fillAll rest run'
        (fun other listed => fits other (List.mem_cons_of_mem tree listed)) small
      have first' := first.of_update
      refine ⟨later, run'', ?_⟩
      rw [← position]
      exact first'.cons others run' small' new (by omega) (by omega)

end

end Fill

/-- Laying out a tree is a run of a writer. -/
theorem exists_laysOut (tree : KeyTree ListPlan) (fits : tree.Fits)
    (small : (layOut tree).2.bins.size < 2 ^ 31) :
    ∃ contents, Run (layOut tree).2 contents ∧
      contents.LaysOut (layOut tree).2.root (layOut tree).1 := by
  have old : (HiveWriter.start.rootKey tree.name).offset.toNat <
      (HiveWriter.start.rootKey tree.name).writer.bins.size :=
    Nat.lt_of_lt_of_le (Nat.lt_add_of_pos_right (by decide))
      (offset_rootKey_le HiveWriter.start tree.name)
  have written := Function.update_self (HiveWriter.start.rootKey tree.name).offset
    (some (Content.key (.new tree.name))) fun _ => none
  obtain ⟨contents, run, filled⟩ :=
    exists_fill tree (Run.start.rootKey tree.name) fits written old small
  refine ⟨contents, run, ?_⟩
  constructor
  · have root : (layOut tree).2.root = (HiveWriter.start.rootKey tree.name).offset :=
      root_fill _ _ tree
    rw [root]
    exact filled.cell_eq
  · exact filled.distinct
  · exact filled.written

end HiveWriter

end RegistryHive
