import Mathlib.Data.List.Nodup
import RegistryHive.Proofs.Traversal.Flatten
import RegistryHive.Proofs.Writing.DepthFirst

/-!
# Keys that the limits of a walk hide

A walk enters a list once, and it does not enter a list inside of `maxListDepth`
others. The two limits do not go together. An index root that is entered as the
innermost list that is allowed counts as visited, but the lists that it names are too
deep; it is *cut off*. When a shorter chain of lists leads to the same index root
later, the walk passes it over, and the lists that it names may never be entered.

`mem_childrenAt_iff_listChain` says exactly what is yielded: the keys in the leaves at
the ends of those chains that do not go on through a list that is cut off. A list is
only cut off at the end of a chain of `maxListDepth` lists.
`childrenAt_eq_nil_of_descent` is the loss at its plainest, and `listed_key_cut_off`
shows it in a file.
-/

namespace RegistryHive

namespace HiveImage

/-- A chain of so many lists leads from the first list to the list at an offset. Each is named by
the one before it, and the chain goes on only through lists that it may go on through. -/
inductive ListChain (image : HiveImage) (through : UInt32 → Prop) (first : UInt32) :
    Nat → UInt32 → Prop
  | start : ListChain image through first 1 first
  | next {length : Nat} {list member : UInt32} : ListChain image through first length list →
      through list → member ∈ image.memberLists list →
        ListChain image through first (length + 1) member

/-- The list at an offset is entered by the walk from the first list, as the innermost list that is
allowed. -/
def CutOff (image : HiveImage) (first offset : UInt32) : Prop :=
  ∃ visit ∈ (image.flatten first 0 ∅).visits,
    visit.offset = offset ∧ visit.depth + 1 = maxListDepth

/-- No list is at the null offset. -/
theorem lists_of_null (image : HiveImage) :
    image.memberLists nullOffset = [] ∧ image.leafKeys nullOffset = [] := by
  apply lists_of_slotTable?_eq_none
  rw [slotTable?, cellBody, if_pos rfl]

end HiveImage

/-- The cells that recursion takes as lists are the targets that it is handed, and the lists that
these name, as far as they are neither too deep nor visited before. -/
structure Flattened.Spans (image : HiveImage) (targets : List UInt32) (depth : Nat)
    (visited : OffsetSet) (flat : Flattened) : Prop extends flat.Accounts image visited where
  shallow : ∀ visit ∈ flat.visits, visit.depth < maxListDepth
  reached : depth < maxListDepth → ∀ target ∈ targets, target = nullOffset ∨ target ∈ flat.after
  named : ∀ visit ∈ flat.visits,
    visit.offset ∈ targets ∧ visit.depth = depth ∨
      ∃ outer ∈ flat.visits,
        visit.offset ∈ image.memberLists outer.offset ∧ visit.depth = outer.depth + 1
  followed : ∀ visit ∈ flat.visits, visit.depth + 1 < maxListDepth →
    ∀ member ∈ image.memberLists visit.offset, member = nullOffset ∨ member ∈ flat.after

namespace Flattened.Spans

variable {image : HiveImage} {visited : OffsetSet} {depth : Nat}

theorem nothing {targets : List UInt32}
    (refused : depth < maxListDepth → ∀ target ∈ targets,
      target = nullOffset ∨ target ∈ visited) :
    (Flattened.nothing visited).Spans image targets depth visited where
  toAccounts := .nothing image visited
  shallow _ member := absurd member List.not_mem_nil
  reached := refused
  named _ member := absurd member List.not_mem_nil
  followed _ member := absurd member List.not_mem_nil

theorem append {target : UInt32} {rest : List UInt32} {first others : Flattened}
    (h : first.Spans image [target] depth visited)
    (h' : others.Spans image rest depth first.after) :
    (first.append others).Spans image (target :: rest) depth visited where
  toAccounts := h.toAccounts.append h'.toAccounts
  shallow visit member := by
    obtain here | later := List.mem_append.mp member
    · exact h.shallow visit here
    · exact h'.shallow visit later
  reached shallow other member := by
    obtain rfl | later := List.mem_cons.mp member
    · exact (h.reached shallow other List.mem_cons_self).imp_right fun before =>
        (h'.mem_after_iff other).mpr (.inl before)
    · exact h'.reached shallow other later
  named visit member := by
    obtain here | later := List.mem_append.mp member
    · obtain ⟨handed, same⟩ | ⟨outer, among, names⟩ := h.named visit here
      · exact .inl ⟨List.mem_cons.mpr (.inl (List.mem_singleton.mp handed)), same⟩
      · exact .inr ⟨outer, List.mem_append_left _ among, names⟩
    · obtain ⟨handed, same⟩ | ⟨outer, among, names⟩ := h'.named visit later
      · exact .inl ⟨List.mem_cons_of_mem _ handed, same⟩
      · exact .inr ⟨outer, List.mem_append_right _ among, names⟩
  followed visit member shallow other named := by
    obtain here | later := List.mem_append.mp member
    · exact (h.followed visit here shallow other named).imp_right fun before =>
        (h'.mem_after_iff other).mpr (.inl before)
    · exact h'.followed visit later shallow other named

theorem entered {offset : UInt32} {members : Flattened} (shallow : depth < maxListDepth)
    (new : offset ∉ visited)
    (h : members.Spans image (image.memberLists offset) (depth + 1) (visited.insert offset)) :
    ({ members with keys := image.leafKeys offset ++ members.keys }.within
      { offset := offset, depth := depth }).Spans image [offset] depth visited where
  toAccounts := h.toAccounts.entered depth new
  shallow visit member := by
    obtain rfl | later := List.mem_cons.mp member
    · exact shallow
    · exact h.shallow visit later
  reached _ target member := by
    obtain rfl := List.mem_singleton.mp member
    exact .inr ((h.mem_after_iff target).mpr (.inl Std.HashSet.mem_insert_self))
  named visit member := by
    obtain rfl | later := List.mem_cons.mp member
    · exact .inl ⟨List.mem_singleton.mpr rfl, rfl⟩
    · obtain ⟨handed, same⟩ | ⟨outer, among, names⟩ := h.named visit later
      · exact .inr ⟨_, List.mem_cons_self, handed, same⟩
      · exact .inr ⟨outer, List.mem_cons_of_mem _ among, names⟩
  followed visit member inner other named := by
    obtain rfl | later := List.mem_cons.mp member
    · exact h.reached inner other named
    · exact h.followed visit later inner other named

end Flattened.Spans

namespace HiveImage

theorem spans_flatten (image : HiveImage) (offset : UInt32) (depth : Nat) (visited : OffsetSet) :
    (image.flatten offset depth visited).Spans image [offset] depth visited := by
  rw [← flattenAll_singleton]
  refine flatten_induct (fun offsets depth visited flat => flat.Spans image offsets depth visited)
    ?_ ?_ ?_ ?_ [offset] depth visited
  · intro depth visited
    exact .nothing fun _ target member => absurd member List.not_mem_nil
  · intro offset depth visited refused
    refine .nothing fun shallow target member => ?_
    obtain rfl := List.mem_singleton.mp member
    obtain null | deep | old := refused
    · exact .inl null
    · exact absurd shallow (Nat.not_lt.mpr deep)
    · exact .inr old
  · intro offset depth visited members _ shallow new spans
    exact spans.entered shallow new
  · intro offset rest depth visited first others here later
    exact here.append later

section Chains

variable {image : HiveImage} {first : UInt32}

/-- A cell that recursion takes as a list at some depth ends a chain of as many lists. None of the
lists before it is cut off. -/
theorem listChain_of_mem_visits {visit : ListVisit}
    (member : visit ∈ (image.flatten first 0 ∅).visits) :
    image.ListChain (fun list => ¬ image.CutOff first list) first (visit.depth + 1)
      visit.offset := by
  have spans := image.spans_flatten first 0 ∅
  -- The induction is on the number of lists around the cell.
  generalize depth : visit.depth = inside
  induction inside generalizing visit with
  | zero =>
      obtain ⟨handed, -⟩ | ⟨outer, -, -, deeper⟩ := spans.named visit member
      · rw [List.mem_singleton.mp handed]
        exact .start
      · omega
  | succ inside ih =>
      obtain ⟨-, outermost⟩ | ⟨outer, among, names, deeper⟩ := spans.named visit member
      · omega
      · refine .next (ih among (by omega)) ?_ names
        rintro ⟨again, among', same, innermost⟩
        obtain rfl := List.inj_on_of_nodup_map spans.distinct among' among same
        have := spans.shallow visit member
        omega

/-- Every chain that goes on through no list that is cut off ends at a cell that recursion takes as
a list, or at the null offset. -/
theorem ListChain.exists_visit {length : Nat} {list : UInt32}
    (chain : image.ListChain (fun list => ¬ image.CutOff first list) first length list) :
    list = nullOffset ∨ ∃ visit ∈ (image.flatten first 0 ∅).visits, visit.offset = list := by
  have spans := image.spans_flatten first 0 ∅
  have visited {offset : UInt32} (after : offset ∈ (image.flatten first 0 ∅).after) :
      ∃ visit ∈ (image.flatten first 0 ∅).visits, visit.offset = offset := by
    obtain before | here := (spans.mem_after_iff offset).mp after
    · exact absurd before Std.HashSet.not_mem_empty
    · exact List.mem_map.mp here
  induction chain with
  | start =>
      exact (spans.reached (by decide) first List.mem_cons_self).imp_right visited
  | @next length list member chain open_ names ih =>
      obtain rfl | ⟨visit, among, rfl⟩ := ih
      · rw [(lists_of_null image).1] at names
        exact absurd names List.not_mem_nil
      · have shallow := spans.shallow visit among
        have apart : visit.depth + 1 ≠ maxListDepth := fun innermost =>
          open_ ⟨visit, among, rfl, innermost⟩
        exact (spans.followed visit among (by omega) member names).imp_right visited

end Chains

/-- A walk yields a key exactly if a leaf names it that ends a chain of at most `maxListDepth`
lists, none of which is cut off before the leaf. A list that is cut off ends such a chain of
`maxListDepth` lists. -/
theorem mem_childrenAt_iff_listChain (image : HiveImage) (first : UInt32) :
    (∀ child, child ∈ image.childrenAt first ↔
      ∃ length leaf, length ≤ maxListDepth ∧
        image.ListChain (fun list => ¬ image.CutOff first list) first length leaf ∧
        child ∈ image.leafKeys leaf) ∧
    ∀ list, image.CutOff first list →
      image.ListChain (fun list => ¬ image.CutOff first list) first maxListDepth list := by
  have spans := image.spans_flatten first 0 ∅
  constructor
  · intro child
    rw [childrenAt_eq_keys, spans.keys_eq, List.mem_flatMap]
    constructor
    · rintro ⟨visit, member, listed⟩
      exact ⟨visit.depth + 1, visit.offset, spans.shallow visit member,
        listChain_of_mem_visits member, listed⟩
    · rintro ⟨length, leaf, -, chain, listed⟩
      obtain rfl | ⟨visit, member, rfl⟩ := chain.exists_visit
      · rw [(lists_of_null image).2] at listed
        exact absurd listed List.not_mem_nil
      · exact ⟨visit, member, listed⟩
  · rintro list ⟨visit, member, rfl, innermost⟩
    rw [← innermost]
    exact listChain_of_mem_visits member

end HiveImage

section Descent

/-- So many steps lead down from one list to another. In each of them a list names a list that lies
before it in the file. -/
inductive Descent (names : UInt32 → UInt32 → Prop) : Nat → UInt32 → UInt32 → Prop
  | here (list : UInt32) : Descent names 0 list list
  | down {steps : Nat} {top next bottom : UInt32} : names top next → next < top →
      Descent names steps next bottom → Descent names (steps + 1) top bottom

theorem Descent.imp {names names' : UInt32 → UInt32 → Prop} {steps : Nat} {top bottom : UInt32}
    (descent : Descent names steps top bottom)
    (imp : ∀ top next, names top next → names' top next) : Descent names' steps top bottom := by
  induction descent with
  | here list => exact .here list
  | down named below _ ih => exact .down (imp _ _ named) below ih

namespace HiveImage

variable {image : HiveImage}

/-- A list is an index root with a single slot. -/
def NamesOnly (image : HiveImage) (list member : UInt32) : Prop :=
  image.memberLists list = [member] ∧ image.leafKeys list = []

theorem flattenAll_of_deep {depth : Nat} (deep : maxListDepth ≤ depth) (offsets : List UInt32)
    (visited : OffsetSet) : flattenAll image offsets depth visited = .nothing visited := by
  induction offsets with
  | nil => exact flattenAll_nil
  | cons offset rest ih =>
      rw [flattenAll_cons, flatten_of_refused (.inr (.inl deep))]
      exact congrArg _ ih

/-- A list that lies before all lists that have been visited is entered. -/
theorem accepted_of_lt {list : UInt32} {depth : Nat} {visited : OffsetSet}
    (shallow : depth < maxListDepth) (valid : list < nullOffset)
    (above : ∀ other ∈ visited, list < other) :
    ¬ (list = nullOffset ∨ maxListDepth ≤ depth ∨ list ∈ visited) := by
  rintro (rfl | deep | old)
  · exact UInt32.lt_irrefl _ valid
  · exact Nat.not_lt.mpr deep shallow
  · exact UInt32.lt_irrefl _ (above list old)

/-- Further down, a list still lies before all lists that have been visited. -/
theorem lt_of_mem_insert {top next : UInt32} {visited : OffsetSet} (below : next < top)
    (above : ∀ list ∈ visited, top < list) : ∀ list ∈ visited.insert top, next < list := by
  intro list member
  obtain same | old := Std.HashSet.mem_insert.mp member
  · rwa [← eq_of_beq same]
  · exact UInt32.lt_trans below (above list old)

/-- Index roots with single slots lead down to a list that is entered as the innermost one: it is
visited, and none of the lists that it names. -/
theorem flatten_of_descent {steps : Nat} {top bottom : UInt32}
    (descent : Descent image.NamesOnly steps top bottom) {depth : Nat} {visited : OffsetSet}
    (innermost : depth + steps + 1 = maxListDepth) (valid : top < nullOffset)
    (above : ∀ list ∈ visited, top < list) :
    (image.flatten top depth visited).keys = image.leafKeys bottom ∧
      bottom ∈ (image.flatten top depth visited).after := by
  induction descent generalizing depth visited with
  | here list =>
      rw [flatten_of_not_refused (accepted_of_lt (by omega) valid above),
        flattenAll_of_deep (by omega)]
      exact ⟨List.append_nil _, Std.HashSet.mem_insert_self⟩
  | @down steps top next bottom named below _ ih =>
      obtain ⟨members, keys⟩ := named
      rw [flatten_of_not_refused (accepted_of_lt (by omega) valid above), members, keys,
        flattenAll_singleton]
      exact ih (by omega) (UInt32.lt_trans below valid) (lt_of_mem_insert below above)

/-- A list names an index root twice, first at the end of so many index roots that it is cut off,
then directly. Nothing is yielded, whatever the index root names. -/
theorem childrenAt_eq_nil_of_descent {first long shared : UInt32} {steps : Nat}
    (descent : Descent image.NamesOnly steps long shared) (deep : steps + 2 = maxListDepth)
    (below : long < first) (valid : first < nullOffset)
    (members : image.memberLists first = [long, shared]) (noLeaf : image.leafKeys first = [])
    (noLeaf' : image.leafKeys shared = []) : image.childrenAt first = [] := by
  have above : ∀ list ∈ (∅ : OffsetSet), first < list := fun list member =>
    absurd member Std.HashSet.not_mem_empty
  have innermost : 1 + steps + 1 = maxListDepth := by omega
  obtain ⟨keys, visited⟩ := flatten_of_descent descent innermost (UInt32.lt_trans below valid)
    (lt_of_mem_insert below above)
  rw [childrenAt_eq_keys, flatten_of_not_refused (accepted_of_lt (by decide) valid above), members,
    noLeaf, flattenAll_cons, flattenAll_singleton, flatten_of_refused (.inr (.inr visited))]
  simp only [Flattened.within, Flattened.append, Flattened.nothing, keys, noLeaf', List.append_nil]

end HiveImage

end Descent

section Written

open HiveWriter

variable {writer : HiveWriter} {contents : Contents}

/-- Writes so many index roots with a single slot. Each names the one before it, and the first names
the list at an offset. -/
def HiveWriter.indexRoots (writer : HiveWriter) (list : UInt32) : Nat → Written
  | 0 => { offset := list, writer := writer }
  | count + 1 =>
      let below := writer.indexRoots list count
      below.writer.list .indexRoot [below.offset]

theorem HiveWriter.size_indexRoots (writer : HiveWriter) (list : UInt32) (count : Nat) :
    (writer.indexRoots list count).writer.bins.size =
      writer.bins.size + count * listSpace .indexRoot 1 := by
  induction count with
  | zero => exact (Nat.zero_mul _).symm ▸ rfl
  | succ count ih =>
      have grown := size_list (writer.indexRoots list count).writer .indexRoot
        [(writer.indexRoots list count).offset]
      simp only [indexRoots, grown, ih, List.length_singleton, Nat.succ_mul, Nat.add_assoc]

/-- Index roots that are written one after the other lead down to the list that the first of them
names. -/
theorem HiveWriter.Run.exists_indexRoots (run : Run writer contents) {list : UInt32}
    (old : list.toNat < writer.bins.size) (count : Nat)
    (small : (writer.indexRoots list count).writer.bins.size < 2 ^ 31) :
    ∃ later, Run (writer.indexRoots list count).writer later ∧ contents.Extends later ∧
      Descent (fun top next => later top = some (.list .indexRoot [next])) count
        (writer.indexRoots list count).offset list ∧
      (writer.indexRoots list count).offset.toNat <
        (writer.indexRoots list count).writer.bins.size := by
  induction count with
  | zero => exact ⟨contents, run, fun _ _ h => h, .here list, old⟩
  | succ count ih =>
      have small' : (writer.indexRoots list count).writer.bins.size < 2 ^ 31 :=
        Nat.lt_of_le_of_lt (size_le_alloc _ _) small
      obtain ⟨middle, run', extend, descent, before⟩ := ih small'
      obtain ⟨later, run'', extend', here, position⟩ := run'.exists_list .indexRoot
        [(writer.indexRoots list count).offset] small
      have below := UInt32.lt_iff_toNat_lt.mpr (before.trans_eq position.symm)
      exact ⟨later, run'', extend.trans extend',
        .down here below (descent.imp fun _ _ written => extend' written),
        position.trans_lt (size_lt_alloc _ _)⟩

variable {image : HiveImage}

theorem Shows.lists_of_indexRoot (shown : Shows image contents) {list : UInt32}
    {members : List UInt32} (written : contents list = some (.list .indexRoot members))
    (few : members.length ≤ 65535) :
    image.memberLists list = members ∧ image.leafKeys list = [] :=
  (shown.isList written few).lists_of_indexRoot

theorem Shows.leafKeys_eq (shown : Shows image contents) {leaf : UInt32} {cells : List UInt32}
    (written : contents.HasLeaf leaf cells) :
    image.leafKeys leaf = cells.filterMap (SubkeyWalk.child? image) := by
  obtain ⟨shape, isLeaf, written, fits⟩ := written
  exact ((shown.isList written fits).lists_of_leaf isLeaf).2

/-- Writes a list with two ways to a leaf that names a key. The first goes through so many index
roots that the last of them is cut off, the second goes directly to this last one. -/
def HiveWriter.twoWays (writer : HiveWriter) (key : UInt32) : Written :=
  let leaf := writer.list .hashLeaf [key]
  let shared := leaf.writer.list .indexRoot [leaf.offset]
  let long := shared.writer.indexRoots shared.offset (maxListDepth - 2)
  long.writer.list .indexRoot [long.offset, shared.offset]

theorem HiveWriter.size_twoWays (writer : HiveWriter) (key : UInt32) :
    (writer.twoWays key).writer.bins.size =
      writer.bins.size + listSpace .hashLeaf 1 + listSpace .indexRoot 1 +
        (maxListDepth - 2) * listSpace .indexRoot 1 + listSpace .indexRoot 2 := by
  simp only [twoWays, size_list, size_indexRoots, List.length_cons, List.length_nil, Nat.zero_add]

/-- What `twoWays` writes. -/
theorem HiveWriter.Run.exists_twoWays (run : Run writer contents) (key : UInt32)
    (small : (writer.twoWays key).writer.bins.size < 2 ^ 31) :
    ∃ later leaf shared long, Run (writer.twoWays key).writer later ∧ contents.Extends later ∧
      later leaf = some (.list .hashLeaf [key]) ∧ later shared = some (.list .indexRoot [leaf]) ∧
      later (writer.twoWays key).offset = some (.list .indexRoot [long, shared]) ∧
      Descent (fun top next => later top = some (.list .indexRoot [next])) (maxListDepth - 2)
        long shared ∧
      long < (writer.twoWays key).offset := by
  simp only [twoWays] at small ⊢
  generalize leaf_eq : writer.list .hashLeaf [key] = leaf at small ⊢
  generalize shared_eq : leaf.writer.list .indexRoot [leaf.offset] = shared at small ⊢
  have small₃ := Nat.lt_of_le_of_lt (size_le_alloc _ _) small
  have small₂ : shared.writer.bins.size < 2 ^ 31 := by
    rw [size_indexRoots] at small₃
    omega
  have small₁ : leaf.writer.bins.size < 2 ^ 31 := by
    rw [← shared_eq] at small₂
    exact Nat.lt_of_le_of_lt (size_le_alloc _ _) small₂
  subst shared_eq leaf_eq
  obtain ⟨contents₁, run₁, extend₁, leaf, -⟩ := run.exists_list .hashLeaf [key] small₁
  obtain ⟨contents₂, run₂, extend₂, shared, position⟩ := run₁.exists_list .indexRoot _ small₂
  obtain ⟨contents₃, run₃, extend₃, long, before⟩ :=
    run₂.exists_indexRoots (position.trans_lt (size_lt_alloc _ _)) (maxListDepth - 2) small₃
  obtain ⟨contents₄, run₄, extend₄, first, position'⟩ := run₃.exists_list .indexRoot _ small
  exact ⟨contents₄, _, _, _, run₄, extend₁.trans (extend₂.trans (extend₃.trans extend₄)),
    extend₄ (extend₃ (extend₂ leaf)), extend₄ (extend₃ shared), first,
    long.imp fun _ _ written => extend₄ written,
    UInt32.lt_iff_toNat_lt.mpr (before.trans_eq position'.symm)⟩

/-- A key that is written can be named by a leaf at the end of a chain of three lists without being
yielded. -/
theorem HiveWriter.Run.key_hidden (run : Run writer contents) {key : UInt32} {record : KeyRecord}
    (written : contents key = some (.key record)) (stored : IsStoredName record.name)
    (small : (writer.twoWays key).writer.bins.size < 2 ^ 31) :
    ∃ leaf, (writer.twoWays key).writer.image.ListChain (fun _ => True)
        (writer.twoWays key).offset 3 leaf ∧
      ⟨record.name, key⟩ ∈ (writer.twoWays key).writer.image.leafKeys leaf ∧
      (writer.twoWays key).writer.image.childrenAt (writer.twoWays key).offset = [] := by
  obtain ⟨later, leaf, shared, long, run', extend, atLeaf, atShared, atFirst, descent, below⟩ :=
    run.exists_twoWays key small
  have shown := run'.shows small
  have valid : (writer.twoWays key).offset < nullOffset := by
    have := run'.toNat_lt small atFirst
    exact UInt32.lt_iff_toNat_lt.mpr (Nat.lt_trans this (Nat.lt_trans small (by decide)))
  have few {list member : UInt32} : [list, member].length ≤ 65535 := Nat.le_of_ble_eq_true rfl
  have fewer {list : UInt32} : [list].length ≤ 65535 := Nat.le_of_ble_eq_true rfl
  obtain ⟨members, noLeaf⟩ := shown.lists_of_indexRoot atFirst few
  obtain ⟨members', noLeaf'⟩ := shown.lists_of_indexRoot atShared fewer
  refine ⟨leaf, ?_, ?_, ?_⟩
  · have toShared : (writer.twoWays key).writer.image.ListChain (fun _ => True)
        (writer.twoWays key).offset 2 shared := by
      apply HiveImage.ListChain.start.next trivial
      rw [members]
      exact List.mem_cons_of_mem _ List.mem_cons_self
    apply toShared.next trivial
    rw [members']
    exact List.mem_cons_self
  · rw [shown.leafKeys_eq ⟨.hashLeaf, by decide, atLeaf, fewer⟩, List.mem_filterMap]
    exact ⟨key, List.mem_cons_self, shown.child?_eq (extend written) stored⟩
  · have namesOnly : ∀ top next, later top = some (.list .indexRoot [next]) →
        (writer.twoWays key).writer.image.NamesOnly top next := by
      intro top next written
      exact shown.lists_of_indexRoot written fewer
    exact HiveImage.childrenAt_eq_nil_of_descent (descent.imp namesOnly) (by decide) below valid
      members noLeaf noLeaf'

/-- A key. -/
def hiddenKey : Written := (HiveWriter.start.rootKey "ROOT").writer.key "Hidden"

theorem size_hiddenKey :
    hiddenKey.writer.bins.size = binHeaderSize + keySpace "ROOT" + keySpace "Hidden" := by
  rw [hiddenKey, size_key, size_rootKey, size_start]

/-- A list with two ways to the key. -/
def hidingList : Written := hiddenKey.writer.twoWays hiddenKey.offset

/-- A key is not yielded although a chain of three lists leads to the leaf that names it. -/
theorem Hive.listed_key_cut_off :
    Hive.ofBytes hidingList.writer.build = .ok hidingList.writer.hive ∧ 3 ≤ maxListDepth ∧
      ∃ child leaf,
        hidingList.writer.image.ListChain (fun _ => True) hidingList.offset 3 leaf ∧
        child ∈ hidingList.writer.image.leafKeys leaf ∧
        child ∉ hidingList.writer.image.childrenAt hidingList.offset := by
  refine ⟨hive_ofBytes_build _, by decide, ?_⟩
  have plain : IsKeyName "Hidden" := by decide
  obtain ⟨contents, run, written⟩ : ∃ contents, Run hiddenKey.writer contents ∧
      contents hiddenKey.offset = some (.key (.new "Hidden")) :=
    ⟨_, (Run.start.rootKey "ROOT").key "Hidden", Function.update_self _ _ _⟩
  have small : hidingList.writer.bins.size < 2 ^ 31 := by
    rw [hidingList, size_twoWays, size_hiddenKey]
    decide
  obtain ⟨leaf, chain, listed, nothing⟩ := run.key_hidden written plain.isStoredName small
  refine ⟨_, leaf, chain, listed, fun yielded => ?_⟩
  rw [hidingList, nothing] at yielded
  exact List.not_mem_nil yielded

end Written

end RegistryHive
