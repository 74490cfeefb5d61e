import Std.Data.HashSet.Basic
import Std.Data.HashSet.Lemmas

/-!
# Sets of offsets

A walk through a hive keeps the set of the cells it has visited. There are
finitely many offsets, so the number of those that are still missing bounds the
work that is left: `missing_insert_lt` says that a new offset makes it smaller.
A walk that does not visit a new offset has to use up work that it knows of;
`Lower` is the order in which the two numbers together go down.
-/

namespace RegistryHive

/-- A set of cell offsets. -/
abbrev OffsetSet := Std.HashSet UInt32

namespace OffsetSet

/-- The number of offsets outside the set. -/
def missing (set : OffsetSet) : Nat :=
  (List.range UInt32.size).countP fun n => !set.contains (UInt32.ofNat n)

private theorem countP_lt {p q : Nat → Bool} (le : ∀ n, q n = true → p n = true) {x : Nat} :
    ∀ {list : List Nat}, x ∈ list → p x = true → q x = false → list.countP q < list.countP p
  | y :: list, member, inP, outQ => by
    have rest : list.countP q ≤ list.countP p := List.countP_mono_left fun n _ => le n
    rw [List.countP_cons, List.countP_cons]
    rcases List.mem_cons.mp member with rfl | member
    · simp only [inP, outQ, if_true, Bool.false_eq_true, if_false]
      omega
    · have := countP_lt le member inP outQ
      by_cases hq : q y = true
      · simp only [hq, le y hq, if_true]
        omega
      · simp only [hq, Bool.false_eq_true, if_false]
        split <;> omega

/-- A new offset makes the number of missing offsets smaller. -/
theorem missing_insert_lt {set : OffsetSet} {offset : UInt32} (fresh : offset ∉ set) :
    missing (set.insert offset) < missing set := by
  refine countP_lt (x := offset.toNat) (fun n => ?_) ?_ ?_ ?_
  · simp only [Std.HashSet.contains_insert, Bool.not_or, Bool.and_eq_true]
    exact And.right
  · exact List.mem_range.mpr offset.toNat_lt_size
  · simpa using fresh
  · simp

/-- Fewer offsets are missing, or equally many with less work left. -/
def Lower : Nat × Nat → Nat × Nat → Prop := Prod.Lex (· < ·) (· < ·)

theorem Lower.of_missing {missing missing' work work' : Nat} (h : missing < missing') :
    Lower (missing, work) (missing', work') := Prod.Lex.left _ _ h

theorem Lower.of_work {missing work work' : Nat} (h : work < work') :
    Lower (missing, work) (missing, work') := Prod.Lex.right _ h

theorem Lower.trans {a b c : Nat × Nat} (h : Lower a b) (h' : Lower b c) : Lower a c := by
  cases h with
  | left _ _ h => cases h' with
    | left _ _ h' => exact .left _ _ (Nat.lt_trans h h')
    | right _ h' => exact .left _ _ h
  | right _ h => cases h' with
    | left _ _ h' => exact .left _ _ h'
    | right _ h' => exact .right _ (Nat.lt_trans h h')

end OffsetSet

end RegistryHive
