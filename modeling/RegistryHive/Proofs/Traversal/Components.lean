import RegistryHive.KeyPath
import RegistryHive.Text.LowerCase

/-!
# Names that are components of paths

A component of a path is not empty and holds no separator. Case does not change
that: no character but the separator itself has the separator in its lower case,
and no character vanishes. So a name that is looked up as a component is found
only as a name that could be a component itself (`IsComponent.of_sameName`).
-/

namespace RegistryHive

namespace Text

/-- The lower case of a text that stands behind other text, nearest character first. -/
def loweredBehind (before : List Char) : List Char → List Char
  | [] => []
  | c :: after => lowerInContext before c after ++ loweredBehind (c :: before) after

theorem toList_foldl_push (chars : List Char) (done : String) :
    (chars.foldl String.push done).toList = done.toList ++ chars := by
  induction chars generalizing done with
  | nil => exact (List.append_nil _).symm
  | cons c rest ih =>
      rw [List.foldl_cons, ih, String.toList_push, List.append_assoc, List.singleton_append]

theorem toList_lowerOnto (done : String) (before text : List Char) :
    (lowerOnto done before text).toList = done.toList ++ loweredBehind before text := by
  induction text generalizing done before with
  | nil => exact (List.append_nil _).symm
  | cons c after ih =>
      rw [lowerOnto, ih, toList_foldl_push, loweredBehind, List.append_assoc]

theorem toList_lowerCase (text : String) :
    (lowerCase text).toList = loweredBehind [] text.toList := by
  rw [lowerCase_eq, toList_lowerOnto]
  rfl

theorem sameName_iff {name other : String} :
    SameName name other ↔ loweredBehind [] name.toList = loweredBehind [] other.toList := by
  rw [← toList_lowerCase, ← toList_lowerCase, String.toList_inj]
  exact Iff.rfl

/-- The small counterparts in the runs begin with the letter a. -/
theorem le_target_of_mem_caseRuns : ∀ run ∈ caseRuns.toList, 0x61 ≤ run.target := by
  decide +kernel

theorem mem_caseRuns_of_caseRun?_eq_some {c : Char} {run : CaseRun}
    (found : caseRun? c = some run) : run ∈ caseRuns.toList := by
  unfold caseRun? at found
  simp only at found
  split at found
  · split at found
    · obtain rfl := Option.some.inj found
      exact Array.mem_toList_iff.mpr (Array.getElem_mem _)
    · cases found
  · cases found

/-- The separator has only its own number. -/
theorem eq_of_ofNat_eq_separator {n : Nat} (same : Char.ofNat n = KeyPath.separator) :
    n = 0x5C := by
  have code := congrArg Char.toNat same
  by_cases valid : n.isValidChar
  · rw [Char.ofNat, dif_pos valid] at code
    exact code
  · rw [Char.ofNat, dif_neg valid] at code
    exact absurd code (by decide)

/-- A small counterpart in a run is not the separator. -/
theorem lower_ne_separator {c : Char} {run : CaseRun} (found : caseRun? c = some run) :
    run.lower c ≠ KeyPath.separator := by
  intro same
  have code : c.toNat - run.first + run.target = 0x5C := eq_of_ofNat_eq_separator same
  have least := le_target_of_mem_caseRuns run (mem_caseRuns_of_caseRun?_eq_some found)
  omega

theorem toLower_eq_separator_iff {c : Char} (ascii : c.toNat < 0x80) :
    c.toLower = KeyPath.separator ↔ c = KeyPath.separator := by
  have table : ∀ n < 0x80, (Char.ofNat n).toLower = KeyPath.separator ↔
      Char.ofNat n = KeyPath.separator := by
    decide
  have here := table c.toNat ascii
  rwa [Char.ofNat_toNat] at here

/-- Only the separator has the separator as its small counterpart. -/
theorem separator_mem_lowerForms_iff {c : Char} :
    KeyPath.separator ∈ lowerForms c ↔ c = KeyPath.separator := by
  unfold lowerForms
  split
  · rename_i ascii
    rw [List.mem_singleton, eq_comm, toLower_eq_separator_iff ascii]
  · rename_i wide
    have other : c ≠ KeyPath.separator := by
      rintro rfl
      exact wide (by decide)
    refine ⟨?_, fun same => absurd same other⟩
    intro member
    split at member
    · exact absurd member (by decide)
    · split at member
      · rename_i run found
        exact absurd (List.mem_singleton.mp member).symm (lower_ne_separator found)
      · exact (List.mem_singleton.mp member).symm

theorem separator_mem_lowerInContext_iff {before after : List Char} {c : Char} :
    KeyPath.separator ∈ lowerInContext before c after ↔ c = KeyPath.separator := by
  unfold lowerInContext
  split
  · rename_i sigma
    subst sigma
    split <;> decide
  · exact separator_mem_lowerForms_iff

/-- No character vanishes in lower case. -/
theorem lowerInContext_ne_nil (before : List Char) (c : Char) (after : List Char) :
    lowerInContext before c after ≠ [] := by
  unfold lowerInContext lowerForms
  repeat' split
  all_goals exact List.cons_ne_nil _ _

theorem separator_mem_loweredBehind_iff {before text : List Char} :
    KeyPath.separator ∈ loweredBehind before text ↔ KeyPath.separator ∈ text := by
  induction text generalizing before with
  | nil => rfl
  | cons c after ih =>
      rw [loweredBehind, List.mem_append, ih, separator_mem_lowerInContext_iff, List.mem_cons,
        eq_comm]

theorem loweredBehind_eq_nil_iff {before text : List Char} :
    loweredBehind before text = [] ↔ text = [] := by
  cases text with
  | nil => exact ⟨fun _ => rfl, fun _ => rfl⟩
  | cons c after =>
      refine ⟨fun empty => ?_, fun empty => ?_⟩
      · exact absurd (List.append_eq_nil_iff.mp empty).1 (lowerInContext_ne_nil before c after)
      · cases empty

end Text

/-- A name that is a path of one component: it is not empty and holds no separator. -/
structure IsComponent (name : String) : Prop where
  nonempty : name ≠ ""
  simple : KeyPath.separator ∉ name.toList

/-- The parts between separators hold no separator. -/
theorem KeyPath.separator_not_mem_of_mem_splitOn {chars part : List Char}
    (member : part ∈ chars.splitOn separator) : separator ∉ part := by
  induction chars generalizing part with
  | nil =>
      obtain rfl := List.mem_singleton.mp member
      exact List.not_mem_nil
  | cons c rest ih =>
      rw [List.splitOn_cons_eq_if_modifyHead] at member
      split at member
      · rcases List.mem_cons.mp member with rfl | later
        · exact List.not_mem_nil
        · exact ih later
      · rename_i other
        cases parts : rest.splitOn separator with
        | nil => exact absurd parts (List.splitOn_ne_nil separator rest)
        | cons first later =>
            rw [parts] at member ih
            rcases List.mem_cons.mp member with rfl | inLater
            · intro inFirst
              rcases List.mem_cons.mp inFirst with rfl | inFirst
              · exact other (beq_self_eq_true _)
              · exact ih List.mem_cons_self inFirst
            · exact ih (List.mem_cons_of_mem first inLater)

namespace IsComponent

variable {name other : String}

/-- The components of a path are components. -/
theorem of_mem_components {path : String} (member : name ∈ KeyPath.components path) :
    IsComponent name := by
  obtain ⟨part, kept, rfl⟩ := List.mem_map.mp member
  obtain ⟨inPath, nonempty⟩ := List.mem_filter.mp kept
  constructor
  · intro empty
    rw [String.ofList_eq_empty_iff] at empty
    rw [empty] at nonempty
    cases nonempty
  · rw [String.toList_ofList]
    exact KeyPath.separator_not_mem_of_mem_splitOn inPath

theorem components_eq (component : IsComponent name) : KeyPath.components name = [name] :=
  KeyPath.components_of_name component.nonempty component.simple

/-- Two spellings of a name are components together. -/
theorem of_sameName (component : IsComponent name) (same : Text.SameName name other) :
    IsComponent other := by
  have lowered := Text.sameName_iff.mp same
  constructor
  · rintro rfl
    have empty : name.toList = [] := Text.loweredBehind_eq_nil_iff.mp lowered
    exact component.nonempty (String.toList_inj.mp empty)
  · intro member
    rw [← Text.separator_mem_loweredBehind_iff, ← lowered] at member
    exact component.simple (Text.separator_mem_loweredBehind_iff.mp member)

end IsComponent

end RegistryHive
