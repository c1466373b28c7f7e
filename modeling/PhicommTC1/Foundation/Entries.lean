import Mathlib.Data.List.Basic

/-! Tables written entry by entry, some entries left out. While the keys are told apart, every
entry is found under its key, and nothing is found under a key whose entry was left out. -/

namespace Entries

variable {κ : Type*} {ν : Type*}

def members (entries : List (κ × Option ν)) : List (κ × ν) :=
  entries.filterMap fun entry => entry.2.map (entry.1, ·)

@[simp] theorem members_append (first second : List (κ × Option ν)) :
    members (first ++ second) = members first ++ members second := List.filterMap_append

variable (same : κ → κ → Bool)

def lookup (table : List (κ × ν)) (key : κ) : Option ν :=
  (table.find? fun member => same member.1 key).map Prod.snd

/-- No key is taken for another, whichever of the two is looked up. -/
def Distinct (keys : List κ) : Prop :=
  keys.Pairwise fun first second => same first second = false ∧ same second first = false

variable {same}

theorem lookup_members_none {entries : List (κ × Option ν)} {key : κ}
    (other : ∀ entry ∈ entries, same entry.1 key = false) : lookup same (members entries) key = none := by
  rw [lookup, Option.map_eq_none_iff, List.find?_eq_none]
  intro member inside
  obtain ⟨entry, listed, written⟩ := List.mem_filterMap.mp inside
  obtain ⟨item, -, rfl⟩ := Option.map_eq_some_iff.mp written
  simp [other entry listed]

theorem lookup_members {entries : List (κ × Option ν)} {key : κ} {item : Option ν} (itself : same key key = true)
    (distinct : Distinct same (entries.map Prod.fst)) (listed : (key, item) ∈ entries) :
    lookup same (members entries) key = item := by
  induction entries with
  | nil => cases listed
  | cons entry entries ih =>
    obtain ⟨apart, distinct⟩ := List.pairwise_cons.mp distinct
    rcases List.mem_cons.mp listed with rfl | later
    · cases item with
      | some value => simp [lookup, members, itself]
      | none =>
        have rest : lookup same (members entries) key = none := by
          apply lookup_members_none
          intro other member
          exact (apart other.1 (List.mem_map_of_mem member)).2
        exact rest
    · have skipped := (apart key (List.mem_map.mpr ⟨_, later, rfl⟩)).1
      rw [← ih distinct later]
      obtain ⟨first, value⟩ := entry
      cases value with
      | none => rfl
      | some value => simp [lookup, members, skipped]

end Entries
