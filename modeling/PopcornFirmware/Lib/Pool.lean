import Mathlib.Data.List.Basic

namespace PopcornFirmware.Lib.Pool

variable {α : Type*} {l : List α} {i j : Nat} {a b c : α}

theorem getElem?_set_iff (hi : l[i]? = some a) :
    (l.set i b)[j]? = some c ↔ (j = i ∧ c = b) ∨ (j ≠ i ∧ l[j]? = some c) := by
  have hlt : i < l.length := (List.getElem?_eq_some_iff.mp hi).1
  rw [List.getElem?_set]
  by_cases hij : i = j
  · subst hij
    simp [hlt, eq_comm]
  · simp [hij, Ne.symm hij]

theorem mem_set_iff (hi : l[i]? = some a) :
    c ∈ l.set i b ↔ c = b ∨ ∃ j, j ≠ i ∧ l[j]? = some c := by
  rw [List.mem_iff_getElem?]
  constructor
  · rintro ⟨j, hj⟩
    obtain ⟨-, rfl⟩ | hold := (getElem?_set_iff hi).mp hj
    · exact Or.inl rfl
    · exact Or.inr ⟨j, hold⟩
  · rintro (rfl | ⟨j, hold⟩)
    · exact ⟨i, (getElem?_set_iff hi).mpr (Or.inl ⟨rfl, rfl⟩)⟩
    · exact ⟨j, (getElem?_set_iff hi).mpr (Or.inr hold)⟩

theorem forall_mem_set {Q : α → Prop} (hall : ∀ d ∈ l, Q d) (hb : Q b) :
    ∀ d ∈ l.set i b, Q d := by
  intro d hd
  obtain hd | rfl := List.mem_or_eq_of_mem_set hd
  · exact hall d hd
  · exact hb

theorem getElem?_append_iff :
    (l ++ [b])[j]? = some c ↔ l[j]? = some c ∨ (j = l.length ∧ c = b) := by
  by_cases hj : j < l.length
  · have hne : j ≠ l.length := by omega
    simp [List.getElem?_append_left hj, hne]
  · have hnone : l[j]? = none := List.getElem?_eq_none (by omega)
    rw [List.getElem?_append_right (by omega), hnone]
    by_cases hl : j = l.length
    · simp [hl, eq_comm]
    · have hpos : j - l.length ≠ 0 := by omega
      simp [hl, hpos]

end PopcornFirmware.Lib.Pool
