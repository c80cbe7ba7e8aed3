import Mathlib.Data.List.Pairwise
import Mathlib.Data.List.Perm.Basic
import Mathlib.Order.Basic
import Mathlib.Order.Nat

namespace PopcornFirmware.Lib.Intervals

variable {α : Type*} (lo hi : α → Nat)

/-- An item ends before another one begins. -/
def Before (x y : α) : Prop := hi x ≤ lo y

def Apart (x y : α) : Prop := Before lo hi x y ∨ Before lo hi y x

/-- Items that are not empty, lie below a bound, and do not overlap. -/
structure Packed (b : Nat) (xs : List α) : Prop where
  nonempty : ∀ x ∈ xs, lo x < hi x
  within : ∀ x ∈ xs, hi x ≤ b
  apart : xs.Pairwise (Apart lo hi)

/-- Every place of an interval lies in some item. -/
def Covers (a b : Nat) (xs : List α) : Prop := ∀ i, a ≤ i → i < b → ∃ x ∈ xs, lo x ≤ i ∧ i < hi x

/-- Items one after the other, without a gap. -/
def Contiguous : Nat → Nat → List α → Prop
  | a, b, [] => a = b
  | a, b, x :: xs => lo x = a ∧ lo x < hi x ∧ Contiguous (hi x) b xs

variable {lo hi} {a a' b b' : Nat} {x y : α} {xs ys : List α}

theorem Apart.symm (h : Apart lo hi x y) : Apart lo hi y x := Or.symm h

section Packed

theorem Packed.nil (b : Nat) : Packed lo hi b ([] : List α) := by
  constructor <;> simp

/-- A place in one of the items is in none of the others. -/
theorem filter_apart {i : Nat} (h : xs.Pairwise (Apart lo hi)) (hx : x ∈ xs) (hlo : lo x ≤ i)
    (hhi : i < hi x) : xs.filter (fun y => lo y ≤ i ∧ i < hi y) = [x] := by
  have hout : ∀ y, Apart lo hi x y → ¬ (lo y ≤ i ∧ i < hi y) := by
    unfold Apart Before
    omega
  induction xs with
  | nil => simp at hx
  | cons y ys ih =>
    obtain ⟨hy, hys⟩ := List.pairwise_cons.mp h
    obtain rfl | hmem := List.mem_cons.mp hx
    · rw [List.filter_cons_of_pos (by simp [hlo, hhi]), List.filter_eq_nil_iff.mpr]
      exact fun z hz => by simpa using hout z (hy z hz)
    · rw [List.filter_cons_of_neg (by simpa using hout y (hy x hmem).symm), ih hys hmem]

theorem Packed.perm (h : Packed lo hi b xs) (hp : xs.Perm ys) : Packed lo hi b ys where
  nonempty x hx := h.nonempty x (hp.mem_iff.mpr hx)
  within x hx := h.within x (hp.mem_iff.mpr hx)
  apart := (hp.pairwise_iff fun h => h.symm).mp h.apart

theorem Packed.sublist (h : Packed lo hi b xs) (hs : ys.Sublist xs) : Packed lo hi b ys where
  nonempty x hx := h.nonempty x (hs.subset hx)
  within x hx := h.within x (hs.subset hx)
  apart := h.apart.sublist hs

theorem Packed.mono (h : Packed lo hi b xs) (hb : b ≤ b') : Packed lo hi b' xs where
  nonempty := h.nonempty
  within x hx := (h.within x hx).trans hb
  apart := h.apart

theorem Packed.lt_iff (h : Packed lo hi b (x :: xs)) (hy : y ∈ xs) :
    lo y < lo x ↔ Before lo hi y x := by
  have hnx := h.nonempty x (by simp)
  have hny := h.nonempty y (List.mem_cons_of_mem x hy)
  have hap := (List.pairwise_cons.mp h.apart).1 y hy
  unfold Apart Before at *
  omega

theorem Packed.before_of_not_lt (h : Packed lo hi b (x :: xs)) (hy : y ∈ xs)
    (hlt : ¬ lo y < lo x) : Before lo hi x y := by
  rw [h.lt_iff hy] at hlt
  exact ((List.pairwise_cons.mp h.apart).1 y hy).resolve_right hlt

theorem Packed.head_congr (h : Packed lo hi b (x :: xs)) (hlo : lo y = lo x) (hhi : hi y = hi x) :
    Packed lo hi b (y :: xs) where
  nonempty z hz := by
    obtain rfl | hz := List.mem_cons.mp hz
    · rw [hlo, hhi]
      exact h.nonempty x (by simp)
    · exact h.nonempty z (List.mem_cons_of_mem x hz)
  within z hz := by
    obtain rfl | hz := List.mem_cons.mp hz
    · rw [hhi]
      exact h.within x (by simp)
    · exact h.within z (List.mem_cons_of_mem x hz)
  apart := by
    obtain ⟨hx, hxs⟩ := List.pairwise_cons.mp h.apart
    refine List.pairwise_cons.mpr ⟨fun z hz => ?_, hxs⟩
    have hap := hx z hz
    unfold Apart Before at *
    rwa [hlo, hhi]

end Packed

section Covers

theorem Covers.perm (h : Covers lo hi a b xs) (hp : xs.Perm ys) : Covers lo hi a b ys := by
  intro i hai hib
  obtain ⟨x, hx, hin⟩ := h i hai hib
  exact ⟨x, hp.mem_iff.mp hx, hin⟩

/-- Items that end early enough are not needed. -/
theorem Covers.of_append (h : Covers lo hi a b (xs ++ ys)) (ha : a ≤ a')
    (hxs : ∀ x ∈ xs, hi x ≤ a') : Covers lo hi a' b ys := by
  intro i hai hib
  obtain ⟨y, hy, hin⟩ := h i (ha.trans hai) hib
  obtain hy | hy := List.mem_append.mp hy
  · have hle := hxs y hy
    omega
  · exact ⟨y, hy, hin⟩

theorem Covers.head_congr (h : Covers lo hi a b (x :: xs)) (hlo : lo y = lo x) (hhi : hi y = hi x) :
    Covers lo hi a b (y :: xs) := by
  intro i hai hib
  obtain ⟨z, hz, hin⟩ := h i hai hib
  obtain rfl | hz := List.mem_cons.mp hz
  · exact ⟨y, by simp, by rwa [hlo, hhi]⟩
  · exact ⟨z, List.mem_cons_of_mem y hz, hin⟩

theorem Covers.mono (h : Covers lo hi a b xs) (ha : a ≤ a') : Covers lo hi a' b xs :=
  fun i hai hib => h i (ha.trans hai) hib

theorem Covers.append (h : Covers lo hi a b xs) (h' : Covers lo hi b b' ys) :
    Covers lo hi a b' (xs ++ ys) := by
  intro i hai hib
  by_cases hlt : i < b
  · obtain ⟨x, hx, hin⟩ := h i hai hlt
    exact ⟨x, List.mem_append_left ys hx, hin⟩
  · obtain ⟨y, hy, hin⟩ := h' i (by omega) hib
    exact ⟨y, List.mem_append_right xs hy, hin⟩

end Covers

section Contiguous

theorem Contiguous.le (h : Contiguous lo hi a b xs) : a ≤ b := by
  induction xs generalizing a with
  | nil => exact le_of_eq h
  | cons x xs ih =>
    obtain ⟨rfl, hlt, hrest⟩ := h
    exact hlt.le.trans (ih hrest)

theorem Contiguous.mem (h : Contiguous lo hi a b xs) (hx : x ∈ xs) :
    a ≤ lo x ∧ lo x < hi x ∧ hi x ≤ b := by
  induction xs generalizing a with
  | nil => simp at hx
  | cons y ys ih =>
    obtain ⟨rfl, hlt, hrest⟩ := h
    obtain rfl | hx := List.mem_cons.mp hx
    · exact ⟨le_refl _, hlt, hrest.le⟩
    · obtain ⟨hle, hne, hhi⟩ := ih hrest hx
      exact ⟨hlt.le.trans hle, hne, hhi⟩

theorem Contiguous.covers (h : Contiguous lo hi a b xs) : Covers lo hi a b xs := by
  induction xs generalizing a with
  | nil =>
    intro i hai hib
    obtain rfl : a = b := h
    omega
  | cons x xs ih =>
    obtain ⟨rfl, -, hrest⟩ := h
    intro i hai hib
    by_cases hlt : i < hi x
    · exact ⟨x, by simp, hai, hlt⟩
    · obtain ⟨y, hy, hin⟩ := ih hrest i (by omega) hib
      exact ⟨y, List.mem_cons_of_mem x hy, hin⟩

theorem Contiguous.pairwise (h : Contiguous lo hi a b xs) : xs.Pairwise (Before lo hi) := by
  induction xs generalizing a with
  | nil => exact List.Pairwise.nil
  | cons x xs ih =>
    obtain ⟨-, -, hrest⟩ := h
    exact List.pairwise_cons.mpr ⟨fun y hy => (hrest.mem hy).1, ih hrest⟩

/-- Items placed where the others end. -/
theorem Packed.append (h : Packed lo hi b xs) (h' : Contiguous lo hi b b' ys) :
    Packed lo hi b' (xs ++ ys) where
  nonempty x hx := (List.mem_append.mp hx).elim (h.nonempty x) fun hy => (h'.mem hy).2.1
  within x hx :=
    (List.mem_append.mp hx).elim (fun hx => (h.within x hx).trans h'.le) fun hy => (h'.mem hy).2.2
  apart := List.pairwise_append.mpr ⟨h.apart, h'.pairwise.imp Or.inl,
    fun x hx _ hy => Or.inl ((h.within x hx).trans (h'.mem hy).1)⟩

end Contiguous

section Grow

variable {x' : α} (hlo : lo x' = lo x) (hhi : hi x = b)

include hlo hhi

/-- The item that ends at the bound may grow. -/
theorem Packed.grow (hb : b ≤ hi x') (h : Packed lo hi b (xs ++ [x])) : Packed lo hi (hi x') (xs ++ [x']) where
  nonempty y hy := by
    have hx := h.nonempty x (by simp)
    obtain hy | hy := List.mem_append.mp hy
    · exact h.nonempty y (by simp [hy])
    · rw [List.mem_singleton.mp hy]
      omega
  within y hy := by
    obtain hy | hy := List.mem_append.mp hy
    · exact (h.within y (by simp [hy])).trans hb
    · rw [List.mem_singleton.mp hy]
  apart := by
    obtain ⟨hxs, -, hcross⟩ := List.pairwise_append.mp h.apart
    refine List.pairwise_append.mpr ⟨hxs, List.pairwise_singleton _ _, fun y hy z hz => ?_⟩
    rw [List.mem_singleton.mp hz]
    have hy' := h.within y (by simp [hy])
    have hne := h.nonempty y (by simp [hy])
    have hap := hcross y hy x (by simp)
    unfold Apart Before at *
    omega

theorem Covers.grow (hne : lo x ≤ hi x) (h : Covers lo hi a b (xs ++ [x])) :
    Covers lo hi a (hi x') (xs ++ [x']) := by
  intro i hai hib
  by_cases hlt : i < b
  · obtain ⟨y, hy, hin⟩ := h i hai hlt
    obtain hy | hy := List.mem_append.mp hy
    · exact ⟨y, by simp [hy], hin⟩
    · obtain rfl := List.mem_singleton.mp hy
      exact ⟨x', by simp, by omega, hib⟩
  · exact ⟨x', by simp, by omega, hib⟩

end Grow

end PopcornFirmware.Lib.Intervals
