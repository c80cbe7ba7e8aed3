import Mathlib.Data.List.Nodup
import Mathlib.Data.List.Perm.Subperm

namespace PopcornFirmware.Lib.LinkedHeap

variable {α : Type*}

/-- Memory cells by identity. A deallocated cell holds none, and no identity is
used twice. -/
abbrev Heap (α : Type*) := List (Option α)

def deref (h : Heap α) (i : Nat) : Option α := (h[i]?).join

def write (h : Heap α) (i : Nat) (c : Option α) : Heap α := h.set i c

variable {h h' : Heap α} {i j : Nat} {a : α} {c d : Option α}

theorem deref_lt (hi : deref h i = some a) : i < h.length := by
  by_contra hge
  simp [deref, List.getElem?_eq_none (Nat.le_of_not_lt hge)] at hi

theorem deref_of_le (hi : h.length ≤ i) : deref h i = none := by
  simp [deref, List.getElem?_eq_none hi]

@[simp] theorem length_write : (write h i c).length = h.length := List.length_set

theorem deref_write_self (hi : i < h.length) : deref (write h i c) i = c := by
  simp [deref, write, hi]

theorem deref_write_ne (hij : j ≠ i) : deref (write h i c) j = deref h j := by
  simp [deref, write, List.getElem?_set_ne (Ne.symm hij)]

theorem deref_append_left (hi : i < h.length) : deref (h ++ h') i = deref h i := by
  rw [deref, List.getElem?_append_left hi, deref]

theorem deref_append_right (hi : h.length ≤ i) : deref (h ++ h') i = deref h' (i - h.length) := by
  rw [deref, List.getElem?_append_right hi, deref]

/-- The cell that has just been allocated. -/
@[simp] theorem deref_append_self : deref (h ++ [c]) h.length = c := by
  simp [deref]

@[simp] theorem write_append_self : write (h ++ [c]) h.length d = h ++ [d] := by
  simp [write]

@[simp] theorem write_write : write (write h i c) i d = write h i d := by
  simp [write]

section Chain

variable (next : α → Option Nat)

/-- Following next from a pointer goes through exactly these cells, all live,
and ends at a null pointer. -/
def Chain (h : Heap α) : Option Nat → List Nat → Prop
  | p, [] => p = none
  | p, i :: is => p = some i ∧ ∃ a, deref h i = some a ∧ Chain h (next a) is

variable {next} {p q : Option Nat} {is js : List Nat}

theorem Chain.live (hc : Chain next h p is) (hi : i ∈ is) : ∃ a, deref h i = some a := by
  induction is generalizing p with
  | nil => simp at hi
  | cons k is ih =>
    obtain ⟨-, a, ha, hrest⟩ := hc
    obtain rfl | hi := List.mem_cons.mp hi
    · exact ⟨a, ha⟩
    · exact ih hrest hi

theorem Chain.unique (hc : Chain next h p is) (hc' : Chain next h p js) : is = js := by
  induction is generalizing p js with
  | nil =>
    cases js with
    | nil => rfl
    | cons j js =>
      obtain ⟨hp, -⟩ := hc'
      exact absurd (hp.symm.trans hc) (by simp)
  | cons i is ih =>
    obtain ⟨rfl, a, ha, hrest⟩ := hc
    cases js with
    | nil => exact absurd hc' (by simp [Chain])
    | cons j js =>
      obtain ⟨hp, b, hb, hrest'⟩ := hc'
      cases hp
      rw [ha] at hb
      cases hb
      rw [ih hrest hrest']

theorem Chain.drop (hc : Chain next h p (is ++ i :: js)) : Chain next h (some i) (i :: js) := by
  induction is generalizing p with
  | nil =>
    obtain ⟨rfl, hrest⟩ := hc
    exact ⟨rfl, hrest⟩
  | cons k is ih =>
    obtain ⟨-, a, -, hrest⟩ := hc
    exact ih hrest

/-- A chain that ends goes through no cell twice. -/
theorem Chain.nodup (hc : Chain next h p is) : is.Nodup := by
  induction is generalizing p with
  | nil => exact List.nodup_nil
  | cons i is ih =>
    have hwhole := hc
    obtain ⟨rfl, a, -, hrest⟩ := hc
    refine List.nodup_cons.mpr ⟨fun hmem => ?_, ih hrest⟩
    obtain ⟨xs, ys, rfl⟩ := List.append_of_mem hmem
    have hagain : Chain next h (some i) (i :: ys) := hrest.drop
    have heq := hwhole.unique hagain
    have hlen := congrArg List.length heq
    simp at hlen
    omega

theorem Chain.length_le (hc : Chain next h p is) : is.length ≤ h.length := by
  have hsub : is ⊆ List.range h.length := by
    intro i hi
    obtain ⟨a, ha⟩ := hc.live hi
    exact List.mem_range.mpr (deref_lt ha)
  simpa using (List.subperm_of_subset hc.nodup hsub).length_le

/-- Only the links of its own cells matter to a chain. -/
theorem Chain.congr (hc : Chain next h p is)
    (hsame : ∀ i ∈ is, (deref h' i).map next = (deref h i).map next) : Chain next h' p is := by
  induction is generalizing p with
  | nil => exact hc
  | cons i is ih =>
    obtain ⟨rfl, a, ha, hrest⟩ := hc
    have hi := hsame i (by simp)
    rw [ha, Option.map_some, Option.map_eq_some_iff] at hi
    obtain ⟨b, hb, hnext⟩ := hi
    exact ⟨rfl, b, hb, hnext ▸ ih hrest fun j hj => hsame j (by simp [hj])⟩

/-- Two chains become one when the last cell of the first is linked to the
second. -/
theorem Chain.link (hc : Chain next h p (is ++ [i])) (hq : Chain next h' q js)
    (hsame : ∀ j ∈ is, (deref h' j).map next = (deref h j).map next)
    (hlast : (deref h' i).map next = some q) : Chain next h' p (is ++ i :: js) := by
  induction is generalizing p with
  | nil =>
    obtain ⟨rfl, -⟩ := hc
    obtain ⟨a, ha, rfl⟩ := Option.map_eq_some_iff.mp hlast
    exact ⟨rfl, a, ha, hq⟩
  | cons k is ih =>
    obtain ⟨rfl, a, ha, hrest⟩ := hc
    have hk := hsame k (by simp)
    rw [ha, Option.map_some, Option.map_eq_some_iff] at hk
    obtain ⟨b, hb, hnext⟩ := hk
    exact ⟨rfl, b, hb, hnext ▸ ih hrest fun j hj => hsame j (by simp [hj])⟩

end Chain

end PopcornFirmware.Lib.LinkedHeap
