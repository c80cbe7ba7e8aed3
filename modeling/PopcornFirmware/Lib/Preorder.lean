import Mathlib.Data.List.Basic
import Mathlib.Tactic.Common

namespace PopcornFirmware.Lib.Preorder

/-- Nodes in preorder, each given by its number of children: those from one
position up to another are the trees with these roots, and path leads from the
last root down to the last node. -/
inductive Forest (sizes : List Nat) : Nat → Nat → List Nat → List Nat → Prop
  | nil (i : Nat) : Forest sizes i i [] []
  | last {i e : Nat} {cs path : List Nat} : sizes[i]? = some cs.length →
      Forest sizes (i + 1) e cs path → Forest sizes i e [i] (i :: path)
  | next {i j e k : Nat} {cs ks path path' : List Nat} : sizes[i]? = some cs.length →
      Forest sizes (i + 1) j cs path → Forest sizes j e (k :: ks) path' →
      Forest sizes i e (i :: k :: ks) path'

variable {sizes sizes' : List Nat} {i j e e' r s : Nat} {ks ks' path path' : List Nat}

theorem Forest.le (h : Forest sizes i e ks path) : i ≤ e := by
  induction h with
  | nil i => exact Nat.le_refl i
  | last _ _ ih => omega
  | next _ _ _ ih ih' => omega

theorem Forest.head (h : Forest sizes i e (r :: ks) path) : r = i := by
  cases h <;> rfl

theorem Forest.end_eq (h : Forest sizes i e [] path) : e = i := by
  cases h
  rfl

theorem Forest.path_bounds (h : Forest sizes i e ks path) : ∀ s ∈ path, i ≤ s ∧ s < e := by
  induction h with
  | nil i => simp
  | last _ hcs ih =>
    have hle := hcs.le
    intro s hs
    obtain rfl | hs := List.mem_cons.mp hs
    · omega
    · have hbounds := ih s hs
      omega
  | next _ hcs _ _ ih' =>
    have hle := hcs.le
    intro s hs
    have hbounds := ih' s hs
    omega

theorem Forest.roots_lt (h : Forest sizes i e ks path) : ∀ k ∈ ks, k < e := by
  induction h with
  | nil i => simp
  | last _ hcs _ =>
    have hle := hcs.le
    intro k hk
    rw [List.mem_singleton.mp hk]
    omega
  | next _ hcs hks _ ih' =>
    have hle := hcs.le
    have hlt := ih' _ List.mem_cons_self
    have hle' := hks.le
    have heq := hks.head
    intro k hk
    obtain rfl | hk := List.mem_cons.mp hk
    · omega
    · exact ih' k hk

/-- The path ends at the last node. -/
theorem Forest.last_mem (h : Forest sizes i e ks path) (hlt : i < e) : e - 1 ∈ path := by
  induction h with
  | nil i => omega
  | @last i e cs path _ hcs ih =>
    have hle := hcs.le
    obtain heq | hlt' := Nat.eq_or_lt_of_le hle
    · rw [← heq]
      exact List.mem_cons_self
    · exact List.mem_cons_of_mem i (ih hlt')
  | next _ _ hks _ ih' =>
    refine ih' ?_
    cases hks with
    | last _ hcs => exact hcs.le
    | next _ hcs hks =>
      have hle := hcs.le
      have hle' := hks.le
      omega

/-- The nodes of a stretch do not depend on the others. -/
theorem Forest.congr (h : Forest sizes i e ks path)
    (heq : ∀ k, i ≤ k → k < e → sizes'[k]? = sizes[k]?) : Forest sizes' i e ks path := by
  induction h with
  | nil i => exact .nil i
  | last hi hcs ih =>
    have hle := hcs.le
    refine .last ?_ (ih fun k hk => heq k (by omega))
    rw [heq _ (Nat.le_refl _) (by omega), hi]
  | next hi hcs hks ih ih' =>
    have hle := hcs.le
    have hle' := hks.le
    refine .next ?_ (ih fun k hk hke => heq k (by omega) (by omega))
      (ih' fun k hk hke => heq k (by omega) hke)
    rw [heq _ (Nat.le_refl _) (by omega), hi]

theorem Forest.singleton (h : sizes[e]? = some 0) : Forest sizes e (e + 1) [e] [e] := by
  have hsize : sizes[e]? = some ([] : List Nat).length := h
  exact .last hsize (.nil (e + 1))

/-- A node behind the others can become a root. -/
theorem Forest.push_root (h : Forest sizes i e ks path) (he : sizes[e]? = some 0) :
    Forest sizes i (e + 1) (ks ++ [e]) [e] := by
  induction h with
  | nil i => exact .singleton he
  | last hi hcs ih => exact .next hi hcs (.singleton he)
  | next hi hcs hks ih ih' => exact .next hi hcs (ih' he)

/-- It can become a child of a node on the path, to which that is cut back. -/
theorem Forest.push_child (h : Forest sizes i e ks path) (hs : s ∈ path) {n : Nat}
    (hn : sizes[s]? = some n) (hn' : sizes'[s]? = some (n + 1)) (he : sizes'[e]? = some 0)
    (heq : ∀ k < e, k ≠ s → sizes'[k]? = sizes[k]?) :
    ∃ path', Forest sizes' i (e + 1) ks path' ∧
      ∀ x, x ∈ path' ↔ (x ∈ path ∧ x ≤ s) ∨ x = e := by
  induction h with
  | nil i => cases hs
  | @last i e cs path hi hcs ih =>
    have hbounds := hcs.path_bounds
    have hle := hcs.le
    obtain rfl | hs := List.mem_cons.mp hs
    · obtain rfl := Option.some.inj (hi.symm.trans hn)
      have hcs' : Forest sizes' (s + 1) e cs path :=
        hcs.congr fun k hk hke => heq k hke (by omega)
      refine ⟨[s, e], .last (by simpa using hn') (hcs'.push_root he), fun x => ?_⟩
      constructor
      · intro hx
        obtain rfl | hx := List.mem_cons.mp hx
        · exact Or.inl ⟨List.mem_cons_self, Nat.le_refl x⟩
        · exact Or.inr (List.mem_singleton.mp hx)
      · rintro (⟨hx, hxs⟩ | rfl)
        · obtain rfl | hx := List.mem_cons.mp hx
          · exact List.mem_cons_self
          · have hlt := hbounds x hx
            omega
        · simp
    · have hsi := hbounds s hs
      obtain ⟨path', hforest, hmem⟩ := ih hs he heq
      refine ⟨i :: path', .last ?_ hforest, fun x => ?_⟩
      · rw [heq i (by omega) (by omega), hi]
      · rw [List.mem_cons, List.mem_cons, hmem]
        constructor
        · rintro (rfl | ⟨hx, hxs⟩ | rfl)
          · exact Or.inl ⟨Or.inl rfl, by omega⟩
          · exact Or.inl ⟨Or.inr hx, hxs⟩
          · exact Or.inr rfl
        · rintro (⟨rfl | hx, hxs⟩ | rfl)
          · exact Or.inl rfl
          · exact Or.inr (Or.inl ⟨hx, hxs⟩)
          · exact Or.inr (Or.inr rfl)
  | @next i j e k cs ks path path' hi hcs hks ih ih' =>
    have hsj := hks.path_bounds s hs
    have hle := hcs.le
    obtain ⟨path'', hforest, hmem⟩ := ih' hs he heq
    have hcs' : Forest sizes' (i + 1) j cs path :=
      hcs.congr fun x hx hxj => heq x (by omega) (by omega)
    refine ⟨path'', .next ?_ hcs' hforest, hmem⟩
    rw [heq i (by omega) (by omega), hi]

/-- A number of trees from a position on are read off in one way. -/
theorem Forest.unique (h : Forest sizes i e ks path) (h' : Forest sizes i e' ks' path')
    (hlen : ks.length = ks'.length) : ks = ks' ∧ e = e' := by
  induction h generalizing e' ks' path' with
  | nil i =>
    obtain rfl := List.length_eq_zero_iff.mp hlen.symm
    exact ⟨rfl, h'.end_eq.symm⟩
  | @last i e cs path hi hcs ih =>
    cases h' with
    | nil => simp at hlen
    | next => simp at hlen
    | last hi' hcs' => exact ⟨rfl, (ih hcs' (Option.some.inj (hi.symm.trans hi'))).2⟩
  | @next i j e k cs ks path path' hi hcs hks ih ih' =>
    cases h' with
    | nil => simp at hlen
    | last => simp at hlen
    | next hi' hcs' hks' =>
      obtain ⟨-, rfl⟩ := ih hcs' (Option.some.inj (hi.symm.trans hi'))
      obtain ⟨heq, rfl⟩ := ih' hks' (by simpa using hlen)
      rw [heq]
      exact ⟨rfl, rfl⟩

/-- The first tree of a forest: its root and the forest of its children. -/
theorem Forest.root (h : Forest sizes i e (r :: ks) path) :
    ∃ j cs path', j ≤ e ∧ sizes[i]? = some cs.length ∧ Forest sizes (i + 1) j cs path' := by
  cases h with
  | last hi hcs => exact ⟨e, _, _, Nat.le_refl e, hi, hcs⟩
  | next hi hcs hks => exact ⟨_, _, _, hks.le, hi, hcs⟩

end PopcornFirmware.Lib.Preorder
