import Mathlib.Data.List.Perm.Basic

namespace PopcornFirmware.Lib.DeltaList

/-- An entry of a queue that is ordered by time. It has the time from the entry
before it on. -/
structure Entry (α : Type*) where
  time : Nat
  val : α
  deriving DecidableEq

variable {α : Type*}

/-- The entries with the times when they are due. -/
def dues : Nat → List (Entry α) → List (Nat × α)
  | _, [] => []
  | c, t :: l => (c + t.time, t.val) :: dues (c + t.time) l

/-- A new entry comes behind those that are due at the same time. -/
def insertDue (x : Nat × α) : List (Nat × α) → List (Nat × α)
  | [] => [x]
  | y :: l => if x.1 < y.1 then x :: y :: l else y :: insertDue x l

def insertEntry (x : Entry α) : List (Entry α) → List (Entry α)
  | [] => [x]
  | t :: l =>
    if x.time < t.time then x :: { t with time := t.time - x.time } :: l
    else t :: insertEntry { x with time := x.time - t.time } l

def addTime (d : Nat) : List (Entry α) → List (Entry α)
  | [] => []
  | n :: l => { n with time := n.time + d } :: l

/-- The first match goes, and leaves its time to the entry behind it. -/
def eraseEntry (p : α → Bool) : List (Entry α) → List (Entry α)
  | [] => []
  | t :: l => if p t.val then addTime t.time l else t :: eraseEntry p l

variable {c : Nat} {l : List (Entry α)} {x y : Nat × α}

theorem dues_insertEntry (t : Entry α) :
    dues c (insertEntry t l) = insertDue (c + t.time, t.val) (dues c l) := by
  induction l generalizing c t with
  | nil => rfl
  | cons n l ih =>
    rw [insertEntry, dues, insertDue]
    dsimp only
    by_cases hlt : t.time < n.time
    · rw [if_pos hlt, if_pos (by omega), dues, dues]
      dsimp only
      have htime : c + t.time + (n.time - t.time) = c + n.time := by omega
      rw [htime]
    · rw [if_neg hlt, if_neg (by omega), dues, ih]
      have htime : c + n.time + (t.time - n.time) = c + t.time := by omega
      dsimp only
      rw [htime]

theorem dues_addTime (d : Nat) : dues c (addTime d l) = dues (c + d) l := by
  cases l with
  | nil => rfl
  | cons n l =>
    have htime : c + (n.time + d) = c + d + n.time := by omega
    rw [addTime, dues, dues]
    dsimp only
    rw [htime]

theorem dues_eraseEntry (p : α → Bool) :
    dues c (eraseEntry p l) = (dues c l).eraseP fun x => p x.2 := by
  induction l generalizing c with
  | nil => rfl
  | cons t l ih =>
    rw [eraseEntry, dues, List.eraseP_cons]
    dsimp only
    by_cases hp : p t.val = true
    · rw [if_pos hp, hp, cond_true, dues_addTime]
    · rw [if_neg hp, dues, ih]
      rw [Bool.not_eq_true] at hp
      rw [hp, cond_false]

theorem le_of_mem_dues (hx : x ∈ dues c l) : c ≤ x.1 := by
  induction l generalizing c with
  | nil => contradiction
  | cons t l ih =>
    cases hx with
    | head => exact Nat.le_add_right c t.time
    | tail _ hx => exact Nat.le_trans (Nat.le_add_right c t.time) (ih hx)

/-- Time goes by before the first entry is due. -/
theorem dues_wait {t : Entry α} {w : Nat} (hw : w ≤ t.time) :
    dues (c + w) ({ t with time := t.time - w } :: l) = dues c (t :: l) := by
  have htime : c + w + (t.time - w) = c + t.time := by omega
  rw [dues, dues]
  dsimp only
  rw [htime]

theorem perm_insertDue (x : Nat × α) (l : List (Nat × α)) : (insertDue x l).Perm (x :: l) := by
  induction l with
  | nil => exact List.Perm.refl _
  | cons y l ih =>
    rw [insertDue]
    split
    · exact List.Perm.refl _
    · exact (ih.cons y).trans (List.Perm.swap x y l)

theorem mem_insertDue {l : List (Nat × α)} : y ∈ insertDue x l ↔ y = x ∨ y ∈ l :=
  (perm_insertDue x l).mem_iff.trans List.mem_cons

/-- An order in which a new entry comes after all that are not due later. -/
theorem pairwise_insertDue {r : Nat × α → Nat × α → Prop} {l : List (Nat × α)}
    (hl : l.Pairwise r) (htrans : ∀ y ∈ l, ∀ z ∈ l, r y z → y.1 ≤ z.1)
    (hbefore : ∀ y ∈ l, x.1 < y.1 → r x y) (hafter : ∀ y ∈ l, y.1 ≤ x.1 → r y x) :
    (insertDue x l).Pairwise r := by
  induction l with
  | nil => exact List.pairwise_singleton r x
  | cons y l ih =>
    obtain ⟨hy, hl'⟩ := List.pairwise_cons.mp hl
    rw [insertDue]
    by_cases hlt : x.1 < y.1
    · rw [if_pos hlt]
      refine List.pairwise_cons.mpr ⟨?_, hl⟩
      intro z hz
      apply hbefore z hz
      obtain rfl | hz' := List.mem_cons.mp hz
      · exact hlt
      · exact Nat.lt_of_lt_of_le hlt (htrans y List.mem_cons_self z hz (hy z hz'))
    · rw [if_neg hlt]
      refine List.pairwise_cons.mpr ⟨?_, ?_⟩
      · intro z hz
        obtain rfl | hz := mem_insertDue.mp hz
        · exact hafter y List.mem_cons_self (Nat.le_of_not_lt hlt)
        · exact hy z hz
      · apply ih hl'
        · exact fun z hz w hw => htrans z (List.mem_cons_of_mem y hz) w (List.mem_cons_of_mem y hw)
        · exact fun z hz => hbefore z (List.mem_cons_of_mem y hz)
        · exact fun z hz => hafter z (List.mem_cons_of_mem y hz)

theorem perm_eraseP {β : Type*} (p : β → Bool) (l : List β) :
    l.Perm ((l.find? p).toList ++ l.eraseP p) := by
  induction l with
  | nil => exact List.Perm.refl _
  | cons b l ih =>
    rw [List.find?_cons, List.eraseP_cons]
    cases hb : p b with
    | true => exact List.Perm.refl _
    | false =>
      rw [cond_false]
      exact (ih.cons b).trans List.perm_middle.symm

end PopcornFirmware.Lib.DeltaList
