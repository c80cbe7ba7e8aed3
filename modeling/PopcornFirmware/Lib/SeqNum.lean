import Mathlib.Data.BitVec

namespace PopcornFirmware.Lib.SeqNum

variable {w : Nat}

/-- The comparisons of serial numbers look at the sign of the difference only. -/
def seqLt (a b : BitVec w) : Prop := (a - b).toInt < 0

def seqLeq (a b : BitVec w) : Prop := (a - b).toInt ≤ 0

def seqGt (a b : BitVec w) : Prop := 0 < (a - b).toInt

def seqGeq (a b : BitVec w) : Prop := 0 ≤ (a - b).toInt

def seqBetween (a b c : BitVec w) : Prop := seqGeq a b ∧ seqLeq a c

instance (a b : BitVec w) : Decidable (seqLt a b) := inferInstanceAs (Decidable (_ < _))

instance (a b : BitVec w) : Decidable (seqLeq a b) := inferInstanceAs (Decidable (_ ≤ _))

instance (a b : BitVec w) : Decidable (seqGt a b) := inferInstanceAs (Decidable (_ < _))

instance (a b : BitVec w) : Decidable (seqGeq a b) := inferInstanceAs (Decidable (_ ≤ _))

instance (a b c : BitVec w) : Decidable (seqBetween a b c) := inferInstanceAs (Decidable (_ ∧ _))

/-- The serial number of the i-th item of a stream that starts at a base. -/
def pos (base : BitVec w) (i : Int) : BitVec w := base + BitVec.ofInt w i

/-- Two positions near enough to each other for their serial numbers to be
compared. -/
def Near (w : Nat) (i j : Int) : Prop := -2 ^ (w - 1) ≤ i - j ∧ i - j < 2 ^ (w - 1)

variable {base : BitVec w} {i j k : Int}

@[simp] theorem pos_zero : pos base 0 = base := by simp [pos]

@[simp] theorem pos_add_ofInt : pos base i + BitVec.ofInt w j = pos base (i + j) := by
  rw [pos, pos, BitVec.ofInt_add, BitVec.add_assoc]

@[simp] theorem pos_add_ofNat (n : Nat) : pos base i + BitVec.ofNat w n = pos base (i + n) := by
  rw [← BitVec.ofInt_natCast, pos_add_ofInt]

theorem pos_sub_one : pos base i - 1 = pos base (i - 1) := by
  have hsum : pos base (i - 1) + BitVec.ofInt w 1 = pos base i := by
    rw [pos_add_ofInt, Int.sub_add_cancel]
  rw [← hsum]
  exact add_sub_cancel_right _ _

theorem pos_sub_pos : pos base i - pos base j = BitVec.ofInt w (i - j) := by
  have hsum : BitVec.ofInt w (i - j) + BitVec.ofInt w j = BitVec.ofInt w i := by
    rw [← BitVec.ofInt_add, Int.sub_add_cancel]
  rw [pos, pos, add_sub_add_left_eq_sub, ← hsum, add_sub_cancel_right]

theorem toInt_pos_sub_pos (hw : 0 < w) (h : Near w i j) :
    (pos base i - pos base j).toInt = i - j := by
  rw [pos_sub_pos, BitVec.toInt_ofInt_eq_self hw h.1 h.2]

theorem toNat_pos_sub_pos (hle : j ≤ i) (hlt : i - j < 2 ^ w) :
    ((pos base i - pos base j).toNat : Int) = i - j := by
  rw [pos_sub_pos, BitVec.toNat_ofInt]
  push_cast
  rw [Int.emod_eq_of_lt (by omega) hlt, Int.toNat_of_nonneg (by omega)]

section Compare

variable (hw : 0 < w) (h : Near w i j)

include hw h

theorem seqLt_pos : seqLt (pos base i) (pos base j) ↔ i < j := by
  rw [seqLt, toInt_pos_sub_pos hw h]
  omega

theorem seqLeq_pos : seqLeq (pos base i) (pos base j) ↔ i ≤ j := by
  rw [seqLeq, toInt_pos_sub_pos hw h]
  omega

theorem seqGeq_pos : seqGeq (pos base i) (pos base j) ↔ j ≤ i := by
  rw [seqGeq, toInt_pos_sub_pos hw h]
  omega

/-- Near positions are told apart by their serial numbers. -/
theorem pos_inj : pos base i = pos base j ↔ i = j := by
  refine ⟨fun heq => ?_, fun heq => heq ▸ rfl⟩
  have hdiff : (pos base i - pos base j).toInt = i - j := toInt_pos_sub_pos hw h
  rw [heq, BitVec.sub_self, BitVec.toInt_zero] at hdiff
  omega

end Compare

theorem seqBetween_pos (hw : 0 < w) (hj : Near w i j) (hk : Near w i k) :
    seqBetween (pos base i) (pos base j) (pos base k) ↔ j ≤ i ∧ i ≤ k :=
  and_congr (seqGeq_pos hw hj) (seqLeq_pos hw hk)

end PopcornFirmware.Lib.SeqNum
