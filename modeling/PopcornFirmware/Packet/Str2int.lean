import Mathlib.Data.BitVec
import Mathlib.Tactic.Ring
import PopcornFirmware.Lib.CText

namespace PopcornFirmware.Packet.Str2int

open PopcornFirmware.Lib.CText

/-- The test of the first loop. -/
def IsSign (c : UInt8) : Prop := ch '-' = c ∨ c = ch '+'

instance : DecidablePred IsSign := fun _ => inferInstanceAs (Decidable (_ ∨ _))

/-- The body of the loop over leading signs. -/
def signStep (puiss : BitVec 32) (c : UInt8) : BitVec 32 :=
  if c = ch '-' then puiss * -1 else puiss

/-- The body of the loop over the digit run, with the wrap-around of a 32-bit
int. -/
def digitStep (result : BitVec 32) (c : UInt8) : BitVec 32 :=
  result * 10 + (BitVec.ofNat 32 c.toNat - BitVec.ofNat 32 (ch '0').toNat)

/-- Both loops of str2int on the memory at str: the result and the pointer
to the last byte that was read. -/
def scan (str : Text) : Option (BitVec 32 × Text) :=
  (scanWhile IsSign signStep str 1).bind fun s =>
    (scanWhile IsDigit digitStep s.2 0).map fun r => (r.1 * s.1, r.2)

def str2int (str : Text) : Option (BitVec 32) := (scan str).map (·.1)

def bytesRead (str : Text) : Option Nat := (scan str).map fun r => str.length - r.2.length + 1

def signs (ss : Text) : BitVec 32 := ss.foldl signStep 1

def digits (ds : Text) : BitVec 32 := ds.foldl digitStep 0

theorem not_isSign_of_isDigit {c : UInt8} (h : IsDigit c) : ¬ IsSign c := by
  rintro (rfl | rfl) <;> revert h <;> decide

theorem scan_eq (ss ds rest : Text) (c : UInt8) (hss : ∀ c ∈ ss, IsSign c)
    (hds : ∀ c ∈ ds, IsDigit c) (hc : ¬ IsDigit c) (hsc : ds = [] → ¬ IsSign c) :
    scan (ss ++ (ds ++ c :: rest)) = some (digits ds * signs ss, c :: rest) := by
  have hs : scanWhile IsSign signStep (ds ++ c :: rest) (signs ss) =
      some (signs ss, ds ++ c :: rest) := by
    cases ds with
    | nil => exact scanWhile_stop (hsc rfl) rest _
    | cons d ds => exact scanWhile_stop (not_isSign_of_isDigit (hds d (by simp))) _ _
  have hd : scanWhile IsDigit digitStep (ds ++ c :: rest) 0 = some (digits ds, c :: rest) := by
    rw [scanWhile_append ds _ hds]
    exact scanWhile_stop hc rest _
  rw [scan, scanWhile_append ss _ hss]
  change ((scanWhile IsSign signStep (ds ++ c :: rest) (signs ss)).bind _) = _
  rw [hs, Option.bind_some, hd, Option.map_some]

/-- Over digits, the loop computes in the ring of 32-bit integers. -/
theorem foldl_digitStep {ds : Text} (hds : ∀ c ∈ ds, IsDigit c) (r : BitVec 32) :
    ds.foldl digitStep r =
      ds.foldl (fun r c => r * 10 + ((c.toNat - 48 : Nat) : BitVec 32)) r := by
  induction ds generalizing r with
  | nil => rfl
  | cons c ds ih =>
    have hc := (isDigit_iff c).mp (hds c (by simp))
    have hval : BitVec.ofNat 32 c.toNat - BitVec.ofNat 32 (ch '0').toNat =
        ((c.toNat - 48 : Nat) : BitVec 32) := by
      apply BitVec.eq_of_toNat_eq
      have h48 : (ch '0').toNat = 48 := rfl
      have hlt := c.toNat_lt
      simp only [BitVec.natCast_eq_ofNat, BitVec.toNat_sub, BitVec.toNat_ofNat, h48]
      omega
    have hih := ih (fun d hd => hds d (by simp [hd]))
    rw [List.foldl_cons, List.foldl_cons, hih, digitStep, hval]

theorem digits_decimal (n : Nat) : digits (decimal n) = BitVec.ofNat 32 n := by
  have h := foldl_decimal (R := BitVec 32) n
  rw [digits, foldl_digitStep (decimal_digits n), h]
  rfl

/-- Reading back what %d prints: every int, INT_MIN included, returns. -/
theorem scan_fmtInt (s : BitVec 32) (c : UInt8) (rest : Text) (hc : ¬ IsDigit c) :
    scan (fmtInt s.toInt ++ c :: rest) = some (s, c :: rest) := by
  have hne : decimal s.toInt.natAbs ≠ [] := by
    unfold decimal
    split <;> simp_all
  have hds := decimal_digits s.toInt.natAbs
  unfold fmtInt
  split
  · rename_i hneg
    have h := scan_eq [ch '-'] (decimal s.toInt.natAbs) rest c (by simp [IsSign]) hds hc
      (fun hnil => absurd hnil hne)
    have hv : digits (decimal s.toInt.natAbs) * signs [ch '-'] = s := by
      rw [digits_decimal]
      have hm : signs [ch '-'] = -1 := rfl
      rw [hm, mul_neg, mul_one, ← BitVec.natCast_eq_ofNat, ← Int.cast_natCast]
      have habs : ((s.toInt.natAbs : Nat) : Int) = -s.toInt := by omega
      rw [habs, Int.cast_neg, neg_neg]
      exact BitVec.ofInt_toInt
    rw [hv] at h
    exact h
  · rename_i hpos
    have h := scan_eq [] (decimal s.toInt.natAbs) rest c (by simp) hds hc
      (fun hnil => absurd hnil hne)
    have hv : digits (decimal s.toInt.natAbs) * signs [] = s := by
      rw [digits_decimal]
      have hm : signs [] = 1 := rfl
      rw [hm, mul_one, ← BitVec.natCast_eq_ofNat, ← Int.cast_natCast]
      have habs : ((s.toInt.natAbs : Nat) : Int) = s.toInt := by omega
      rw [habs]
      exact BitVec.ofInt_toInt
    rw [hv] at h
    exact h

theorem str2int_fmtInt (s : BitVec 32) (c : UInt8) (rest : Text) (hc : ¬ IsDigit c) :
    str2int (fmtInt s.toInt ++ c :: rest) = some s := by
  simp [str2int, scan_fmtInt s c rest hc]

section Extent

/-- str2int returns exactly when some byte stops its second loop. -/
theorem scan_eq_some {str rest : Text} {r : BitVec 32} (h : scan str = some (r, rest)) :
    ∃ ss ds c cs, str = ss ++ (ds ++ rest) ∧ (∀ c ∈ ss, IsSign c) ∧ (∀ c ∈ ds, IsDigit c) ∧
      rest = c :: cs ∧ ¬ IsDigit c ∧ (ds = [] → ¬ IsSign c) ∧ r = digits ds * signs ss := by
  obtain ⟨⟨puiss, mid⟩, hsign, hmap⟩ := Option.bind_eq_some_iff.mp h
  obtain ⟨⟨result, stop⟩, hdigit, heq⟩ := Option.map_eq_some_iff.mp hmap
  cases heq
  obtain ⟨ss, a, as, rfl, hss, rfl, ha, rfl⟩ := scanWhile_eq_some hsign
  obtain ⟨ds, c, cs, hmid, hds, rfl, hc, rfl⟩ := scanWhile_eq_some hdigit
  refine ⟨ss, ds, c, cs, congrArg (ss ++ ·) hmid, hss, hds, rfl, hc, ?_, rfl⟩
  rintro rfl
  cases hmid
  exact ha

theorem scan_append {str rest : Text} {r : BitVec 32} (h : scan str = some (r, rest))
    (after : Text) : scan (str ++ after) = some (r, rest ++ after) := by
  obtain ⟨ss, ds, c, cs, rfl, hss, hds, rfl, hc, hsc, rfl⟩ := scan_eq_some h
  have heq := scan_eq ss ds (cs ++ after) c hss hds hc hsc
  simpa using heq

theorem scan_eq_none {str : Text} :
    scan str = none ↔
      ∃ ss ds, str = ss ++ ds ∧ (∀ c ∈ ss, IsSign c) ∧ ∀ c ∈ ds, IsDigit c := by
  constructor
  · intro h
    cases hsign : scanWhile IsSign signStep str 1 with
    | none => exact ⟨str, [], by simp, scanWhile_eq_none hsign, by simp⟩
    | some r =>
      obtain ⟨puiss, mid⟩ := r
      obtain ⟨ss, c, cs, rfl, hss, -⟩ := scanWhile_eq_some hsign
      rw [scan, hsign, Option.bind_some, Option.map_eq_none_iff] at h
      exact ⟨ss, mid, rfl, hss, scanWhile_eq_none h⟩
  · rintro ⟨ss, ds, rfl, hss, hds⟩
    cases hscan : scan (ss ++ ds) with
    | none => rfl
    | some r =>
      -- a byte that is neither stands at the end of no such text
      obtain ⟨v, rest⟩ := r
      have hlong := scan_append hscan [0]
      have hstop := scan_eq ss ds [] 0 hss hds (by decide) (fun _ => by decide)
      rw [← List.append_assoc, hlong] at hstop
      obtain ⟨-, -, c, cs, -, -, -, rfl, -⟩ := scan_eq_some hscan
      simp at hstop

/-- A NUL behind the text ends both loops. -/
theorem str2int_isSome (payload after : Text) :
    ∃ v, str2int (payload ++ (after ++ [0])) = some v := by
  have hscan : (scan (payload ++ (after ++ [0]))).isSome := by
    cases h : scan (payload ++ (after ++ [0])) with
    | some r => rfl
    | none =>
      obtain ⟨ss, ds, heq, hss, hds⟩ := scan_eq_none.mp h
      have hmem : (0 : UInt8) ∈ ss ++ ds := heq ▸ by simp
      obtain hmem | hmem := List.mem_append.mp hmem
      · exact absurd (hss 0 hmem) (by decide)
      · exact absurd (hds 0 hmem) (by decide)
  obtain ⟨r, hr⟩ := Option.isSome_iff_exists.mp hscan
  exact ⟨r.1, by rw [str2int, hr, Option.map_some]⟩

theorem bytesRead_append {str : Text} (h : (scan str).isSome) (after : Text) :
    ∃ n, bytesRead (str ++ after) = some n ∧ n ≤ str.length := by
  obtain ⟨⟨r, rest⟩, hscan⟩ := Option.isSome_iff_exists.mp h
  obtain ⟨ss, ds, c, cs, rfl, -, -, rfl, -⟩ := scan_eq_some hscan
  refine ⟨_, by rw [bytesRead, scan_append hscan, Option.map_some], ?_⟩
  simp only [List.length_append, List.length_cons]
  omega

end Extent

example : str2int (lit "--+-17,3") = some (-17) := by decide

end PopcornFirmware.Packet.Str2int
