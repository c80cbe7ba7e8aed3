import PopcornFirmware.Packet.SerialRange

namespace PopcornFirmware.Usart.PutInt

open PopcornFirmware.Lib.CText PopcornFirmware.Packet.SerialRange

section Source

-- what becomes of a result that an int has to hold, none when that is undefined
variable (int : Int → Option Int)

def div (a b : Int) : Option Int := if b = 0 then none else int (a.tdiv b)

def rem (a b : Int) : Option Int := if b = 0 then none else int (a.tmod b)

/-- The loop while (n / r) r *= 10. The fuel bounds the rounds. -/
def powerLoop : Nat → Int → Int → Option Int
  | 0, _, _ => none
  | fuel + 1, n, r => do
    if (← div int n r) ≠ 0 then powerLoop fuel n (← int (r * 10)) else some r

/-- The loop while (r != 1), with the characters it puts. -/
def digitLoop : Nat → Int → Int → Option Text
  | 0, _, _ => none
  | fuel + 1, n, r =>
    if r ≠ 1 then do
      let r ← div int r 10
      let d ← div int (← rem int n (← int (r * 10))) r
      let c ← int (d + (ch '0').toNat)
      let cs ← digitLoop fuel n r
      some (UInt8.ofInt c :: cs)
    else some []

def putDigits (fuel : Nat) (n : Int) : Option Text :=
  (powerLoop int fuel n 1).bind (digitLoop int fuel n)

/-- The characters handed to PutChar. -/
def putInt (fuel : Nat) (n : Int32) : Option Text :=
  if n = 0 then some [ch '0']
  else if n < 0 then do
    let m ← int (-n.toInt)
    let cs ← putDigits int fuel m
    some (ch '-' :: cs)
  else putDigits int fuel n.toInt

end Source

/-- An operation that overflows is undefined. -/
def usart2PutInt : Nat → Int32 → Option Text := putInt checked
def usart3PutInt : Nat → Int32 → Option Text := putInt checked

def usart2PutUINT8 (fuel : Nat) (n : UInt8) : Option Text := usart2PutInt fuel (.ofNat n.toNat)
def usart2PutINT8 (fuel : Nat) (n : Int8) : Option Text := usart2PutInt fuel n.toInt32
def usart2PutUINT16 (fuel : Nat) (n : UInt16) : Option Text := usart2PutInt fuel (.ofNat n.toNat)
def usart2PutINT16 (fuel : Nat) (n : Int16) : Option Text := usart2PutInt fuel n.toInt32
def usart2PutUINT32 (fuel : Nat) (n : UInt32) : Option Text := usart2PutInt fuel n.toInt32
def usart2PutINT32 (fuel : Nat) (n : Int32) : Option Text := usart2PutInt fuel n
def usart3PutUINT8 (fuel : Nat) (n : UInt8) : Option Text := usart3PutInt fuel (.ofNat n.toNat)
def usart3PutINT8 (fuel : Nat) (n : Int8) : Option Text := usart3PutInt fuel n.toInt32
def usart3PutUINT16 (fuel : Nat) (n : UInt16) : Option Text := usart3PutInt fuel (.ofNat n.toNat)
def usart3PutINT16 (fuel : Nat) (n : Int16) : Option Text := usart3PutInt fuel n.toInt32
def usart3PutUINT32 (fuel : Nat) (n : UInt32) : Option Text := usart3PutInt fuel n.toInt32
def usart3PutINT32 (fuel : Nat) (n : Int32) : Option Text := usart3PutInt fuel n

/-- The call returns and has put the decimal text of the number. -/
def Prints (put : Nat → Option Text) (z : Int) : Prop := ∃ fuel, put fuel = some (fmtInt z)

section Digits

variable {int : Int → Option Int} {n k : Nat}

/-- The digits of a number from the k-th power of ten down. -/
def lowDigits (n k : Nat) : Text := (List.range k).reverse.map fun i => digitByte (n / 10 ^ i % 10)

theorem lowDigits_succ (n k : Nat) :
    lowDigits n (k + 1) = digitByte (n / 10 ^ k % 10) :: lowDigits n k := by
  simp [lowDigits, List.range_succ]

theorem digits_eq_map_range (n : Nat) :
    Nat.digits 10 n = (List.range (Nat.digits 10 n).length).map fun i => n / 10 ^ i % 10 := by
  refine List.ext_getElem (by simp) fun i hi _ => ?_
  have hget : (Nat.digits 10 n).getD i 0 = n / 10 ^ i % 10 := Nat.getD_digits n i (by norm_num)
  rw [List.getD_eq_getElem?_getD, List.getElem?_eq_getElem hi, Option.getD_some] at hget
  simp [hget]

theorem decimal_eq_lowDigits (hn : n ≠ 0) :
    decimal n = lowDigits n (Nat.digits 10 n).length := by
  rw [decimal, if_neg hn, digits_eq_map_range, lowDigits, List.map_reverse, List.map_reverse,
    List.map_map]
  simp [Function.comp_def]

theorem inInt_of_lt (h : n < 2147483648) : InInt n := ⟨by omega, by omega⟩

theorem lt_of_inInt (h : InInt n) : n < 2147483648 := by exact_mod_cast h.2

variable (hint : ∀ z, InInt z → int z = some z)
include hint

theorem div_eq {a b : Nat} (ha : InInt a) (hb : 0 < b) :
    div int a b = some ((a / b : Nat) : Int) := by
  rw [div, if_neg (by omega), ← Int.ofNat_tdiv]
  exact hint _ (inInt_of_lt ((Nat.div_le_self a b).trans_lt (lt_of_inInt ha)))

theorem rem_eq {a b : Nat} (ha : InInt a) (hb : 0 < b) :
    rem int a b = some ((a % b : Nat) : Int) := by
  rw [rem, if_neg (by omega), ← Int.ofNat_tmod]
  exact hint _ (inInt_of_lt ((Nat.mod_le a b).trans_lt (lt_of_inInt ha)))

theorem powerLoop_stop (fuel : Nat) {r : Nat} (hn : InInt n) (hlt : n < r) :
    powerLoop int (fuel + 1) n r = some (r : Int) := by
  have hq : n / r = 0 := Nat.div_eq_of_lt hlt
  rw [powerLoop, div_eq hint hn (by omega), hq]
  rfl

theorem powerLoop_next (fuel : Nat) {r : Nat} (hn : InInt n) (hr : 0 < r) (hle : r ≤ n)
    (hbig : InInt (r * 10)) :
    powerLoop int (fuel + 1) n r = powerLoop int fuel n (r * 10 : Nat) := by
  have hq : ((n / r : Nat) : Int) ≠ 0 := by exact_mod_cast (Nat.div_pos hle hr).ne'
  rw [powerLoop, div_eq hint hn hr, hint _ hbig]
  simp only [Option.bind_eq_bind, Option.bind_some, if_pos hq]
  rfl

/-- The first loop stops at the power of ten behind the digits. -/
theorem powerLoop_executes {l : Nat} (hl : l ≤ 9) (hlow : ∀ k < l, 10 ^ k ≤ n) (hn : n < 10 ^ l)
    (j : Nat) (hj : j ≤ l) :
    powerLoop int (j + 1) n (10 ^ (l - j) : Nat) = some ((10 ^ l : Nat) : Int) := by
  have hpow : ∀ k ≤ l, 10 ^ k ≤ 10 ^ 9 := fun k hk => Nat.pow_le_pow_right (by norm_num) (by omega)
  have hnint : InInt n := by
    have hle := hpow l (le_refl l)
    exact ⟨by omega, by omega⟩
  induction j with
  | zero => exact powerLoop_stop hint 0 hnint hn
  | succ j ih =>
    have hsucc : 10 ^ (l - (j + 1)) * 10 = 10 ^ (l - j) := by
      rw [← pow_succ]
      congr 1
      omega
    have hle := hpow (l - j) (by omega)
    have hbig : InInt (((10 ^ (l - (j + 1)) : Nat) : Int) * 10) := ⟨by omega, by omega⟩
    rw [powerLoop_next hint (j + 1) hnint (by positivity) (hlow _ (by omega)) hbig, hsucc]
    exact ih (by omega)

/-- A round of the second loop puts one digit. -/
theorem digitLoop_next (fuel : Nat) {r : Nat} (hn : InInt n) (hr : 0 < r) (hbig : InInt (r * 10)) :
    digitLoop int (fuel + 1) n (r * 10 : Nat) =
      (digitLoop int fuel n r).map (digitByte (n / r % 10) :: ·) := by
  have hne : ((r * 10 : Nat) : Int) ≠ 1 := by omega
  have htens : div int (r * 10 : Nat) 10 = some (r : Int) := by
    have hd := div_eq hint (a := r * 10) (b := 10) (by exact_mod_cast hbig) (by norm_num)
    rwa [Nat.mul_div_cancel r (by norm_num)] at hd
  have hrem : rem int n (r * 10) = some ((n % (r * 10) : Nat) : Int) :=
    rem_eq hint hn (by positivity)
  have hlow : InInt ((n % (r * 10) : Nat) : Int) :=
    inInt_of_lt ((Nat.mod_le n (r * 10)).trans_lt (lt_of_inInt hn))
  have hdig : div int (n % (r * 10) : Nat) r = some ((n / r % 10 : Nat) : Int) := by
    rw [div_eq hint hlow hr, Nat.mod_mul_right_div_self]
  have hlt : n / r % 10 < 10 := Nat.mod_lt _ (by norm_num)
  have hchar : ((n / r % 10 : Nat) : Int) + ((ch '0').toNat : Nat) = (48 + n / r % 10 : Nat) := by
    rw [Nat.cast_add, add_comm]
    rfl
  rw [digitLoop, if_pos hne, htens]
  simp only [Option.bind_eq_bind, Option.bind_some, hint _ hbig, hrem, hdig, hchar,
    hint ((48 + n / r % 10 : Nat) : Int) ⟨by omega, by omega⟩]
  have hbyte : UInt8.ofInt ((48 + n / r % 10 : Nat) : Int) = digitByte (n / r % 10) := by
    apply UInt8.toNat_inj.mp
    simp [UInt8.ofInt, digitByte]
    omega
  rw [hbyte]
  cases digitLoop int fuel n r <;> rfl

theorem digitLoop_executes (hk : k ≤ 9) (hn : InInt n) :
    digitLoop int (k + 1) n (10 ^ k : Nat) = some (lowDigits n k) := by
  induction k with
  | zero => rfl
  | succ k ih =>
    have hpow : 10 ^ (k + 1) ≤ 10 ^ 9 := Nat.pow_le_pow_right (by norm_num) hk
    rw [pow_succ] at hpow ⊢
    have hbig : InInt (((10 ^ k : Nat) : Int) * 10) := ⟨by omega, by omega⟩
    rw [digitLoop_next hint (k + 1) hn (by positivity) hbig, ih (by omega), lowDigits_succ]
    rfl

theorem putDigits_executes (h0 : n ≠ 0) (hn : n < 10 ^ 9) :
    ∃ fuel, putDigits int fuel n = some (decimal n) := by
  have hl : (Nat.digits 10 n).length ≤ 9 := (Nat.digits_length_le_iff (by norm_num) n).mpr hn
  have hlow : ∀ k < (Nat.digits 10 n).length, 10 ^ k ≤ n := by
    intro k hk
    exact Nat.le_of_not_lt fun hlt =>
      absurd ((Nat.digits_length_le_iff (by norm_num) n).mpr hlt) (by omega)
  have hlt : n < 10 ^ (Nat.digits 10 n).length := Nat.lt_base_pow_length_digits (by norm_num)
  have hpower := powerLoop_executes hint hl hlow hlt _ (le_refl _)
  rw [Nat.sub_self, pow_zero, Nat.cast_one] at hpower
  refine ⟨(Nat.digits 10 n).length + 1, ?_⟩
  rw [putDigits, hpower, Option.bind_some,
    digitLoop_executes hint hl ⟨by omega, by omega⟩, decimal_eq_lowDigits h0]

end Digits

section Overflow

theorem checked_of_inInt (z : Int) (h : InInt z) : checked z = some z := if_pos h

/-- From the billion on, the power of ten leaves the range of an int. -/
theorem powerLoop_overflow {n : Nat} (hn : 10 ^ 9 ≤ n) (hint : InInt n) (fuel k : Nat)
    (hk : k ≤ 9) : powerLoop checked fuel n (10 ^ k : Nat) = none := by
  induction fuel generalizing k with
  | zero => rfl
  | succ fuel ih =>
    have hle : 10 ^ k ≤ n := (Nat.pow_le_pow_right (by norm_num) hk).trans hn
    obtain hlt | rfl := Nat.lt_or_eq_of_le hk
    · have hpow : 10 ^ (k + 1) ≤ 10 ^ 9 := Nat.pow_le_pow_right (by norm_num) hlt
      rw [pow_succ] at hpow
      rw [powerLoop_next checked_of_inInt fuel hint (by positivity) hle
        ⟨by omega, by omega⟩, ← pow_succ]
      exact ih (k + 1) hlt
    · have hq : ((n / 10 ^ 9 : Nat) : Int) ≠ 0 := by
        exact_mod_cast (Nat.div_pos hn (by positivity)).ne'
      rw [powerLoop, div_eq checked_of_inInt hint (by positivity)]
      simp only [Option.bind_eq_bind, Option.bind_some, if_pos hq]
      rfl

theorem putInt_of_neg {int : Int → Option Int} {n : Int32} (hn : n.toInt < 0) (fuel : Nat) :
    putInt int fuel n =
      (int (-n.toInt)).bind fun m => (putDigits int fuel m).map (ch '-' :: ·) := by
  have h0 : n ≠ 0 := by
    rintro rfl
    exact absurd hn (by decide)
  rw [putInt, if_neg h0, if_pos (Int32.lt_iff_toInt_lt.mpr hn)]
  cases int (-n.toInt) with
  | none => rfl
  | some m => cases h : putDigits int fuel m <;> simp [h]

theorem putInt_of_pos {int : Int → Option Int} {n : Int32} (hn : 0 < n.toInt) (fuel : Nat) :
    putInt int fuel n = putDigits int fuel n.toInt := by
  have h0 : n ≠ 0 := by
    rintro rfl
    exact absurd hn (by decide)
  have hneg : ¬ n < 0 := fun hlt => absurd (Int32.lt_iff_toInt_lt.mp hlt) (by simpa using hn.le)
  rw [putInt, if_neg h0, if_neg hneg]

/-- Below the billion, whatever an overflow leads to. -/
theorem putInt_executes {int : Int → Option Int} (hint : ∀ z, InInt z → int z = some z)
    {n : Int32} (hn : n.toInt.natAbs < 10 ^ 9) : Prints (putInt int · n) n.toInt := by
  obtain hneg | hzero | hpos := lt_trichotomy n.toInt 0
  · obtain ⟨fuel, hput⟩ := putDigits_executes hint (n := n.toInt.natAbs) (by omega) hn
    have habs : -n.toInt = n.toInt.natAbs := by omega
    refine ⟨fuel, ?_⟩
    dsimp only
    rw [putInt_of_neg hneg, habs, hint _ (inInt_of_lt (by omega)), Option.bind_some, hput, fmtInt,
      if_pos hneg]
    rfl
  · have h0 : n = 0 := Int32.toInt_inj.mp hzero
    subst h0
    exact ⟨0, rfl⟩
  · obtain ⟨fuel, hput⟩ := putDigits_executes hint (n := n.toInt.natAbs) (by omega) hn
    refine ⟨fuel, ?_⟩
    have habs : n.toInt = n.toInt.natAbs := by omega
    dsimp only
    rw [putInt_of_pos hpos, fmtInt, if_neg (by omega), habs, hput]
    rfl

theorem putDigits_overflow {n : Nat} (hn : 10 ^ 9 ≤ n) (hint : InInt n) (fuel : Nat) :
    putDigits checked fuel n = none := by
  have hpower := powerLoop_overflow hn hint fuel 0 (by norm_num)
  rw [pow_zero, Nat.cast_one] at hpower
  rw [putDigits, hpower]
  rfl

theorem putInt_overflow {n : Int32} (hn : 10 ^ 9 ≤ n.toInt.natAbs) (fuel : Nat) :
    putInt checked fuel n = none := by
  have hlt := n.toInt_lt
  obtain hneg | hpos := lt_or_gt_of_ne (show n.toInt ≠ 0 by omega)
  · have habs : -n.toInt = n.toInt.natAbs := by omega
    rw [putInt_of_neg hneg, habs, checked]
    split
    · rename_i hint
      rw [Option.bind_some, putDigits_overflow hn hint]
      rfl
    · rfl
  · have habs : n.toInt = n.toInt.natAbs := by omega
    rw [putInt_of_pos hpos, habs]
    exact putDigits_overflow hn (inInt_of_lt (by omega)) fuel

/-- PutInt prints the numbers of at most nine digits. -/
theorem putInt_prints_iff (n : Int32) :
    Prints (putInt checked · n) n.toInt ↔ n.toInt.natAbs < 10 ^ 9 := by
  constructor
  · rintro ⟨fuel, hput⟩
    by_contra hbig
    have hnone := putInt_overflow (n := n) (by omega) fuel
    cases hnone.symm.trans hput
  · exact putInt_executes checked_of_inInt

theorem putUINT_prints {n : Nat} (hn : n < 10 ^ 9) :
    Prints (putInt checked · (.ofNat n)) n := by
  have hval : (Int32.ofNat n).toInt = n := Int32.toInt_ofNat_of_lt (by omega)
  have hput := (putInt_prints_iff (.ofNat n)).mpr (by omega)
  rwa [hval] at hput

theorem toInt_toInt32 (n : UInt32) :
    n.toInt32.toInt = if n.toNat < 2 ^ 31 then (n.toNat : Int) else n.toNat - 2 ^ 32 := by
  have hcond : n.toInt32.toInt = _ := BitVec.toInt_eq_toNat_cond n.toBitVec
  rw [hcond, UInt32.toNat_toBitVec]
  split <;> split <;> omega

/-- What comes out for a value above INT_MAX, if anything does, has a sign. -/
theorem putUINT32_prints_iff (n : UInt32) :
    Prints (putInt checked · n.toInt32) n.toNat ↔ n.toNat < 10 ^ 9 := by
  have hval := toInt_toInt32 n
  have hlt := n.toNat_lt
  constructor
  · rintro ⟨fuel, hput⟩
    by_contra hbig
    by_cases hmax : n.toNat < 2 ^ 31
    · rw [if_pos hmax] at hval
      have hnone := putInt_overflow (n := n.toInt32) (by omega) fuel
      cases hnone.symm.trans hput
    · rw [if_neg hmax] at hval
      dsimp only at hput
      rw [putInt_of_neg (by omega)] at hput
      obtain ⟨m, -, hm⟩ := Option.bind_eq_some_iff.mp hput
      obtain ⟨cs, -, htext⟩ := Option.map_eq_some_iff.mp hm
      have hdec : fmtInt (n.toNat : Int) = decimal n.toNat := if_neg (by omega)
      have hdigit := decimal_digits n.toNat (ch '-') (by rw [← hdec, ← htext]; simp)
      exact absurd hdigit (by decide)
  · intro hn
    rw [if_pos (by omega)] at hval
    have hput := (putInt_prints_iff n.toInt32).mpr (by omega)
    rwa [hval] at hput

/-- The functions of either UART print their argument exactly when it has at
most nine digits, which those of 8 and 16 bits always have. -/
theorem usartPutInt_prints_iff (n : Int32) (u : UInt32) (u16 : UInt16) (i16 : Int16) (u8 : UInt8)
    (i8 : Int8) :
    (∀ put ∈ [usart2PutInt, usart3PutInt, usart2PutINT32, usart3PutINT32],
      Prints (put · n) n.toInt ↔ n.toInt.natAbs < 10 ^ 9) ∧
    (∀ put ∈ [usart2PutUINT32, usart3PutUINT32], Prints (put · u) u.toNat ↔ u.toNat < 10 ^ 9) ∧
    (∀ put ∈ [usart2PutUINT16, usart3PutUINT16], Prints (put · u16) u16.toNat) ∧
    (∀ put ∈ [usart2PutINT16, usart3PutINT16], Prints (put · i16) i16.toInt) ∧
    (∀ put ∈ [usart2PutUINT8, usart3PutUINT8], Prints (put · u8) u8.toNat) ∧
    (∀ put ∈ [usart2PutINT8, usart3PutINT8], Prints (put · i8) i8.toInt) := by
  simp only [List.forall_mem_cons, List.not_mem_nil, false_imp_iff, implies_true, and_true]
  refine ⟨?int32, ?uint32, ?uint16, ?int16, ?uint8, ?int8⟩
  case int32 =>
    have hput := putInt_prints_iff n
    exact ⟨hput, hput, hput, hput⟩
  case uint32 =>
    have hput := putUINT32_prints_iff u
    exact ⟨hput, hput⟩
  case uint16 =>
    have hput : Prints (putInt checked · (.ofNat u16.toNat)) u16.toNat :=
      putUINT_prints (by have := u16.toNat_lt; omega)
    exact ⟨hput, hput⟩
  case int16 =>
    have hlt := i16.toInt_lt
    have hle := i16.le_toInt
    have hput := (putInt_prints_iff i16.toInt32).mpr (by rw [Int16.toInt_toInt32]; omega)
    rw [Int16.toInt_toInt32] at hput
    exact ⟨hput, hput⟩
  case uint8 =>
    have hput : Prints (putInt checked · (.ofNat u8.toNat)) u8.toNat :=
      putUINT_prints (by have := u8.toNat_lt; omega)
    exact ⟨hput, hput⟩
  case int8 =>
    have hlt := i8.toInt_lt
    have hle := i8.le_toInt
    have hput := (putInt_prints_iff i8.toInt32).mpr (by rw [Int8.toInt_toInt32]; omega)
    rw [Int8.toInt_toInt32] at hput
    exact ⟨hput, hput⟩

/-- Of the least number with ten digits, the power of ten overflows. -/
theorem usartPutInt_billion : ¬ ∀ n : Int32, Prints (usart2PutInt · n) n.toInt := by
  intro h
  obtain ⟨fuel, hput⟩ := h 1000000000
  have hnone : usart2PutInt fuel 1000000000 = none := putInt_overflow (by decide) fuel
  cases hnone.symm.trans hput

-- where the processor goes on with the low 32 bits
example : putInt (fun z => some (z.bmod (2 ^ 32))) 11 1000000000 = some (lit "709119810") := by
  decide +kernel

example : usart2PutUINT32 2 4294967295 = some (lit "-1") := by decide +kernel

end Overflow

end PopcornFirmware.Usart.PutInt
