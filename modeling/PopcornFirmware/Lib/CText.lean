import Mathlib.Data.Nat.Digits.Lemmas

namespace PopcornFirmware.Lib.CText

/-- The bytes of a C string without its terminating NUL, and any other
stretch of memory. -/
abbrev Text := List UInt8

def ch (c : Char) : UInt8 := UInt8.ofNat c.toNat

def lit (s : String) : Text := s.toList.map ch

/-- A property of all bytes of a text is decided along the text, not by trying
every byte there is. -/
instance (priority := high) decidableForallText (P : UInt8 → Prop) [DecidablePred P] (t : Text) :
    Decidable (∀ c ∈ t, P c) := List.decidableBAll P t

/-- Number of bytes before the first NUL; none when the memory that can be
read ends before one. -/
def strlen : Text → Option Nat
  | [] => none
  | c :: cs => if c = 0 then some 0 else (strlen cs).map (· + 1)

/-- Formatted output into an array of the given size. The text and its NUL
have to fit: anything longer overruns the array and has no defined result. -/
def sprintf (size : Nat) (text : Text) : Option Text :=
  if text.length < size then some text else none

theorem sprintf_eq_some {size : Nat} {text out : Text} :
    sprintf size text = some out ↔ text.length < size ∧ out = text := by
  unfold sprintf
  split <;> simp_all [eq_comm]

theorem sprintf_of_lt {size : Nat} {text : Text} (h : text.length < size) :
    sprintf size text = some text := if_pos h

theorem strlen_append_zero (t rest : Text) (h : ∀ c ∈ t, c ≠ 0) :
    strlen (t ++ 0 :: rest) = some t.length := by
  induction t with
  | nil => simp [strlen]
  | cons c cs ih =>
    have hc : c ≠ 0 := h c (by simp)
    have hcs : ∀ d ∈ cs, d ≠ 0 := fun d hd => h d (by simp [hd])
    simp [strlen, hc, ih hcs]

theorem strlen_isSome (t : Text) : (strlen t).isSome ↔ (0 : UInt8) ∈ t := by
  induction t with
  | nil => simp [strlen]
  | cons c cs ih =>
    by_cases hc : c = 0
    · simp [strlen, hc]
    · simp [strlen, hc, ih, Ne.symm hc]

theorem strlen_append (t rest : Text) {n : Nat} (h : strlen t = some n) :
    strlen (t ++ rest) = some n := by
  induction t generalizing n with
  | nil => simp [strlen] at h
  | cons c cs ih =>
    by_cases hc : c = 0
    · simpa [strlen, hc] using h
    · simp only [strlen, hc, if_false, Option.map_eq_some_iff] at h
      obtain ⟨m, hm, rfl⟩ := h
      simp [strlen, hc, ih hm]

theorem strlen_lt (t : Text) {n : Nat} (h : strlen t = some n) : n < t.length := by
  induction t generalizing n with
  | nil => simp [strlen] at h
  | cons c cs ih =>
    by_cases hc : c = 0
    · simp [strlen, hc] at h
      simp [← h]
    · simp only [strlen, hc, if_false, Option.map_eq_some_iff] at h
      obtain ⟨m, hm, rfl⟩ := h
      simpa using ih hm

/-- The NUL that ends a text lies behind the bytes that are none. -/
theorem length_le_of_strlen {t rest : Text} {n : Nat} (ht : ∀ c ∈ t, c ≠ 0)
    (h : strlen (t ++ rest) = some n) : t.length ≤ n := by
  induction t generalizing n with
  | nil => exact Nat.zero_le n
  | cons c t ih =>
    have hc : c ≠ 0 := ht c (by simp)
    simp only [List.cons_append, strlen, if_neg hc, Option.map_eq_some_iff] at h
    obtain ⟨k, hk, rfl⟩ := h
    simpa using ih (fun d hd => ht d (by simp [hd])) hk

theorem ne_zero_of_mem_take {t : Text} {n : Nat} (h : strlen t = some n) :
    ∀ c ∈ t.take n, c ≠ 0 := by
  induction t generalizing n with
  | nil => simp
  | cons b t ih =>
    by_cases hb : b = 0
    · simp only [strlen, hb, if_true, Option.some.injEq] at h
      simp [← h]
    · simp only [strlen, hb, if_false, Option.map_eq_some_iff] at h
      obtain ⟨m, hm, rfl⟩ := h
      simpa [hb] using ih hm

section ScanWhile

variable {α : Type*} (test : UInt8 → Prop) [DecidablePred test] (f : α → UInt8 → α)

/-- The loop while (test(*str)) { acc = f(acc, *str); str++; }: the result and
the pointer it stops at, none when the readable memory ends first. -/
def scanWhile : Text → α → Option (α × Text)
  | [], _ => none
  | c :: str, acc => if test c then scanWhile str (f acc c) else some (acc, c :: str)

variable {test f}

theorem scanWhile_stop {c : UInt8} (hc : ¬ test c) (str : Text) (acc : α) :
    scanWhile test f (c :: str) acc = some (acc, c :: str) := if_neg hc

theorem scanWhile_append (xs rest : Text) (h : ∀ c ∈ xs, test c) (acc : α) :
    scanWhile test f (xs ++ rest) acc = scanWhile test f rest (xs.foldl f acc) := by
  induction xs generalizing acc with
  | nil => rfl
  | cons c xs ih =>
    have hc : test c := h c (by simp)
    have hxs : ∀ d ∈ xs, test d := fun d hd => h d (by simp [hd])
    simp only [List.cons_append, scanWhile]
    rw [if_pos hc, ih hxs, List.foldl_cons]

theorem scanWhile_eq_some {str rest : Text} {acc r : α}
    (h : scanWhile test f str acc = some (r, rest)) :
    ∃ xs c cs, str = xs ++ rest ∧ (∀ c ∈ xs, test c) ∧ rest = c :: cs ∧ ¬ test c ∧
      r = xs.foldl f acc := by
  induction str generalizing acc with
  | nil => cases h
  | cons c str ih =>
    by_cases hc : test c
    · rw [scanWhile, if_pos hc] at h
      obtain ⟨xs, d, ds, rfl, hxs, rfl, hd, rfl⟩ := ih h
      refine ⟨c :: xs, d, ds, rfl, ?_, rfl, hd, rfl⟩
      intro b hb
      obtain rfl | hb := List.mem_cons.mp hb
      · exact hc
      · exact hxs b hb
    · rw [scanWhile_stop hc] at h
      cases h
      exact ⟨[], c, str, rfl, by simp, rfl, hc, rfl⟩

theorem scanWhile_eq_none {str : Text} {acc : α} (h : scanWhile test f str acc = none) :
    ∀ c ∈ str, test c := by
  induction str generalizing acc with
  | nil => simp
  | cons c str ih =>
    by_cases hc : test c
    · rw [scanWhile, if_pos hc] at h
      intro b hb
      obtain rfl | hb := List.mem_cons.mp hb
      · exact hc
      · exact ih h b hb
    · rw [scanWhile_stop hc] at h
      cases h

end ScanWhile

section Decimal

def IsDigit (c : UInt8) : Prop := ch '0' ≤ c ∧ c ≤ ch '9'

instance : DecidablePred IsDigit := fun _ => inferInstanceAs (Decidable (_ ∧ _))

def digitByte (d : Nat) : UInt8 := UInt8.ofNat (48 + d)

def decimal (n : Nat) : Text :=
  if n = 0 then [ch '0'] else (Nat.digits 10 n).reverse.map digitByte

/-- The conversion %d. -/
def fmtInt (z : Int) : Text :=
  if z < 0 then ch '-' :: decimal z.natAbs else decimal z.natAbs

/-- The conversion %.pd: the sign, then at least p digits. -/
def fmtPrec (p : Nat) (z : Int) : Text :=
  let ds := decimal z.natAbs
  let padded := List.replicate (p - ds.length) (ch '0') ++ ds
  if z < 0 then ch '-' :: padded else padded

def hexByte (d : Nat) : UInt8 := if d < 10 then UInt8.ofNat (48 + d) else UInt8.ofNat (55 + d)

/-- The conversion %02X of a value below 256. -/
def fmtHex2 (n : Nat) : Text := [hexByte (n / 16), hexByte (n % 16)]

theorem digitByte_toNat {d : Nat} (h : d < 10) : (digitByte d).toNat = 48 + d := by
  simp only [digitByte, UInt8.toNat_ofNat']
  omega

theorem isDigit_iff (c : UInt8) : IsDigit c ↔ 48 ≤ c.toNat ∧ c.toNat ≤ 57 := by
  rfl

theorem isDigit_digitByte {d : Nat} (h : d < 10) : IsDigit (digitByte d) := by
  rw [isDigit_iff, digitByte_toNat h]
  omega

theorem decimal_digits (n : Nat) : ∀ c ∈ decimal n, IsDigit c := by
  intro c hc
  unfold decimal at hc
  split at hc
  · rw [List.mem_singleton.mp hc]
    decide
  · obtain ⟨d, hd, rfl⟩ := List.mem_map.mp hc
    exact isDigit_digitByte (Nat.digits_lt_base (by norm_num) (List.mem_reverse.mp hd))

/-- Reading digits left to right in any semiring undoes writing them. -/
theorem foldl_decimal {R : Type*} [CommSemiring R] (n : Nat) :
    (decimal n).foldl (fun r c => r * 10 + ((c.toNat - 48 : Nat) : R)) 0 = n := by
  unfold decimal
  split
  · rename_i h
    simp [h, ch]
  · have hd : ∀ ds : List Nat, (∀ d ∈ ds, d < 10) →
        ((ds.reverse.map digitByte).foldl (fun r c => r * 10 + ((c.toNat - 48 : Nat) : R)) 0) =
          Nat.ofDigits (10 : R) ds := by
      intro ds hds
      induction ds with
      | nil => simp [Nat.ofDigits]
      | cons d ds ih =>
        have hlt : d < 10 := hds d (by simp)
        have htl : ∀ e ∈ ds, e < 10 := fun e he => hds e (by simp [he])
        simp only [List.reverse_cons, List.map_append, List.foldl_append, ih htl, List.map_cons,
          List.map_nil, List.foldl_cons, List.foldl_nil, digitByte_toNat hlt, Nat.ofDigits]
        simp
        ring
    rw [hd _ (fun d hd => Nat.digits_lt_base (by norm_num) hd)]
    have h := Nat.coe_ofDigits R 10 (Nat.digits 10 n)
    rw [Nat.ofDigits_digits] at h
    simpa using h.symm

theorem decimal_length {n k : Nat} (hk : 0 < k) (h : n < 10 ^ k) : (decimal n).length ≤ k := by
  unfold decimal
  split
  · exact hk
  · have hl := (Nat.digits_length_le_iff (by norm_num : 1 < 10) n).mpr h
    simpa using hl

end Decimal

end PopcornFirmware.Lib.CText
