import PopcornFirmware.Packet.Receive

namespace PopcornFirmware.Packet.SerialRange

open PopcornFirmware.Lib.CText PopcornFirmware.Packet.Str2int PopcornFirmware.Packet.Receive

section Denoted

def signRun (str : Text) : Text := str.takeWhile (IsSign ·)

def digitRun (str : Text) : Text := (str.dropWhile (IsSign ·)).takeWhile (IsDigit ·)

def value (ds : Text) : Nat := ds.foldl (fun r c => r * 10 + (c.toNat - 48)) 0

/-- The number a text stands for: the value of its digits, negated once for
each minus sign. -/
def denoted (str : Text) : Int := (-1) ^ (signRun str).count (ch '-') * value (digitRun str)

end Denoted

/-- The range of a 32-bit int. -/
def InInt (z : Int) : Prop := -2147483648 ≤ z ∧ z < 2147483648

instance : DecidablePred InInt := fun _ => inferInstanceAs (Decidable (_ ∧ _))

section Checked

/-- The result of an operation on signed ints; none when it overflows. -/
def checked (z : Int) : Option Int := if InInt z then some z else none

def checkedSign (puiss : Option Int) (c : UInt8) : Option Int :=
  if c = ch '-' then puiss.bind fun p => checked (p * -1) else puiss

def checkedDigit : Option Int → UInt8 → Option Int
  | none, _ => none
  | some result, c =>
    (checked (result * 10)).bind fun tens => checked (tens + (c.toNat - (ch '0').toNat))

/-- str2int with every operation checked for overflow. -/
def checkedStr2int (str : Text) : Option Int := do
  let s ← scanWhile IsSign checkedSign str (some 1)
  let r ← scanWhile IsDigit checkedDigit s.2 (some 0)
  checked ((← r.1) * (← s.1))

end Checked

/-- The text is read as the number it stands for or refused, and what is accepted
has been computed without an overflow. -/
def ReadsDenoted (accepts : Int → Prop) (str : Text) : Prop :=
  ∃ r, str2int str = some r ∧
    ((InInt (denoted str) ∧ r.toInt = denoted str) ∨ ¬ accepts r.toInt) ∧
    (accepts r.toInt → (checkedStr2int str).isSome)

/-- The test of tcpecho_thread. -/
def tcpechoThreadAccepts (recvSerial : Int) : Prop := 0 ≤ recvSerial

instance : DecidablePred tcpechoThreadAccepts := fun _ => inferInstanceAs (Decidable (_ ≤ _))

/-- The test of tcp_server_recv and tcp_echoclient_recv, which refuse what is
<= 0. -/
def callbackAccepts (recvSerial : Int) : Prop := ¬ recvSerial ≤ 0

instance : DecidablePred callbackAccepts := fun _ => inferInstanceAs (Decidable (¬ _))

theorem tcpechoThread_accepted {data : Text} {o : Outcome} {n : Nat}
    (h : tcpechoThread data = some (o, n)) :
    str2int data = some o.recvSerial ∧
      (o.accepted = true ↔ tcpechoThreadAccepts o.recvSerial.toInt) := by
  simp only [tcpechoThread, Option.bind_eq_bind, Option.bind_eq_some_iff] at h
  obtain ⟨r, hr, read, -, heq⟩ := h
  cases heq
  exact ⟨hr, by simp [tcpechoThreadAccepts]⟩

theorem checkedRecv_accepted {serialCheck : Nat} {payload : Text} {o : Outcome} {n : Nat}
    (h : checkedRecv serialCheck payload = some (o, n)) :
    str2int payload = some o.recvSerial ∧
      (o.accepted = true ↔ callbackAccepts o.recvSerial.toInt) := by
  simp only [checkedRecv, Option.bind_eq_bind, Option.bind_eq_some_iff] at h
  obtain ⟨len, -, text, -, r, hr, read, -, heq⟩ := h
  cases heq
  exact ⟨hr, by simp [callbackAccepts]⟩

section Runs

variable {ss ds : Text} {c : UInt8}

theorem runs_eq (rest : Text) (hss : ∀ c ∈ ss, IsSign c) (hds : ∀ c ∈ ds, IsDigit c)
    (hc : ¬ IsDigit c) (hsc : ds = [] → ¬ IsSign c) :
    signRun (ss ++ (ds ++ c :: rest)) = ss ∧ digitRun (ss ++ (ds ++ c :: rest)) = ds := by
  have hsign : ∀ b ∈ ss, decide (IsSign b) = true := fun b hb => decide_eq_true (hss b hb)
  have hdigit : ∀ b ∈ ds, decide (IsDigit b) = true := fun b hb => decide_eq_true (hds b hb)
  have htake : (ds ++ c :: rest).takeWhile (IsSign ·) = [] ∧
      (ds ++ c :: rest).dropWhile (IsSign ·) = ds ++ c :: rest := by
    cases ds with
    | nil => simp [hsc rfl]
    | cons d ds => simp [not_isSign_of_isDigit (hds d (by simp))]
  constructor
  · rw [signRun, List.takeWhile_append_of_pos hsign, htake.1, List.append_nil]
  · rw [digitRun, List.dropWhile_append_of_pos hsign, htake.2,
      List.takeWhile_append_of_pos hdigit, List.takeWhile_cons_of_neg (by simp [hc]),
      List.append_nil]

theorem digits_eq (hds : ∀ c ∈ ds, IsDigit c) : digits ds = ((value ds : Int) : BitVec 32) := by
  have hcast : ∀ (ds : Text) (r : Nat),
      ((ds.foldl (fun r c => r * 10 + (c.toNat - 48)) r : Nat) : BitVec 32) =
        ds.foldl (fun r c => r * 10 + ((c.toNat - 48 : Nat) : BitVec 32)) r := by
    intro ds
    induction ds with
    | nil => intro r; rfl
    | cons c ds ih =>
      intro r
      rw [List.foldl_cons, List.foldl_cons, ih]
      push_cast
      rfl
  rw [digits, foldl_digitStep hds, Int.cast_natCast, value, hcast]
  rfl

theorem signs_eq (ss : Text) : signs ss = (((-1) ^ ss.count (ch '-') : Int) : BitVec 32) := by
  have hfold : ∀ (ss : Text) (p : BitVec 32), ss.foldl signStep p =
      p * (((-1) ^ ss.count (ch '-') : Int) : BitVec 32) := by
    intro ss
    induction ss with
    | nil => simp
    | cons c ss ih =>
      intro p
      rw [List.foldl_cons, ih, signStep]
      by_cases hc : c = ch '-'
      · subst hc
        rw [if_pos rfl, List.count_cons_self, pow_succ]
        push_cast
        ring
      · rw [if_neg hc, List.count_cons_of_ne hc]
  rw [signs, hfold, one_mul]

theorem foldl_checkedSign (ss : Text) {p : Int} (hp : p = 1 ∨ p = -1) :
    ∃ q, ss.foldl checkedSign (some p) = some q ∧ (q = 1 ∨ q = -1) := by
  induction ss generalizing p with
  | nil => exact ⟨p, rfl, hp⟩
  | cons c ss ih =>
    rw [List.foldl_cons, checkedSign]
    split
    · obtain rfl | rfl := hp
      · exact ih (p := -1) (Or.inr rfl)
      · exact ih (p := 1) (Or.inl rfl)
    · exact ih hp

theorem le_foldl_value (ds : Text) (r : Nat) :
    r ≤ ds.foldl (fun r c => r * 10 + (c.toNat - 48)) r := by
  induction ds generalizing r with
  | nil => exact le_refl r
  | cons c ds ih => exact le_trans (by omega) (ih (r * 10 + (c.toNat - 48)))

/-- The digits of a number that fits are read without an overflow on the way. -/
theorem foldl_checkedDigit (hds : ∀ c ∈ ds, IsDigit c) {r : Nat}
    (hr : ds.foldl (fun r c => r * 10 + (c.toNat - 48)) r < 2147483648) :
    ds.foldl checkedDigit (some (r : Int)) =
      some ((ds.foldl (fun r c => r * 10 + (c.toNat - 48)) r : Nat) : Int) := by
  induction ds generalizing r with
  | nil => rfl
  | cons c ds ih =>
    rw [List.foldl_cons] at hr ⊢
    have hle := le_foldl_value ds (r * 10 + (c.toNat - 48))
    have hc := (isDigit_iff c).mp (hds c (by simp))
    have h48 : ((ch '0').toNat : Int) = 48 := rfl
    have htens : checked ((r : Int) * 10) = some ((r : Int) * 10) := if_pos ⟨by omega, by omega⟩
    have hsum : checked ((r : Int) * 10 + (c.toNat - (ch '0').toNat)) =
        some ((r * 10 + (c.toNat - 48) : Nat) : Int) := by
      have hval : (r : Int) * 10 + (c.toNat - 48) = ((r * 10 + (c.toNat - 48) : Nat) : Int) := by
        omega
      rw [h48, hval]
      exact if_pos ⟨by omega, by omega⟩
    have hstep : checkedDigit (some (r : Int)) c =
        some ((r * 10 + (c.toNat - 48) : Nat) : Int) := by
      simp only [checkedDigit, htens, Option.bind_some, hsum]
    rw [hstep]
    exact ih (fun d hd => hds d (by simp [hd])) hr

variable {str : Text}

/-- A text with a NUL somewhere is signs, digits and a byte that ends them. -/
theorem exists_runs (h0 : (0 : UInt8) ∈ str) :
    ∃ ss ds c rest, str = ss ++ (ds ++ c :: rest) ∧ (∀ c ∈ ss, IsSign c) ∧
      (∀ c ∈ ds, IsDigit c) ∧ ¬ IsDigit c ∧ (ds = [] → ¬ IsSign c) := by
  cases hscan : scan str with
  | none =>
    obtain ⟨ss, ds, rfl, hss, hds⟩ := scan_eq_none.mp hscan
    obtain hmem | hmem := List.mem_append.mp h0
    · exact absurd (hss 0 hmem) (by decide)
    · exact absurd (hds 0 hmem) (by decide)
  | some r =>
    obtain ⟨v, stop⟩ := r
    obtain ⟨ss, ds, c, cs, heq, hss, hds, rfl, hc, hsc, -⟩ := scan_eq_some hscan
    exact ⟨ss, ds, c, cs, heq, hss, hds, hc, hsc⟩

theorem str2int_denoted (h0 : (0 : UInt8) ∈ str) :
    str2int str = some (BitVec.ofInt 32 (denoted str)) := by
  obtain ⟨ss, ds, c, rest, rfl, hss, hds, hc, hsc⟩ := exists_runs h0
  obtain ⟨hsign, hdigit⟩ := runs_eq rest hss hds hc hsc
  have hvalue : digits ds * signs ss =
      ((denoted (ss ++ (ds ++ c :: rest)) : Int) : BitVec 32) := by
    rw [denoted, hsign, hdigit, digits_eq hds, signs_eq, ← Int.cast_mul, mul_comm]
  rw [str2int, scan_eq ss ds rest c hss hds hc hsc, Option.map_some, hvalue]
  rfl

theorem checkedStr2int_isSome (h0 : (0 : UInt8) ∈ str) (hfit : value (digitRun str) < 2147483648) :
    (checkedStr2int str).isSome := by
  obtain ⟨ss, ds, c, rest, rfl, hss, hds, hc, hsc⟩ := exists_runs h0
  obtain ⟨-, hdigit⟩ := runs_eq rest hss hds hc hsc
  rw [hdigit] at hfit
  obtain ⟨q, hq, hone⟩ := foldl_checkedSign ss (p := 1) (Or.inl rfl)
  have hvalue : ds.foldl checkedDigit (some 0) = some (value ds : Int) :=
    foldl_checkedDigit (r := 0) hds hfit
  have hsigns : scanWhile IsSign checkedSign (ss ++ (ds ++ c :: rest)) (some 1) =
      some (some q, ds ++ c :: rest) := by
    rw [scanWhile_append ss _ hss, hq]
    cases ds with
    | nil => exact scanWhile_stop (hsc rfl) rest _
    | cons d ds => exact scanWhile_stop (not_isSign_of_isDigit (hds d (by simp))) _ _
  have hdigits : scanWhile IsDigit checkedDigit (ds ++ c :: rest) (some 0) =
      some (some (value ds : Int), c :: rest) := by
    rw [scanWhile_append ds _ hds, hvalue]
    exact scanWhile_stop hc rest _
  have hin : InInt ((value ds : Int) * q) := by
    obtain rfl | rfl := hone
    · exact ⟨by omega, by omega⟩
    · exact ⟨by omega, by omega⟩
  simp only [checkedStr2int, Option.bind_eq_bind, hsigns, hdigits, Option.bind_some, checked,
    if_pos hin, Option.isSome_some]

/-- A number that is not negative is the value of its digits. -/
theorem value_of_denoted (h : 0 ≤ denoted str) : (value (digitRun str) : Int) = denoted str := by
  unfold denoted at h ⊢
  obtain hsign | hsign := neg_one_pow_eq_or Int ((signRun str).count (ch '-'))
  · rw [hsign, one_mul]
  · rw [hsign] at h ⊢
    omega

end Runs

theorem readsDenoted_iff {accepts : Int → Prop} {str : Text} (h0 : (0 : UInt8) ∈ str)
    (hpos : ∀ v, accepts v → 0 ≤ v) :
    ReadsDenoted accepts str ↔ InInt (denoted str) ∨ ¬ accepts ((denoted str).bmod (2 ^ 32)) := by
  have hstr := str2int_denoted h0
  have hint : (BitVec.ofInt 32 (denoted str)).toInt = (denoted str).bmod (2 ^ 32) :=
    BitVec.toInt_ofInt _
  have hsame : InInt (denoted str) → (denoted str).bmod (2 ^ 32) = denoted str := fun hin =>
    hint.symm.trans (BitVec.toInt_ofInt_eq_self (by decide) (by have := hin.1; omega)
      (by have := hin.2; omega))
  constructor
  · rintro ⟨r, hr, hread, -⟩
    cases hstr.symm.trans hr
    rw [hint] at hread
    exact hread.imp And.left id
  · intro h
    refine ⟨_, hstr, ?_, ?_⟩
    · rw [hint]
      exact h.imp (fun hin => ⟨hin, hsame hin⟩) id
    · intro hacc
      rw [hint] at hacc
      have hin : InInt (denoted str) := h.resolve_right (not_not.mpr hacc)
      rw [hsame hin] at hacc
      have hvalue := value_of_denoted (hpos _ hacc)
      have hlt := hin.2
      exact checkedStr2int_isSome h0 (by omega)

/-- Which texts str2int and the tests behind it read as the number they stand
for or refuse: a number outside the range of int has to leave the sign bit of
its lowest 32 bits set, or in the callbacks be a multiple of 2 ^ 32. -/
theorem str2int_readsDenoted (str : Text) (h0 : (0 : UInt8) ∈ str) :
    (ReadsDenoted tcpechoThreadAccepts str ↔
      InInt (denoted str) ∨ 2 ^ 31 ≤ denoted str % 2 ^ 32) ∧
    (ReadsDenoted callbackAccepts str ↔
      InInt (denoted str) ∨ 2 ^ 31 ≤ denoted str % 2 ^ 32 ∨ denoted str % 2 ^ 32 = 0) := by
  have hbmod := Int.bmod_def (denoted str) (2 ^ 32)
  constructor
  · refine (readsDenoted_iff h0 fun v hv => hv).trans (or_congr_right ?_)
    rw [hbmod]
    split <;> omega
  · refine (readsDenoted_iff h0 fun v hv => (lt_of_not_ge hv).le).trans (or_congr_right ?_)
    rw [hbmod]
    split <;> omega

theorem str2int_readsDenoted_42 :
    ReadsDenoted tcpechoThreadAccepts (lit "--42 " ++ [0]) ∧
      ReadsDenoted callbackAccepts (lit "--42 " ++ [0]) :=
  ⟨(str2int_readsDenoted (lit "--42 " ++ [0]) (by decide)).1.mpr (Or.inl (by decide)),
    (str2int_readsDenoted (lit "--42 " ++ [0]) (by decide)).2.mpr (Or.inl (by decide))⟩

/-- A text for 2 ^ 32 + 1 is accepted everywhere, as the serial 1. -/
theorem str2int_wraps :
    ¬ ∀ str : Text, (0 : UInt8) ∈ str →
      ReadsDenoted tcpechoThreadAccepts str ∧ ReadsDenoted callbackAccepts str := by
  intro h
  obtain ⟨⟨r, hr, hread, -⟩, -⟩ := h (lit "4294967297" ++ [0]) (by decide)
  have hone : str2int (lit "4294967297" ++ [0]) = some 1 := by decide
  cases hone.symm.trans hr
  obtain ⟨hin, -⟩ | hrefused := hread
  · exact absurd hin (by decide)
  · exact hrefused (by decide)

section Agreement

/-- Whether a text sets flag_recv_success in tcpecho_thread. -/
def tcpechoThreadTriggers (str : Text) : Option Bool :=
  (str2int str).map fun recvSerial => decide (tcpechoThreadAccepts recvSerial.toInt)

/-- Whether a text is taken as a serial behind the test of a callback. -/
def checkedAccepts (str : Text) : Option Bool :=
  (str2int str).map fun recvSerial => decide (callbackAccepts recvSerial.toInt)

def tcpServerRecvAccepts : Text → Option Bool := checkedAccepts

def tcpEchoclientRecvAccepts : Text → Option Bool := checkedAccepts

/-- The three decisions are one, and nothing without a digit is a serial. -/
def ProgramsAgree (str : Text) : Prop :=
  ∃ serial, tcpechoThreadTriggers str = some serial ∧ tcpServerRecvAccepts str = some serial ∧
    tcpEchoclientRecvAccepts str = some serial ∧ (digitRun str = [] → serial = false)

/-- Wherever a receive path gets to its end, it has decided like this. -/
theorem accepted_eq {str : Text} {o : Outcome} {n : Nat} :
    (tcpechoThread str = some (o, n) → tcpechoThreadTriggers str = some o.accepted) ∧
    (tcpServerRecv str = some (o, n) → tcpServerRecvAccepts str = some o.accepted) ∧
    (tcpEchoclientRecv str = some (o, n) → tcpEchoclientRecvAccepts str = some o.accepted) := by
  have hdecide : ∀ {p : Prop} [Decidable p], (o.accepted = true ↔ p) → decide p = o.accepted := by
    intro p _ h
    rw [Bool.eq_iff_iff, decide_eq_true_iff, h]
  have hcallback : checkedRecv 100 str = some (o, n) → checkedAccepts str = some o.accepted := by
    intro h
    obtain ⟨hr, hacc⟩ := checkedRecv_accepted h
    rw [checkedAccepts, hr, Option.map_some, hdecide hacc]
  refine ⟨fun h => ?_, hcallback, hcallback⟩
  obtain ⟨hr, hacc⟩ := tcpechoThread_accepted h
  rw [tcpechoThreadTriggers, hr, Option.map_some, hdecide hacc]

theorem denoted_of_no_digit {str : Text} (h : digitRun str = []) : denoted str = 0 := by
  simp [denoted, h, value]

/-- The programs agree on a text exactly when the number it stands for is no
multiple of 2 ^ 32; 0 itself, and with it every text without a digit, is a
serial to tcpecho_thread only. -/
theorem programsAgree_iff (str : Text) (h0 : (0 : UInt8) ∈ str) :
    ProgramsAgree str ↔ denoted str % 2 ^ 32 ≠ 0 := by
  have hstr := str2int_denoted h0
  have hbmod := Int.bmod_def (denoted str) (2 ^ 32)
  have hint : (BitVec.ofInt 32 (denoted str)).toInt = (denoted str).bmod (2 ^ 32) :=
    BitVec.toInt_ofInt _
  have hzero : (denoted str).bmod (2 ^ 32) = 0 ↔ denoted str % 2 ^ 32 = 0 := by
    rw [hbmod]
    split <;> omega
  rw [ne_eq, ← hzero]
  simp only [ProgramsAgree, tcpechoThreadTriggers, tcpServerRecvAccepts, tcpEchoclientRecvAccepts,
    checkedAccepts, hstr, Option.map_some, hint, Option.some.injEq, tcpechoThreadAccepts,
    callbackAccepts]
  constructor
  · rintro ⟨serial, hthread, hserver, -, -⟩ heq
    rw [heq] at hthread hserver
    exact absurd (hthread.trans hserver.symm) (by decide)
  · intro hne
    have hsame : decide (¬ (denoted str).bmod (2 ^ 32) ≤ 0) =
        decide (0 ≤ (denoted str).bmod (2 ^ 32)) := by
      rw [decide_eq_decide]
      omega
    refine ⟨_, rfl, hsame, hsame, fun hdigit => ?_⟩
    rw [denoted_of_no_digit hdigit] at hne
    exact absurd rfl hne

theorem programsAgree_iff_17 : ProgramsAgree (lit "17\r\n" ++ [0]) :=
  (programsAgree_iff (lit "17\r\n" ++ [0]) (by decide)).mpr (by decide)

/-- A text without any digit sets the flag in tcpecho_thread and is refused by
the callbacks. -/
theorem programsAgree_fails :
    (tcpechoThreadTriggers (lit "hello" ++ [0]) = some true ∧
      tcpServerRecvAccepts (lit "hello" ++ [0]) = some false ∧
      tcpEchoclientRecvAccepts (lit "hello" ++ [0]) = some false) ∧
    ¬ ∀ str : Text, (0 : UInt8) ∈ str → ProgramsAgree str := by
  have hthread : tcpechoThreadTriggers (lit "hello" ++ [0]) = some true := by decide
  have hserver : tcpServerRecvAccepts (lit "hello" ++ [0]) = some false := by decide
  refine ⟨⟨hthread, hserver, by decide⟩, fun h => ?_⟩
  obtain ⟨serial, ht, hs, -⟩ := h (lit "hello" ++ [0]) (by decide)
  cases (hthread.symm.trans ht)
  cases (hserver.symm.trans hs)

end Agreement

end PopcornFirmware.Packet.SerialRange
