import PopcornFirmware.Lib.Ring
import Mathlib.Logic.Function.Basic

namespace PopcornFirmware.Usart.RxBuffer

open PopcornFirmware.Lib.Ring

/-- USART2_RX_BUFFER_SIZE and USART3_RX_BUFFER_SIZE. -/
abbrev rxBufferSize : Nat := 256

/-- Conversion to uint16_t. -/
def toU16 (z : Int) : Nat := (z % 2 ^ 16).toNat

/-- A receiver: the array its circular DMA stream fills, the down-counter NDTR
of the stream and the index of the next character to read. -/
structure Rx where
  rxBuffer : Vector UInt16 rxBufferSize
  ndtr : Nat
  rxGetIndex : Nat
  deriving DecidableEq

def Rx.ndtr16 (rx : Rx) : Nat := toU16 rx.ndtr

/-- USART2 is fed by DMA1_Stream5, USART3 by DMA1_Stream1. -/
structure Uart where
  usart2 : Rx
  usart3 : Rx
  deriving DecidableEq

/-- The stream stores a received character in the slot NDTR stands for and
counts down, from 1 to the reload value. -/
def dmaReceive (c : UInt8) (rx : Rx) : Option Rx :=
  (store rx.rxBuffer (rxBufferSize - rx.ndtr) c.toUInt16).map fun buf =>
    { rx with
      rxBuffer := buf
      ndtr := if rx.ndtr = 1 then rxBufferSize else rx.ndtr - 1 }

/-- What the configuration does to a receiver. -/
def configuration (rx : Rx) : Rx :=
  { rx with rxBuffer := Vector.replicate rxBufferSize 0, ndtr := rxBufferSize }

def getRxBufferCount (rx : Rx) : Nat :=
  toU16 (Int.tmod ((rx.ndtr16 : Int) + rxBufferSize - rx.rxGetIndex) rxBufferSize)

def sniffRxBuffer (index : Nat) (rx : Rx) : Option UInt16 :=
  if rx.rxGetIndex ≠ rx.ndtr16 then rx.rxBuffer[(rx.rxGetIndex + index) % rxBufferSize]?
  else some 0

def clearRxBuffer (rx : Rx) : Rx := { rx with rxGetIndex := rx.ndtr16 }

def putIndex (rx : Rx) : Nat := toU16 ((rxBufferSize : Int) - rx.ndtr16)

/-- GetChar behind the load of putIndex: the character of a return value of 1,
none for a return value of 0. -/
def getCharUpTo (putIndex : Nat) (rx : Rx) : Option (Option UInt8 × Rx) :=
  if rx.rxGetIndex ≠ putIndex then
    (rx.rxBuffer[rx.rxGetIndex]?).map fun c =>
      (some c.toUInt8, { rx with rxGetIndex := (rx.rxGetIndex + 1) % rxBufferSize })
  else some (none, rx)

def getChar (rx : Rx) : Option (Option UInt8 × Rx) := getCharUpTo (putIndex rx) rx

/-- The loop of ReadExisting and the statements behind it. The memory str points
to is a function of the offset; the fuel bounds the rounds. -/
def readLoop (putIndex : Nat) :
    Nat → Nat → (Nat → UInt8) → Rx → Option ((Nat × (Nat → UInt8)) × Rx)
  | 0, _, _, _ => none
  | fuel + 1, cnt, str, rx =>
    if rx.rxGetIndex ≠ putIndex then
      (rx.rxBuffer[rx.rxGetIndex]?).bind fun c =>
        readLoop putIndex fuel (toU16 (cnt + 1)) (Function.update str cnt c.toUInt8)
          { rx with rxGetIndex := (rx.rxGetIndex + 1) % rxBufferSize }
    else some ((cnt, Function.update str cnt 0), rx)

def readExisting (fuel : Nat) (str : Nat → UInt8) (rx : Rx) :
    Option ((Nat × (Nat → UInt8)) × Rx) := readLoop rx.ndtr16 fuel 0 str rx

/-- The receiver a function of the library works on. -/
structure Port where
  get : Uart → Rx
  set : Rx → Uart → Uart
  get_set : ∀ rx u, get (set rx u) = rx
  set_set : ∀ rx rx' u, set rx (set rx' u) = set rx u

def usart2 : Port where
  get := Uart.usart2
  set rx u := { u with usart2 := rx }
  get_set _ _ := rfl
  set_set _ _ _ := rfl

def usart3 : Port where
  get := Uart.usart3
  set rx u := { u with usart3 := rx }
  get_set _ _ := rfl
  set_set _ _ _ := rfl

def Port.run {β : Type} (port : Port) (f : Rx → Option (β × Rx)) (u : Uart) : Option (β × Uart) :=
  (f (port.get u)).map fun (r, rx) => (r, port.set rx u)

def usart2Configuration (u : Uart) : Uart := usart2.set (configuration (usart2.get u)) u
def usart2DmaReceive (c : UInt8) (u : Uart) : Option Uart :=
  (dmaReceive c (usart2.get u)).map fun rx => usart2.set rx u
def usart2GetRxBufferCount (u : Uart) : Nat := getRxBufferCount (usart2.get u)
def usart2SniffRxBuffer (index : Nat) (u : Uart) : Option UInt16 :=
  sniffRxBuffer index (usart2.get u)
def usart2ClearRxBuffer (u : Uart) : Uart := usart2.set (clearRxBuffer (usart2.get u)) u
def usart2GetChar : Uart → Option (Option UInt8 × Uart) := usart2.run getChar
def usart2ReadExisting (fuel : Nat) (str : Nat → UInt8) :
    Uart → Option ((Nat × (Nat → UInt8)) × Uart) := usart2.run (readExisting fuel str)
def usart3GetChar : Uart → Option (Option UInt8 × Uart) := usart3.run getChar
def usart3ReadExisting (fuel : Nat) (str : Nat → UInt8) :
    Uart → Option ((Nat × (Nat → UInt8)) × Uart) := usart3.run (readExisting fuel str)

section Reads

variable {σ : Type}

/-- Calls of GetChar that return 1 with these characters, then one that returns
0. -/
inductive Reads (getChar : σ → Option (Option UInt8 × σ)) : σ → List UInt8 → σ → Prop
  | stop {s t : σ} : getChar s = some (none, t) → Reads getChar s [] t
  | next {s t u : σ} {c : UInt8} {cs : List UInt8} : getChar s = some (some c, t) →
      Reads getChar t cs u → Reads getChar s (c :: cs) u

variable {getChar : σ → Option (Option UInt8 × σ)}

theorem Reads.unique {s t u : σ} {cs ds : List UInt8} (h : Reads getChar s cs t)
    (h' : Reads getChar s ds u) : cs = ds ∧ t = u := by
  induction h generalizing ds with
  | stop hs =>
    cases h' with
    | stop hs' =>
      rw [hs] at hs'
      cases hs'
      exact ⟨rfl, rfl⟩
    | next hs' _ =>
      rw [hs] at hs'
      cases hs'
  | next hs _ ih =>
    cases h' with
    | stop hs' =>
      rw [hs] at hs'
      cases hs'
    | next hs' hrest =>
      rw [hs] at hs'
      cases hs'
      obtain ⟨rfl, rfl⟩ := ih hrest
      exact ⟨rfl, rfl⟩

/-- Memory with these characters from an offset on and a 0 behind them, and
otherwise as before. -/
structure Stored (str str' : Nat → UInt8) (cnt : Nat) (cs : List UInt8) : Prop where
  chars : ∀ i, i < cs.length → cs[i]? = some (str' (cnt + i))
  nul : str' (cnt + cs.length) = 0
  other : ∀ i, i < cnt ∨ cnt + cs.length < i → str' i = str i

/-- ReadExisting returns, with the number of the characters that GetChar would
deliver, has stored them, and leaves the index where those calls would. -/
def BulkAgrees (getChar : σ → Option (Option UInt8 × σ))
    (readExisting : Nat → (Nat → UInt8) → σ → Option ((Nat × (Nat → UInt8)) × σ))
    (rxGetIndex : σ → Nat) (s : σ) : Prop :=
  ∀ str, ∃ fuel n str' t, readExisting fuel str s = some ((n, str'), t) ∧
    ∃ cs u, Reads getChar s cs u ∧ n = cs.length ∧ Stored str str' 0 cs ∧
      rxGetIndex t = rxGetIndex u

end Reads

section Port

variable {port : Port} {gc : Rx → Option (Option UInt8 × Rx)} {u u' : Uart} {cs : List UInt8}

theorem Port.run_eq_some {β : Type} {f : Rx → Option (β × Rx)} {r : β} :
    port.run f u = some (r, u') ↔ ∃ rx, f (port.get u) = some (r, rx) ∧ u' = port.set rx u := by
  unfold Port.run
  cases f (port.get u) with
  | none => simp
  | some p => simp [Prod.ext_iff, eq_comm]

theorem reads_run_iff : Reads (port.run gc) u cs u' ↔
    ∃ rx, Reads gc (port.get u) cs rx ∧ u' = port.set rx u := by
  constructor
  · intro h
    induction h with
    | stop hs =>
      obtain ⟨rx, hrx, rfl⟩ := Port.run_eq_some.mp hs
      exact ⟨rx, .stop hrx, rfl⟩
    | next hs _ ih =>
      obtain ⟨rx, hrx, rfl⟩ := Port.run_eq_some.mp hs
      obtain ⟨rx', hrx', rfl⟩ := ih
      rw [port.get_set] at hrx'
      exact ⟨rx', .next hrx hrx', port.set_set rx' rx _⟩
  · rintro ⟨rx, h, rfl⟩
    generalize hget : port.get u = s at h
    induction h generalizing u with
    | stop hs => exact .stop (Port.run_eq_some.mpr ⟨_, hget ▸ hs, rfl⟩)
    | @next s t rx c cs hs _ ih =>
      have hrest := ih (u := port.set t u) (port.get_set t u)
      rw [port.set_set] at hrest
      exact .next (Port.run_eq_some.mpr ⟨_, hget ▸ hs, rfl⟩) hrest

theorem bulkAgrees_run_iff (port : Port)
    {re : Nat → (Nat → UInt8) → Rx → Option ((Nat × (Nat → UInt8)) × Rx)} :
    BulkAgrees (port.run gc) (fun fuel str => port.run (re fuel str))
        (fun u => (port.get u).rxGetIndex) u ↔
      BulkAgrees gc re Rx.rxGetIndex (port.get u) := by
  refine forall_congr' fun str => ?_
  constructor
  · rintro ⟨fuel, n, str', t, ht, cs, v, hv, hn, hstr, hidx⟩
    obtain ⟨rx, hrx, rfl⟩ := Port.run_eq_some.mp ht
    obtain ⟨rx', hrx', rfl⟩ := reads_run_iff.mp hv
    simp only [port.get_set] at hidx
    exact ⟨fuel, n, str', rx, hrx, cs, rx', hrx', hn, hstr, hidx⟩
  · rintro ⟨fuel, n, str', rx, hrx, cs, rx', hrx', hn, hstr, hidx⟩
    refine ⟨fuel, n, str', port.set rx u, Port.run_eq_some.mpr ⟨rx, hrx, rfl⟩, cs,
      port.set rx' u, reads_run_iff.mpr ⟨rx', hrx', rfl⟩, hn, hstr, ?_⟩
    simp only [port.get_set, hidx]

end Port

section Range

/-- What the hardware keeps to for the counter, and the library for its index. -/
structure InRange (rx : Rx) : Prop where
  ndtr_pos : 1 ≤ rx.ndtr
  ndtr_le : rx.ndtr ≤ rxBufferSize
  index_lt : rx.rxGetIndex < rxBufferSize

variable {rx : Rx} {q : List UInt16}

theorem toU16_of_lt {n : Nat} (h : n < 2 ^ 16) : toU16 n = n := by
  unfold toU16
  omega

theorem ndtr16_eq (h : rx.ndtr ≤ rxBufferSize) : rx.ndtr16 = rx.ndtr :=
  toU16_of_lt (by unfold rxBufferSize at h; omega)

/-- The slot the DMA stores to next. -/
theorem putIndex_eq (h : rx.ndtr ≤ rxBufferSize) : putIndex rx = rxBufferSize - rx.ndtr := by
  unfold putIndex
  rw [ndtr16_eq h, ← Int.ofNat_sub h]
  exact toU16_of_lt (by unfold rxBufferSize; omega)

theorem putIndex_lt (h : InRange rx) : putIndex rx < rxBufferSize := by
  have hpos := h.ndtr_pos
  rw [putIndex_eq h.ndtr_le]
  unfold rxBufferSize
  omega

theorem getCharUpTo_nil {put : Nat} (h : Holds rx.rxBuffer rx.rxGetIndex put []) :
    getCharUpTo put rx = some (none, rx) := by
  have heq : rx.rxGetIndex = put := h.nil_iff.mp rfl
  simp [getCharUpTo, heq]

theorem getCharUpTo_cons {put : Nat} {c : UInt16}
    (h : Holds rx.rxBuffer rx.rxGetIndex put (c :: q)) :
    getCharUpTo put rx = some (some c.toUInt8,
      { rx with rxGetIndex := (rx.rxGetIndex + 1) % rxBufferSize }) := by
  rw [getCharUpTo, if_pos h.ne, h.head, Option.map_some]

/-- Between two receptions, GetChar delivers what stands between the index and
the slot of the next character. -/
theorem reads_getChar (h : Holds rx.rxBuffer rx.rxGetIndex (putIndex rx) q) :
    Reads getChar rx (q.map UInt16.toUInt8) { rx with rxGetIndex := putIndex rx } := by
  induction q generalizing rx with
  | nil =>
    have heq : rx.rxGetIndex = putIndex rx := h.nil_iff.mp rfl
    rw [List.map_nil, ← heq]
    exact .stop (getCharUpTo_nil h)
  | cons c q ih =>
    have hrest := @ih { rx with rxGetIndex := (rx.rxGetIndex + 1) % rxBufferSize } h.pop
    exact .next (getCharUpTo_cons h) hrest

theorem Stored.cons {str str' : Nat → UInt8} {cnt : Nat} {c : UInt8} {cs : List UInt8}
    (h : Stored (Function.update str cnt c) str' (cnt + 1) cs) : Stored str str' cnt (c :: cs) where
  chars := by
    intro i hi
    cases i with
    | zero =>
      have hc := h.other cnt (Or.inl (Nat.lt_succ_self cnt))
      simp [hc]
    | succ i =>
      have hcs := h.chars i (by simpa using hi)
      rw [List.getElem?_cons_succ, hcs, Nat.add_assoc, Nat.add_comm 1 i]
  nul := by
    rw [List.length_cons, Nat.add_comm cs.length, ← Nat.add_assoc]
    exact h.nul
  other := by
    intro i hi
    rw [List.length_cons] at hi
    rw [h.other i (by omega), Function.update_of_ne (by omega)]

/-- A round of the loop of ReadExisting is a GetChar with a limit of its own. -/
theorem readLoop_succ (put fuel cnt : Nat) (str : Nat → UInt8) (rx : Rx) :
    readLoop put (fuel + 1) cnt str rx = (getCharUpTo put rx).bind fun
      | (some c, t) => readLoop put fuel (toU16 (cnt + 1)) (Function.update str cnt c) t
      | (none, t) => some ((cnt, Function.update str cnt 0), t) := by
  rw [readLoop, getCharUpTo]
  by_cases h : rx.rxGetIndex ≠ put
  · rw [if_pos h, if_pos h]
    cases rx.rxBuffer[rx.rxGetIndex]? <;> rfl
  · rw [if_neg h, if_neg h]
    rfl

/-- The loop delivers what stands between the index and any other slot. -/
theorem readLoop_holds (rx : Rx) {put : Nat} (cnt : Nat) (str : Nat → UInt8)
    (h : Holds rx.rxBuffer rx.rxGetIndex put q) (hcnt : cnt + q.length < 2 ^ 16) :
    ∃ str', readLoop put (q.length + 1) cnt str rx =
        some ((cnt + q.length, str'), { rx with rxGetIndex := put }) ∧
      Stored str str' cnt (q.map UInt16.toUInt8) := by
  induction q generalizing rx cnt str with
  | nil =>
    have heq : rx.rxGetIndex = put := h.nil_iff.mp rfl
    refine ⟨Function.update str cnt 0, ?_, ?_, by simp, ?_⟩
    · rw [List.length_nil, readLoop_succ, getCharUpTo_nil h, ← heq]
      rfl
    · simp
    · intro i hi
      simp only [List.map_nil, List.length_nil, Nat.add_zero] at hi
      exact Function.update_of_ne (by omega) 0 str
  | cons c q ih =>
    rw [List.length_cons] at hcnt
    have hcnt1 : toU16 ((cnt : Int) + 1) = cnt + 1 := toU16_of_lt (n := cnt + 1) (by omega)
    obtain ⟨str', hrun, hstr⟩ := ih { rx with
      rxGetIndex := (rx.rxGetIndex + 1) % rxBufferSize } (cnt + 1)
      (Function.update str cnt c.toUInt8) h.pop (by omega)
    refine ⟨str', ?_, hstr.cons⟩
    rw [List.length_cons, readLoop_succ, getCharUpTo_cons h, Option.bind_some]
    simp only [hcnt1, hrun]
    simp only [Nat.add_assoc, Nat.add_comm 1]

/-- The loop ends at no other index than its limit. -/
theorem readLoop_index {put fuel cnt n : Nat} {str str' : Nat → UInt8} {t : Rx}
    (h : readLoop put fuel cnt str rx = some ((n, str'), t)) : t.rxGetIndex = put := by
  induction fuel generalizing rx cnt str with
  | zero => cases h
  | succ fuel ih =>
    rw [readLoop] at h
    split at h
    · obtain ⟨c, -, hrest⟩ := Option.bind_eq_some_iff.mp h
      exact ih hrest
    · rename_i heq
      cases h
      exact not_not.mp heq

/-- A limit that no index takes is never met. -/
theorem readLoop_of_le (rx : Rx) {put : Nat} (hput : rxBufferSize ≤ put)
    (hidx : rx.rxGetIndex < rxBufferSize) (fuel cnt : Nat) (str : Nat → UInt8) :
    readLoop put fuel cnt str rx = none := by
  induction fuel generalizing rx cnt str with
  | zero => rfl
  | succ fuel ih =>
    have hne : rx.rxGetIndex ≠ put := by omega
    rw [readLoop, if_pos hne, Vector.getElem?_eq_getElem hidx, Option.bind_some]
    exact ih _ (Nat.mod_lt _ (by decide)) _ _

variable {port : Port} {u : Uart}

/-- ReadExisting reads up to the slot whose number is the counter, GetChar up to
the slot the counter stands for; they are one slot in the middle of the array. -/
theorem bulkAgrees_iff (h : InRange rx) :
    BulkAgrees getChar readExisting Rx.rxGetIndex rx ↔ rx.ndtr = 128 := by
  obtain ⟨q, hq⟩ := exists_holds rx.rxBuffer h.index_lt (putIndex_lt h)
  have hput := putIndex_eq h.ndtr_le
  have hpos := h.ndtr_pos
  have hle := h.ndtr_le
  have h16 : rx.ndtr16 = rx.ndtr := ndtr16_eq hle
  constructor
  · intro hagree
    obtain ⟨fuel, n, str', t, ht, cs, u, hu, -, -, hidx⟩ := hagree (fun _ => 0)
    obtain ⟨-, rfl⟩ := hu.unique (reads_getChar hq)
    rw [readExisting, h16] at ht
    have hend : t.rxGetIndex = rx.ndtr := readLoop_index ht
    dsimp only at hidx
    unfold rxBufferSize at hput hle
    omega
  · intro hmid str
    unfold rxBufferSize at hput
    have hsame : putIndex rx = rx.ndtr := by omega
    have hq' : Holds rx.rxBuffer rx.rxGetIndex rx.ndtr q := hsame ▸ hq
    have hlen := hq.length_lt
    unfold rxBufferSize at hlen
    obtain ⟨str', hrun, hstr⟩ := readLoop_holds rx 0 str hq' (by omega)
    rw [Nat.zero_add] at hrun
    refine ⟨q.length + 1, q.length, str', { rx with rxGetIndex := rx.ndtr }, ?_, _, _,
      reads_getChar hq, by simp, hstr, hsame.symm⟩
    rw [readExisting, h16]
    exact hrun

/-- USART2_ReadExisting and USART3_ReadExisting return what calls of GetChar
would deliver exactly when half of the array is still to be filled. -/
theorem usartReadExisting_agrees (u : Uart) :
    (InRange u.usart2 → (BulkAgrees usart2GetChar usart2ReadExisting
      (fun u => u.usart2.rxGetIndex) u ↔ u.usart2.ndtr = 128)) ∧
    (InRange u.usart3 → (BulkAgrees usart3GetChar usart3ReadExisting
      (fun u => u.usart3.rxGetIndex) u ↔ u.usart3.ndtr = 128)) :=
  ⟨fun h => (bulkAgrees_run_iff usart2).trans (bulkAgrees_iff h),
    fun h => (bulkAgrees_run_iff usart3).trans (bulkAgrees_iff h)⟩

def halfway : Rx := ⟨Vector.replicate rxBufferSize 97, 128, 120⟩

/-- Eight unread characters and a counter of 128. -/
theorem usartReadExisting_agrees_halfway :
    BulkAgrees usart2GetChar usart2ReadExisting (fun u => u.usart2.rxGetIndex)
        ⟨halfway, halfway⟩ ∧
      BulkAgrees usart3GetChar usart3ReadExisting (fun u => u.usart3.rxGetIndex)
        ⟨halfway, halfway⟩ :=
  ⟨((usartReadExisting_agrees ⟨halfway, halfway⟩).1 ⟨by decide, by decide, by decide⟩).mpr rfl,
    ((usartReadExisting_agrees ⟨halfway, halfway⟩).2 ⟨by decide, by decide, by decide⟩).mpr rfl⟩

def fresh : Rx := configuration ⟨Vector.replicate rxBufferSize 0, 0, 0⟩

/-- With nothing received since the configuration, GetChar returns 0 and
ReadExisting does not return. -/
theorem usartReadExisting_never : ¬ ∀ u : Uart, InRange u.usart2 → InRange u.usart3 →
    BulkAgrees usart2GetChar usart2ReadExisting (fun u => u.usart2.rxGetIndex) u ∧
      BulkAgrees usart3GetChar usart3ReadExisting (fun u => u.usart3.rxGetIndex) u := by
  intro h
  have hrange : InRange fresh := ⟨by decide, by decide, by decide⟩
  obtain ⟨fuel, n, str', t, ht, -⟩ := (h ⟨fresh, fresh⟩ hrange hrange).1 fun _ => 0
  obtain ⟨rx, hrx, -⟩ := Port.run_eq_some.mp ht
  rw [readExisting, ndtr16_eq (le_refl _)] at hrx
  have hnone := readLoop_of_le fresh (le_refl rxBufferSize) (by decide) fuel 0 fun _ => 0
  exact Option.some_ne_none _ (hrx.symm.trans hnone)

end Range

end PopcornFirmware.Usart.RxBuffer
