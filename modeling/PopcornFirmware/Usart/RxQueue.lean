import PopcornFirmware.Usart.RxBuffer
import PopcornFirmware.Lib.Runs

namespace PopcornFirmware.Usart.RxQueue

open PopcornFirmware.Lib.Ring PopcornFirmware.Lib.Runs PopcornFirmware.Usart.RxBuffer

/-- Where the thread stands that uses USART2. -/
inductive Pc where
  | idle
  -- in GetChar behind the load of putIndex; whether all that was received had
  -- been delivered then
  | getChar (putIndex : Nat) (allDelivered : Bool)
  -- at the test of the loop of ReadExisting
  | readExisting (putIndex : Nat)
  deriving DecidableEq

/-- The outcome of a call of GetChar: its character, or none for a return value
of 0. -/
structure Result where
  char : Option UInt8
  allDelivered : Bool
  deriving DecidableEq

structure State where
  uart : Uart
  pc : Pc
  received : List UInt8
  results : List Result
  deriving DecidableEq

def State.delivered (s : State) : List UInt8 := s.results.filterMap Result.char

def init (uart : Uart) : State where
  uart := usart2Configuration uart
  pc := .idle
  received := []
  results := []

inductive Label where
  -- the DMA stream stores a character
  | dma (c : UInt8)
  | getRxBufferCount
  | sniffRxBuffer (index : Nat)
  | clearRxBuffer
  -- calls of GetChar and ReadExisting, up to the load of the counter
  | getChar
  | readExisting
  -- the rest of a call of GetChar; one round of ReadExisting
  | go
  deriving DecidableEq

/-- What the thread does next in a call: the rest of GetChar, or a round of
ReadExisting, which is the same but for where it leads. -/
def go (s : State) : Option State :=
  match s.pc with
  | .idle => none
  | .getChar putIndex allDelivered =>
    (usart2.run (getCharUpTo putIndex) s.uart).map fun (c, uart) =>
      { s with uart := uart, pc := .idle, results := s.results ++ [⟨c, allDelivered⟩] }
  | .readExisting putIndex =>
    (usart2.run (getCharUpTo putIndex) s.uart).map fun (c, uart) =>
      { s with uart := uart, pc := if c.isSome then .readExisting putIndex else .idle }

def step (s : State) : Label → Option State
  | .dma c => (usart2DmaReceive c s.uart).map fun uart =>
      { s with uart := uart, received := s.received ++ [c] }
  | .getRxBufferCount => if s.pc = .idle then some s else none
  | .sniffRxBuffer index =>
    if s.pc = .idle then (usart2SniffRxBuffer index s.uart).map fun _ => s else none
  | .clearRxBuffer =>
    if s.pc = .idle then some { s with uart := usart2ClearRxBuffer s.uart } else none
  | .getChar =>
    if s.pc = .idle then
      some { s with pc := .getChar (putIndex s.uart.usart2) (s.delivered = s.received) }
    else none
  | .readExisting =>
    if s.pc = .idle then some { s with pc := .readExisting s.uart.usart2.ndtr16 } else none
  | .go => go s

theorem dmaReceive_eq {rx : Rx} (h : InRange rx) (c : UInt8) :
    ∃ rx', dmaReceive c rx = some rx' ∧ InRange rx' ∧ rx'.rxGetIndex = rx.rxGetIndex ∧
      rx'.rxBuffer = rx.rxBuffer.set (putIndex rx) c.toUInt16 (putIndex_lt h) ∧
      putIndex rx' = (putIndex rx + 1) % rxBufferSize := by
  have hpos := h.ndtr_pos
  have hle := h.ndtr_le
  have hput := putIndex_eq hle
  have hlt : rxBufferSize - rx.ndtr < rxBufferSize := hput ▸ putIndex_lt h
  have hrange : InRange { rx with
      rxBuffer := rx.rxBuffer.set (rxBufferSize - rx.ndtr) c.toUInt16 hlt
      ndtr := if rx.ndtr = 1 then rxBufferSize else rx.ndtr - 1 } := by
    refine ⟨?_, ?_, h.index_lt⟩
    · dsimp only
      split
      · decide
      · omega
    · dsimp only
      split <;> omega
  refine ⟨_, by rw [dmaReceive, store_of_lt hlt, Option.map_some], hrange, rfl, ?_, ?_⟩
  · simp only [hput]
  · rw [putIndex_eq hrange.ndtr_le, hput]
    dsimp only
    unfold rxBufferSize at *
    split
    · rename_i h1
      rw [h1]
    · rw [Nat.mod_eq_of_lt (by omega)]
      omega

section Queries

variable {u v : Uart} {cs : List UInt8} {q : List UInt16}

/-- The count is the number of characters GetChar would deliver. -/
def CountAgrees (u : Uart) : Prop :=
  ∃ cs v, Reads usart2GetChar u cs v ∧ usart2GetRxBufferCount u = cs.length

/-- A look ahead shows what a later call of GetChar would deliver. -/
def SniffAgrees (u : Uart) : Prop :=
  ∃ cs v, Reads usart2GetChar u cs v ∧
    ∀ (i : Nat) (c : UInt8), cs[i]? = some c → usart2SniffRxBuffer i u = some c.toUInt16

/-- Behind ClearRxBuffer the count is 0 and GetChar returns 0. -/
def ClearAgrees (u : Uart) : Prop :=
  usart2GetRxBufferCount (usart2ClearRxBuffer u) = 0 ∧
    usart2GetChar (usart2ClearRxBuffer u) = some (none, usart2ClearRxBuffer u)

structure QueriesAgree (u : Uart) : Prop where
  count : CountAgrees u
  sniff : SniffAgrees u
  clear : ClearAgrees u

/-- The receiver in its range, and only characters in the array. -/
structure Sound (rx : Rx) : Prop where
  range : InRange rx
  chars : ∀ (i : Nat) (c : UInt16), rx.rxBuffer[i]? = some c → c.toNat < 256

theorem reads_usart2 (hq : Holds u.usart2.rxBuffer u.usart2.rxGetIndex (putIndex u.usart2) q) :
    ∃ v, Reads usart2GetChar u (q.map UInt16.toUInt8) v :=
  ⟨_, reads_run_iff.mpr ⟨_, reads_getChar hq, rfl⟩⟩

theorem getRxBufferCount_eq (rx : Rx) (h : rx.ndtr ≤ rxBufferSize)
    (hidx : rx.rxGetIndex ≤ rxBufferSize) :
    getRxBufferCount rx = (rx.ndtr + rxBufferSize - rx.rxGetIndex) % rxBufferSize := by
  unfold getRxBufferCount
  rw [ndtr16_eq h]
  unfold rxBufferSize at *
  rw [Int.tmod_eq_emod_of_nonneg (by omega)]
  unfold toU16
  omega

theorem countAgrees_iff (h : InRange u.usart2) :
    CountAgrees u ↔ u.usart2.ndtr = 128 ∨ u.usart2.ndtr = 256 := by
  obtain ⟨q, hq⟩ := exists_holds u.usart2.rxBuffer h.index_lt (putIndex_lt h)
  obtain ⟨v, hv⟩ := reads_usart2 hq
  have hlen := hq.length_eq
  have hcount : usart2GetRxBufferCount u =
      (u.usart2.ndtr + rxBufferSize - u.usart2.rxGetIndex) % rxBufferSize :=
    getRxBufferCount_eq u.usart2 h.ndtr_le h.index_lt.le
  have hpos := h.ndtr_pos
  have hle := h.ndtr_le
  have hidx := h.index_lt
  rw [putIndex_eq hle] at hlen
  have hiff : usart2GetRxBufferCount u = q.length ↔ u.usart2.ndtr = 128 ∨ u.usart2.ndtr = 256 := by
    rw [hcount, hlen]
    unfold rxBufferSize at *
    omega
  constructor
  · rintro ⟨cs, w, hw, hcs⟩
    obtain ⟨rfl, -⟩ := hw.unique hv
    rw [List.length_map] at hcs
    exact hiff.mp hcs
  · intro hmid
    exact ⟨_, v, hv, by rw [List.length_map]; exact hiff.mpr hmid⟩

theorem sniffAgrees_iff (h : Sound u.usart2) :
    SniffAgrees u ↔ (u.usart2.rxGetIndex = u.usart2.ndtr →
      ∀ cs v, Reads usart2GetChar u cs v → ∀ c ∈ cs, c = 0) := by
  obtain ⟨q, hq⟩ := exists_holds u.usart2.rxBuffer h.range.index_lt (putIndex_lt h.range)
  obtain ⟨v, hv⟩ := reads_usart2 hq
  have h16 : u.usart2.ndtr16 = u.usart2.ndtr := ndtr16_eq h.range.ndtr_le
  have hsniff : ∀ i, usart2SniffRxBuffer i u = sniffRxBuffer i u.usart2 := fun _ => rfl
  constructor
  · rintro ⟨cs, w, hw, hcs⟩ heq ds x hx c hc
    obtain ⟨rfl, -⟩ := hx.unique hw
    obtain ⟨i, hi⟩ := List.mem_iff_getElem?.mp hc
    have hzero := hcs i c hi
    rw [hsniff, sniffRxBuffer, h16, if_neg (not_not.mpr heq)] at hzero
    have hc0 := congrArg UInt16.toUInt8 (Option.some.inj hzero)
    simpa using hc0.symm
  · intro hall
    refine ⟨_, v, hv, fun i c hi => ?_⟩
    rw [hsniff, sniffRxBuffer, h16]
    by_cases heq : u.usart2.rxGetIndex = u.usart2.ndtr
    · rw [if_neg (not_not.mpr heq), hall heq _ v hv c (List.mem_of_getElem? hi)]
      rfl
    · rw [if_pos heq]
      rw [List.getElem?_map, Option.map_eq_some_iff] at hi
      obtain ⟨d, hd, rfl⟩ := hi
      have hlt : i < q.length := (List.getElem?_eq_some_iff.mp hd).1
      have hslot := (hq.slot i hlt).trans hd
      have hd256 := h.chars _ d hslot
      rw [hslot]
      congr 1
      refine UInt16.toNat_inj.mp ?_
      simp only [UInt8.toNat_toUInt16, UInt16.toNat_toUInt8]
      omega

theorem getCharUpTo_none_iff {put : Nat} {rx t : Rx} :
    getCharUpTo put rx = some (none, t) ↔ rx.rxGetIndex = put ∧ t = rx := by
  unfold getCharUpTo
  split
  · rename_i hne
    simp [hne]
  · rename_i heq
    simp [not_not.mp heq, eq_comm]

theorem clearAgrees_iff (h : InRange u.usart2) : ClearAgrees u ↔ u.usart2.ndtr = 128 := by
  have hpos := h.ndtr_pos
  have hle := h.ndtr_le
  have h16 : u.usart2.ndtr16 = u.usart2.ndtr := ndtr16_eq hle
  have hput := putIndex_eq hle
  have hcount : usart2GetRxBufferCount (usart2ClearRxBuffer u) = 0 := by
    have hidx : (clearRxBuffer u.usart2).rxGetIndex = u.usart2.ndtr := h16
    refine (getRxBufferCount_eq (clearRxBuffer u.usart2) hle (hidx ▸ hle)).trans ?_
    rw [hidx]
    simp [clearRxBuffer]
  have hchar : usart2GetChar (usart2ClearRxBuffer u) = some (none, usart2ClearRxBuffer u) ↔
      u.usart2.ndtr = putIndex u.usart2 := by
    refine Port.run_eq_some.trans ⟨?_, fun heq => ?_⟩
    · rintro ⟨t, ht, -⟩
      exact h16.symm.trans (getCharUpTo_none_iff.mp ht).1
    · exact ⟨_, getCharUpTo_none_iff.mpr ⟨h16.trans heq, rfl⟩, rfl⟩
  rw [ClearAgrees, hchar]
  unfold rxBufferSize at *
  omega

/-- The queries work with the counter itself, GetChar with the slot it stands
for. -/
theorem queriesAgree_iff (h : Sound u.usart2) : QueriesAgree u ↔ u.usart2.ndtr = 128 := by
  have hput := putIndex_eq h.range.ndtr_le
  constructor
  · exact fun hagree => (clearAgrees_iff h.range).mp hagree.clear
  · intro hmid
    refine ⟨(countAgrees_iff h.range).mpr (Or.inl hmid), (sniffAgrees_iff h).mpr ?_,
      (clearAgrees_iff h.range).mpr hmid⟩
    intro heq cs v hv c hc
    obtain ⟨q, hq⟩ := exists_holds u.usart2.rxBuffer h.range.index_lt (putIndex_lt h.range)
    have hempty : q = [] := hq.nil_iff.mpr (by unfold rxBufferSize at hput; omega)
    obtain ⟨w, hw⟩ := reads_usart2 hq
    obtain ⟨rfl, -⟩ := hv.unique hw
    simp [hempty] at hc

end Queries

section Runs

variable {s t : State} {l : Label} {ls : List Label} {uart : Uart}

theorem getCharUpTo_frame {put : Nat} {rx t : Rx} {r : Option UInt8}
    (h : getCharUpTo put rx = some (r, t)) : t.rxBuffer = rx.rxBuffer ∧ t.ndtr = rx.ndtr ∧
      (rx.rxGetIndex < rxBufferSize → t.rxGetIndex < rxBufferSize) := by
  unfold getCharUpTo at h
  split at h
  · obtain ⟨c, -, heq⟩ := Option.map_eq_some_iff.mp h
    cases heq
    exact ⟨rfl, rfl, fun _ => Nat.mod_lt _ (by decide)⟩
  · cases h
    exact ⟨rfl, rfl, id⟩

theorem Sound.getCharUpTo {put : Nat} {rx t : Rx} {r : Option UInt8} (hs : Sound rx)
    (h : getCharUpTo put rx = some (r, t)) : Sound t := by
  obtain ⟨hbuf, hndtr, hidx⟩ := getCharUpTo_frame h
  refine ⟨⟨hndtr ▸ hs.range.ndtr_pos, hndtr ▸ hs.range.ndtr_le, hidx hs.range.index_lt⟩, ?_⟩
  rw [hbuf]
  exact hs.chars

theorem Sound.dmaReceive {rx t : Rx} {c : UInt8} (hs : Sound rx) (h : dmaReceive c rx = some t) :
    Sound t := by
  obtain ⟨t', ht', hrange, -, hbuf, -⟩ := dmaReceive_eq hs.range c
  rw [h] at ht'
  cases ht'
  refine ⟨hrange, fun i d hd => ?_⟩
  rw [hbuf, Vector.getElem?_set] at hd
  split at hd
  · cases hd
    exact UInt8.toNat_lt c
  · exact hs.chars i d hd

/-- ClearRxBuffer is not called while the counter stands at its reload value. -/
def ClearsInside (s : State) (l : Label) : Prop :=
  l = .clearRxBuffer → s.uart.usart2.ndtr ≠ rxBufferSize

instance (s : State) (l : Label) : Decidable (ClearsInside s l) :=
  inferInstanceAs (Decidable (_ → _))

theorem sound_go (hs : Sound s.uart.usart2) (h : go s = some t) : Sound t.uart.usart2 := by
  unfold go at h
  split at h
  · cases h
  all_goals
    obtain ⟨⟨r, u⟩, hu, rfl⟩ := Option.map_eq_some_iff.mp h
    obtain ⟨rx, hrx, rfl⟩ := Port.run_eq_some.mp hu
    exact hs.getCharUpTo hrx

theorem sound_step (hs : Sound s.uart.usart2) (hok : ClearsInside s l) (h : step s l = some t) :
    Sound t.uart.usart2 := by
  cases l with
  | dma c =>
    obtain ⟨u, hu, rfl⟩ := Option.map_eq_some_iff.mp h
    obtain ⟨rx, hrx, rfl⟩ := Option.map_eq_some_iff.mp hu
    exact hs.dmaReceive hrx
  | go => exact sound_go hs h
  | sniffRxBuffer index =>
    obtain ⟨-, h⟩ := Option.ite_none_right_eq_some.mp h
    obtain ⟨-, -, rfl⟩ := Option.map_eq_some_iff.mp h
    exact hs
  | clearRxBuffer =>
    obtain ⟨-, h⟩ := Option.ite_none_right_eq_some.mp h
    cases h
    have hlt : s.uart.usart2.ndtr < rxBufferSize := lt_of_le_of_ne hs.range.ndtr_le (hok rfl)
    have h16 : s.uart.usart2.ndtr16 = s.uart.usart2.ndtr := ndtr16_eq hs.range.ndtr_le
    exact ⟨⟨hs.range.ndtr_pos, hs.range.ndtr_le, h16.trans_lt hlt⟩, hs.chars⟩
  | getRxBufferCount | getChar | readExisting =>
    obtain ⟨-, h⟩ := Option.ite_none_right_eq_some.mp h
    cases h
    exact hs

theorem sound_init (h : uart.usart2.rxGetIndex < rxBufferSize) :
    Sound (init uart).uart.usart2 := by
  refine ⟨⟨(by decide : 1 ≤ rxBufferSize), le_refl _, h⟩, fun i c hc => ?_⟩
  have hc : (Vector.replicate rxBufferSize (0 : UInt16))[i]? = some c := hc
  rw [Vector.getElem?_replicate] at hc
  obtain ⟨-, hc⟩ := Option.ite_none_right_eq_some.mp hc
  cases hc
  decide

theorem sound_run (hidx : uart.usart2.rxGetIndex = 0)
    (hok : Steps step ClearsInside (init uart) ls) (h : exec step (init uart) ls = some s) :
    Sound s.uart.usart2 :=
  exec_invariant (P := fun s => Sound s.uart.usart2)
    (fun _ _ _ hs hok hstep => sound_step hs hok hstep) (sound_init (by rw [hidx]; decide)) hok h

/-- Unless ClearRxBuffer has stored the reload value, the index stays inside the
array, and the queries agree with GetChar in the middle of the array only. -/
theorem usart2Queries_agree (hidx : uart.usart2.rxGetIndex = 0)
    (hok : Steps step ClearsInside (init uart) ls) (h : exec step (init uart) ls = some s) :
    s.uart.usart2.rxGetIndex < rxBufferSize ∧
      (QueriesAgree s.uart ↔ s.uart.usart2.ndtr = 128) := by
  have hs := sound_run hidx hok h
  exact ⟨hs.range.index_lt, queriesAgree_iff hs⟩

def reset : Uart := ⟨fresh, fresh⟩

/-- A hundred and twenty-eight characters, the first of them read. -/
theorem usart2Queries_agree_middle : ∃ s, exec step (init reset)
    (List.replicate 128 (.dma 97) ++ [.getChar, .go]) = some s ∧ QueriesAgree s.uart := by
  have hrun : ∃ s, exec step (init reset)
      (List.replicate 128 (.dma 97) ++ [.getChar, .go]) = some s ∧ s.uart.usart2.ndtr = 128 := by
    decide +kernel
  obtain ⟨s, hs, hndtr⟩ := hrun
  exact ⟨s, hs, (usart2Queries_agree rfl (by decide +kernel) hs).2.mpr hndtr⟩

/-- A reception leaves fewer than 256 characters for GetChar. -/
def RoomLeft (s : State) : Label → Prop
  | .dma _ => (putIndex s.uart.usart2 + rxBufferSize - s.uart.usart2.rxGetIndex) % rxBufferSize +
      1 < rxBufferSize
  | _ => True

instance (s : State) : ∀ l, Decidable (RoomLeft s l)
  | .dma _ => inferInstanceAs (Decidable (_ < _))
  | .getRxBufferCount | .sniffRxBuffer _ | .clearRxBuffer => inferInstanceAs (Decidable True)
  | .getChar | .readExisting | .go => inferInstanceAs (Decidable True)

/-- After one character the count is 255, and ClearRxBuffer right behind the
configuration stores 256. -/
theorem usart2Queries_disagree :
    (¬ ∀ ls s, Steps step RoomLeft (init reset) ls → exec step (init reset) ls = some s →
      s.uart.usart2.rxGetIndex < rxBufferSize) ∧
    (¬ ∀ ls s, Steps step RoomLeft (init reset) ls → exec step (init reset) ls = some s →
      QueriesAgree s.uart) := by
  constructor
  · intro h
    have hrun : ∃ s, exec step (init reset) [.clearRxBuffer] = some s ∧
        s.uart.usart2.rxGetIndex = 256 := by
      decide +kernel
    obtain ⟨s, hs, hidx⟩ := hrun
    have hlt := h [.clearRxBuffer] s (by decide +kernel) hs
    unfold rxBufferSize at hlt
    omega
  · intro h
    have hrun : ∃ s, exec step (init reset) [.dma 97] = some s ∧ s.uart.usart2.ndtr = 255 := by
      decide +kernel
    obtain ⟨s, hs, hndtr⟩ := hrun
    have hagree := h [.dma 97] s (by decide +kernel) hs
    have hsound : Sound s.uart.usart2 := sound_run rfl (by decide +kernel) hs
    have hmid := (queriesAgree_iff hsound).mp hagree
    omega

end Runs

end PopcornFirmware.Usart.RxQueue
