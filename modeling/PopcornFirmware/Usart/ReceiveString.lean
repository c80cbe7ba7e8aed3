import PopcornFirmware.Lib.CText
import PopcornFirmware.Lib.Runs
import PopcornFirmware.Usart.RxBuffer
import Mathlib.Data.List.DropRight

namespace PopcornFirmware.Usart.ReceiveString

open PopcornFirmware.Lib.CText PopcornFirmware.Lib.Ring PopcornFirmware.Lib.Runs
open PopcornFirmware.Usart.RxBuffer

/-- Buffer_Array and the globals behind it. -/
structure Buffer where
  bufferArray : Vector UInt16 10
  isReceive : Nat
  exitCalib : Nat
  rxGetIndex : Nat
  bufferSize : Nat
  deriving DecidableEq

def Buffer.reset : Buffer := ⟨Vector.replicate 10 0, 0, 0, 0, 0⟩

/-- USART_ReceiveString with the data register read by USART_ReceiveChar. What
follows a store outside Buffer_Array is undefined. -/
def usartReceiveString (receiveData : UInt16) (b : Buffer) : Option Buffer :=
  (store b.bufferArray b.rxGetIndex receiveData).map fun buf =>
    let b := { b with bufferArray := buf, rxGetIndex := b.rxGetIndex + 1 }
    let b := if receiveData = (ch 'c').toUInt16 then
        { b with isReceive := 1, bufferSize := b.rxGetIndex, rxGetIndex := 0 }
      else b
    if receiveData = (ch 'q').toUInt16 then
      { b with exitCalib := 1, bufferSize := b.rxGetIndex, rxGetIndex := 0 }
    else b

/-- USART3_IRQHandler, served for a received byte. The interrupt is pending when
it is enabled. -/
def usart3IRQHandler (rxneie : Bool) (c : UInt8) (b : Buffer) : Option Buffer :=
  if rxneie then usartReceiveString c.toUInt16 b else some b

section Frames

def IsTerminator (c : UInt8) : Prop := c = ch 'c' ∨ c = ch 'q'

instance : DecidablePred IsTerminator := fun _ => inferInstanceAs (Decidable (_ ∨ _))

/-- The bytes since the last terminator. -/
def pending (bs : List UInt8) : List UInt8 := bs.rtakeWhile (¬ IsTerminator ·)

def receive (b : Buffer) (c : UInt8) : Option Buffer := usart3IRQHandler true c b

/-- What the globals tell about the frame that a terminator has ended. -/
structure Complete (frame : List UInt8) (c : UInt8) (b : Buffer) : Prop where
  size : b.bufferSize = frame.length
  bytes : ∀ i < b.bufferSize, b.bufferArray[i]? = frame[i]?.map UInt8.toUInt16
  isReceive : c = ch 'c' → b.isReceive = 1
  exitCalib : c = ch 'q' → b.exitCalib = 1

/-- All stores of the sequence stay inside Buffer_Array, and if a terminator
ends it, the frame is complete. -/
def Assembled (bs : List UInt8) : Prop :=
  ∃ b, exec receive Buffer.reset bs = some b ∧
    ∀ p c, bs = p ++ [c] → IsTerminator c → Complete (pending p ++ [c]) c b

variable {bs : List UInt8} {b b' : Buffer} {c : UInt8}

theorem pending_concat (bs : List UInt8) (c : UInt8) :
    pending (bs ++ [c]) = if IsTerminator c then [] else pending bs ++ [c] := by
  rw [pending, List.rtakeWhile_concat]
  by_cases hc : IsTerminator c <;> simp [hc, pending]

/-- The buffer holds the bytes since the last terminator. -/
structure Holding (bs : List UInt8) (b : Buffer) : Prop where
  index : b.rxGetIndex = (pending bs).length
  slot : ∀ i < (pending bs).length, b.bufferArray[i]? = (pending bs)[i]?.map UInt8.toUInt16

theorem toUInt16_eq_iff (d : UInt8) : c.toUInt16 = d.toUInt16 ↔ c = d := by
  constructor
  · intro h
    simpa using congrArg UInt16.toUInt8 h
  · intro h
    rw [h]

/-- What a store inside Buffer_Array and the statements behind it do. -/
theorem receive_spec (hlt : b.rxGetIndex < 10) (c : UInt8) :
    ∃ b', receive b c = some b' ∧ b'.bufferArray = b.bufferArray.set b.rxGetIndex c.toUInt16 ∧
      b'.rxGetIndex = (if IsTerminator c then 0 else b.rxGetIndex + 1) ∧
      (IsTerminator c → b'.bufferSize = b.rxGetIndex + 1) ∧
      (c = ch 'c' → b'.isReceive = 1) ∧ (c = ch 'q' → b'.exitCalib = 1) := by
  refine ⟨_, congrArg (Option.map _) (store_of_lt hlt c.toUInt16), ?_⟩
  simp only [toUInt16_eq_iff, IsTerminator]
  have hcq : ch 'c' ≠ ch 'q' := by decide
  by_cases hc : c = ch 'c'
  · simp [hc, hcq]
  · by_cases hq : c = ch 'q' <;> simp [hc, hq, hcq.symm]

/-- A byte with room for it joins those since the last terminator. -/
theorem receive_executes (hb : Holding bs b) (hlt : (pending bs).length < 10) (c : UInt8) :
    ∃ b', receive b c = some b' ∧ Holding (bs ++ [c]) b' ∧
      (IsTerminator c → Complete (pending bs ++ [c]) c b') := by
  have hindex := hb.index
  obtain ⟨b', hb', harr, hidx, hsize, hreceive, hcalib⟩ := receive_spec (b := b) (by omega) c
  have hslot : ∀ i < (pending bs ++ [c]).length,
      b'.bufferArray[i]? = (pending bs ++ [c])[i]?.map UInt8.toUInt16 := by
    intro i hi
    rw [List.length_append, List.length_singleton] at hi
    rw [harr]
    obtain hi | rfl := Nat.lt_succ_iff_lt_or_eq.mp hi
    · rw [Vector.getElem?_set_ne _ (by omega), hb.slot i hi, List.getElem?_append_left hi]
    · rw [← hindex, Vector.getElem?_set_self, hindex]
      simp
  refine ⟨b', hb', ?_, fun hc => ?_⟩
  · by_cases hc : IsTerminator c
    · have hpend : pending (bs ++ [c]) = [] := by rw [pending_concat, if_pos hc]
      exact ⟨by rw [hidx, if_pos hc, hpend, List.length_nil], by simp [hpend]⟩
    · have hpend : pending (bs ++ [c]) = pending bs ++ [c] := by rw [pending_concat, if_neg hc]
      refine ⟨?_, by rwa [hpend]⟩
      rw [hidx, if_neg hc, hpend, hindex, List.length_append, List.length_singleton]
  · have hlen : b'.bufferSize = (pending bs ++ [c]).length := by
      rw [hsize hc, hindex, List.length_append, List.length_singleton]
    exact ⟨hlen, fun i hi => hslot i (hlen ▸ hi), hreceive, hcalib⟩

theorem receive_overrun (hb : Holding bs b) (hle : 10 ≤ (pending bs).length) (c : UInt8) :
    receive b c = none := by
  have hidx := hb.index
  have hstore : store b.bufferArray b.rxGetIndex c.toUInt16 = none := dif_neg (by omega)
  simp [receive, usart3IRQHandler, usartReceiveString, hstore]

theorem holding_reset : Holding [] Buffer.reset := ⟨rfl, by simp [pending]⟩

/-- As long as every byte finds room, the run goes on and keeps to the frames. -/
theorem exec_holding (hroom : ∀ p c, p ++ [c] <+: bs → (pending p).length < 10) :
    ∃ b, exec receive Buffer.reset bs = some b ∧ Holding bs b := by
  induction bs using List.reverseRecOn with
  | nil => exact ⟨Buffer.reset, rfl, holding_reset⟩
  | append_singleton bs c ih =>
    obtain ⟨b, hb, hhold⟩ := ih fun p d hp => hroom p d (hp.trans (List.prefix_append bs [c]))
    obtain ⟨b', hb', hhold', -⟩ := receive_executes hhold (hroom bs c (List.prefix_refl _)) c
    exact ⟨b', by rw [exec_concat hb, hb'], hhold'⟩

theorem assembled_of_room (hroom : ∀ p c, p ++ [c] <+: bs → (pending p).length < 10) :
    Assembled bs := by
  obtain rfl | ⟨p, c, rfl⟩ := bs.eq_nil_or_concat'
  · exact ⟨Buffer.reset, rfl, by simp⟩
  · have hroom' : ∀ q d, q ++ [d] <+: p → (pending q).length < 10 := fun q d hq =>
      hroom q d (hq.trans (List.prefix_append p [c]))
    obtain ⟨b, hb, hhold⟩ := exec_holding hroom'
    obtain ⟨b', hb', -, hcomplete⟩ := receive_executes hhold (hroom p c (List.prefix_refl _)) c
    refine ⟨b', by rw [exec_concat hb, hb'], fun q d hq hd => ?_⟩
    obtain ⟨rfl, hcd⟩ := List.append_inj' hq rfl
    cases hcd
    exact hcomplete hd

/-- A sequence is assembled, from its start to each of its bytes, exactly when
each byte is preceded by fewer than ten since the last terminator. -/
theorem usartReceiveString_assembled_iff (bs : List UInt8) :
    (∀ p, p <+: bs → Assembled p) ↔ ∀ p c, p ++ [c] <+: bs → (pending p).length < 10 := by
  constructor
  · intro h
    induction bs using List.reverseRecOn with
    | nil => simp
    | append_singleton bs d ih =>
      have hroom := ih fun p hp => h p (hp.trans (List.prefix_append bs [d]))
      intro p c hp
      obtain hp | hp := List.prefix_concat_iff.mp hp
      · obtain ⟨rfl, -⟩ := List.append_inj' hp rfl
        by_contra hfull
        obtain ⟨b, hb, hhold⟩ := exec_holding hroom
        obtain ⟨b', hb', -⟩ := h (p ++ [d]) (List.prefix_refl _)
        rw [exec_concat hb, receive_overrun hhold (by omega)] at hb'
        cases hb'
      · exact hroom p c hp
  · intro hroom p hp
    exact assembled_of_room fun q c hq => hroom q c (hq.trans hp)

/-- Ten bytes without a terminator fill Buffer_Array. -/
theorem usartReceiveString_eleventh : ¬ ∀ bs, Assembled bs := by
  intro h
  obtain ⟨b, hb, -⟩ := h (List.replicate 11 0)
  have hnone : exec receive Buffer.reset (List.replicate 11 0) = none := by decide +kernel
  cases hnone.symm.trans hb

end Frames

section Reader

/-- USART3 with a thread that calls GetChar, which has loaded putIndex or stands
outside; what has been received, how many calls have returned and what those
with a return value of 1 have delivered. -/
structure State where
  rxneie : Bool
  uart : Uart
  buffer : Buffer
  loaded : Option Nat
  received : List UInt8
  calls : Nat
  delivered : List UInt8
  deriving DecidableEq

/-- The reset values, those of DMA1_Stream1 included. -/
def reset (usart2 : Rx) : State where
  rxneie := false
  uart := ⟨usart2, ⟨Vector.replicate rxBufferSize 0, 0, 0⟩⟩
  buffer := Buffer.reset
  loaded := none
  received := []
  calls := 0
  delivered := []

/-- USART3_Configuration, of which only the receive interrupt matters here. -/
def usart3Configuration (s : State) : State := { s with rxneie := true }

inductive Label where
  | irq (c : UInt8)
  -- a call of GetChar, up to the load of the counter, and the rest of it
  | getChar
  | go
  deriving DecidableEq

def step (s : State) : Label → Option State
  | .irq c => (usart3IRQHandler s.rxneie c s.buffer).map fun b =>
      { s with buffer := b, received := s.received ++ [c] }
  | .getChar =>
    if s.loaded = none then some { s with loaded := some (putIndex s.uart.usart3) } else none
  | .go => s.loaded.bind fun putIndex =>
      (usart3.run (getCharUpTo putIndex) s.uart).map fun (c, uart) =>
        { s with
          uart := uart
          loaded := none
          calls := s.calls + 1
          delivered := s.delivered ++ c.toList }

/-- After the step, what has been delivered are the first of the bytes received. -/
def DeliversReceived (s : State) (l : Label) : Prop :=
  ∀ t, step s l = some t → t.delivered <+: t.received

/-- Where a call returns, more bytes than calls have arrived, and the one in line
is a 0. -/
def NextIsZero (s : State) (l : Label) : Prop :=
  l = .go → s.loaded.isSome → s.received[s.calls]? = some 0

/-- Nothing moves the counter of the stream or writes to USART3_RxBuffer. -/
structure Untouched (s : State) : Prop where
  rxBuffer : s.uart.usart3.rxBuffer = Vector.replicate rxBufferSize 0
  ndtr : s.uart.usart3.ndtr = 0
  index_lt : s.uart.usart3.rxGetIndex < rxBufferSize
  loaded : ∀ put, s.loaded = some put → put = rxBufferSize
  calls : s.calls = s.delivered.length

variable {s t : State} {l : Label} {ls : List Label}

theorem untouched_init (usart2 : Rx) : Untouched (usart3Configuration (reset usart2)) :=
  ⟨rfl, rfl, Nat.zero_lt_succ 255, by simp [usart3Configuration, reset], rfl⟩

/-- Every call returns 1, with a byte that nobody has written. -/
theorem go_executes (hs : Untouched s) (h : step s .go = some t) :
    Untouched t ∧ t.received = s.received ∧ t.delivered = s.delivered ++ [0] := by
  obtain ⟨put, hput, hrun⟩ := Option.bind_eq_some_iff.mp h
  obtain rfl := hs.loaded put hput
  obtain ⟨⟨c, uart⟩, hchar, rfl⟩ := Option.map_eq_some_iff.mp hrun
  obtain ⟨rx, hrx, rfl⟩ := Port.run_eq_some.mp hchar
  have hidx : (usart3.get s.uart).rxGetIndex < rxBufferSize := hs.index_lt
  have hbuf : (usart3.get s.uart).rxBuffer = Vector.replicate rxBufferSize 0 := hs.rxBuffer
  rw [getCharUpTo, if_pos hidx.ne, hbuf, Vector.getElem?_eq_getElem hidx,
    Vector.getElem_replicate] at hrx
  cases hrx
  refine ⟨⟨rfl, hs.ndtr, Nat.mod_lt _ (by decide), by simp, ?_⟩, rfl, rfl⟩
  simp [hs.calls]

theorem go_goes_on (hs : Untouched s) {put : Nat} (hput : s.loaded = some put) :
    ∃ t, step s .go = some t := by
  obtain rfl := hs.loaded put hput
  have hidx := hs.index_lt
  have hchar : ∃ c rx, getCharUpTo rxBufferSize s.uart.usart3 = some (c, rx) := by
    rw [getCharUpTo, if_pos hidx.ne, Vector.getElem?_eq_getElem hidx]
    exact ⟨_, _, rfl⟩
  obtain ⟨c, rx, hchar⟩ := hchar
  have hrun : usart3.run (getCharUpTo rxBufferSize) s.uart = some (c, usart3.set rx s.uart) :=
    Port.run_eq_some.mpr ⟨rx, hchar, rfl⟩
  exact ⟨_, by rw [step, hput, Option.bind_some, hrun]; rfl⟩

theorem untouched_step (hs : Untouched s) (h : step s l = some t) : Untouched t := by
  cases l with
  | irq c =>
    obtain ⟨b, -, rfl⟩ := Option.map_eq_some_iff.mp h
    exact ⟨hs.rxBuffer, hs.ndtr, hs.index_lt, hs.loaded, hs.calls⟩
  | getChar =>
    obtain ⟨-, heq⟩ := Option.ite_none_right_eq_some.mp h
    cases heq
    refine ⟨hs.rxBuffer, hs.ndtr, hs.index_lt, fun put hput => ?_, hs.calls⟩
    cases hput
    rw [putIndex_eq (by rw [hs.ndtr]; exact Nat.zero_le _), hs.ndtr, Nat.sub_zero]
  | go => exact (go_executes hs h).1

theorem prefix_concat_iff {α : Type} {xs ys : List α} (h : xs <+: ys) (y : α) :
    xs ++ [y] <+: ys ↔ ys[xs.length]? = some y := by
  obtain ⟨zs, rfl⟩ := h
  rw [List.prefix_append_right_inj, List.getElem?_append_right (le_refl _), Nat.sub_self]
  cases zs with
  | nil => simp
  | cons z zs => simp [List.cons_prefix_cons, eq_comm]

/-- What a call delivers is the byte in line exactly when that is a 0. -/
theorem deliversReceived_iff (hs : Untouched s) (hpre : s.delivered <+: s.received) (l : Label) :
    DeliversReceived s l ↔ NextIsZero s l := by
  cases l with
  | irq c =>
    refine ⟨fun _ hl => (Label.noConfusion hl), fun _ t h => ?_⟩
    obtain ⟨b, -, rfl⟩ := Option.map_eq_some_iff.mp h
    exact hpre.trans (List.prefix_append s.received [c])
  | getChar =>
    refine ⟨fun _ hl => (Label.noConfusion hl), fun _ t h => ?_⟩
    obtain ⟨-, heq⟩ := Option.ite_none_right_eq_some.mp h
    cases heq
    exact hpre
  | go =>
    have hnext := prefix_concat_iff hpre 0
    rw [← hs.calls] at hnext
    constructor
    · intro h _ hloaded
      obtain ⟨put, hput⟩ := Option.isSome_iff_exists.mp hloaded
      obtain ⟨t, ht⟩ := go_goes_on hs hput
      obtain ⟨-, hrec, hdel⟩ := go_executes hs ht
      have hpre' := h t ht
      rw [hrec, hdel] at hpre'
      exact hnext.mp hpre'
    · intro h t ht
      obtain ⟨put, hput, -⟩ := Option.bind_eq_some_iff.mp ht
      obtain ⟨-, hrec, hdel⟩ := go_executes hs ht
      rw [hrec, hdel]
      exact hnext.mpr (h rfl (by rw [hput]; rfl))

/-- With the receive interrupt on and the stream not running, the calls of
USART3_GetChar deliver the bytes received, up to every step of a run, exactly when
each finds as many of them as there have been calls and one more, which is a 0. -/
theorem usart3GetChar_delivers_iff (usart2 : Rx) (ls : List Label) :
    Steps step DeliversReceived (usart3Configuration (reset usart2)) ls ↔
      Steps step NextIsZero (usart3Configuration (reset usart2)) ls := by
  refine steps_iff_of_invariant (P := fun s => Untouched s ∧ s.delivered <+: s.received)
    (fun s l hs => deliversReceived_iff hs.1 hs.2 l)
    (fun s l t hs hok ht => ⟨untouched_step hs.1 ht, hok t ht⟩)
    ⟨untouched_init usart2, List.nil_prefix⟩

/-- A first call with nothing received. -/
theorem usart3GetChar_nothing_received : ¬ ∀ (usart2 : Rx) (ls : List Label),
    Steps step DeliversReceived (usart3Configuration (reset usart2)) ls := by
  intro h
  have hloaded := untouched_step (l := .getChar) (untouched_init fresh) rfl
  have hgo := ((h fresh [.getChar, .go]).2 _ rfl).1
  have hnext := (deliversReceived_iff hloaded List.nil_prefix .go).mp hgo rfl rfl
  cases hnext

end Reader

end PopcornFirmware.Usart.ReceiveString
