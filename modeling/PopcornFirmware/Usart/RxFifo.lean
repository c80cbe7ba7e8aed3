import PopcornFirmware.Usart.RxQueue

namespace PopcornFirmware.Usart.RxFifo

open PopcornFirmware.Lib.Ring PopcornFirmware.Lib.Runs
open PopcornFirmware.Usart.RxBuffer PopcornFirmware.Usart.RxQueue

/-- Only receptions and calls of GetChar, with fewer than 256 characters unread
at any time. -/
def FewUnread (s : State) : Label → Prop
  | .dma _ => s.received.length + 1 < s.delivered.length + rxBufferSize
  | .getChar | .go => True
  | _ => False

instance (s : State) : ∀ l, Decidable (FewUnread s l)
  | .dma _ => inferInstanceAs (Decidable (_ < _))
  | .getChar | .go => inferInstanceAs (Decidable True)
  | .getRxBufferCount | .sniffRxBuffer _ | .clearRxBuffer | .readExisting =>
    inferInstanceAs (Decidable False)

/-- The ring holds what has been received and not delivered. A call of GetChar
has seen the first of it. -/
structure Fifo (s : State) (unread : List UInt8) : Prop where
  range : InRange s.uart.usart2
  received : s.received = s.delivered ++ unread
  ring : Holds s.uart.usart2.rxBuffer s.uart.usart2.rxGetIndex (putIndex s.uart.usart2)
    (unread.map UInt8.toUInt16)
  loaded : ∀ put all, s.pc = .getChar put all → ∃ seen rest, unread = seen ++ rest ∧
    put = (s.uart.usart2.rxGetIndex + seen.length) % rxBufferSize ∧ (all = true ↔ seen = [])
  bulk : ∀ put, s.pc ≠ .readExisting put
  results : ∀ r ∈ s.results, r.char = none ↔ r.allDelivered = true

variable {s t : State} {unread : List UInt8} {ls : List Label} {uart : Uart}

theorem fifo_init (h : uart.usart2.rxGetIndex = 0) : Fifo (init uart) [] where
  range := (sound_init (by rw [h]; decide)).range
  received := rfl
  ring := by
    have hput : putIndex (init uart).uart.usart2 = 0 := putIndex_eq (le_refl rxBufferSize)
    have hidx : (init uart).uart.usart2.rxGetIndex = 0 := h
    rw [hput, hidx]
    exact Holds.nil (by decide)
  loaded := by simp [init]
  bulk := by simp [init]
  results := by simp [init]

theorem fifo_dma (hf : Fifo s unread) (c : UInt8)
    (hok : s.received.length + 1 < s.delivered.length + rxBufferSize) :
    ∃ t, step s (.dma c) = some t ∧ Fifo t (unread ++ [c]) := by
  obtain ⟨rx, hrx, hrange, hidx, hbuf, hput⟩ := dmaReceive_eq hf.range c
  have hlen := congrArg List.length hf.received
  rw [List.length_append] at hlen
  refine ⟨{ s with uart := usart2.set rx s.uart, received := s.received ++ [c] }, ?_, ?_⟩
  · have hdma : usart2DmaReceive c s.uart = some (usart2.set rx s.uart) := by
      rw [usart2DmaReceive, show usart2.get s.uart = s.uart.usart2 from rfl, hrx, Option.map_some]
    rw [step, hdma, Option.map_some]
  · refine ⟨hrange, ?_, ?_, ?_, hf.bulk, hf.results⟩
    · rw [← List.append_assoc]
      exact congrArg (· ++ [c]) hf.received
    · have hpush := hf.ring.push (by rw [List.length_map]; omega) c.toUInt16
      rw [List.map_append, List.map_singleton]
      show Holds rx.rxBuffer rx.rxGetIndex (putIndex rx) _
      rw [hidx, hbuf, hput]
      exact hpush
    · intro put all hpc
      obtain ⟨seen, rest, rfl, hput', hall⟩ := hf.loaded put all hpc
      refine ⟨seen, rest ++ [c], by simp, ?_, hall⟩
      show put = (rx.rxGetIndex + _) % _
      rw [hidx, hput']

theorem fifo_getChar (hf : Fifo s unread) (hpc : s.pc = .idle) :
    ∃ t, step s .getChar = some t ∧ Fifo t unread := by
  refine ⟨_, if_pos hpc, hf.range, hf.received, hf.ring, ?_, by simp, hf.results⟩
  intro put all heq
  obtain ⟨rfl, rfl⟩ := Pc.getChar.inj heq
  refine ⟨unread, [], by simp, by simpa using hf.ring.put_eq, ?_⟩
  rw [decide_eq_true_iff, hf.received]
  simp

theorem go_getChar {put : Nat} {all : Bool} {c : Option UInt8} {rx : Rx}
    (hpc : s.pc = .getChar put all) (h : getCharUpTo put s.uart.usart2 = some (c, rx)) :
    step s .go = some { s with
      uart := usart2.set rx s.uart
      pc := .idle
      results := s.results ++ [⟨c, all⟩] } := by
  have hrun : usart2.run (getCharUpTo put) s.uart = some (c, usart2.set rx s.uart) :=
    Port.run_eq_some.mpr ⟨rx, h, rfl⟩
  simp only [step, go, hpc, hrun, Option.map_some]

theorem forall_results {c : Option UInt8} {all : Bool} (hf : Fifo s unread)
    (hc : c = none ↔ all = true) :
    ∀ r ∈ s.results ++ [⟨c, all⟩], r.char = none ↔ r.allDelivered = true := by
  intro r hr
  obtain hr | hr := List.mem_append.mp hr
  · exact hf.results r hr
  · rw [List.mem_singleton.mp hr]
    exact hc

theorem fifo_go (hf : Fifo s unread) (hpc : s.pc ≠ .idle) :
    ∃ t unread', step s .go = some t ∧ Fifo t unread' := by
  cases hget : s.pc with
  | idle => exact absurd hget hpc
  | readExisting put => exact absurd hget (hf.bulk put)
  | getChar put all =>
    obtain ⟨seen, rest, rfl, rfl, hall⟩ := hf.loaded put all hget
    have hring := hf.ring
    rw [List.map_append] at hring
    have hseen := hring.prefix
    rw [List.length_map] at hseen
    cases seen with
    | nil =>
      have hchar : getCharUpTo _ s.uart.usart2 = _ := getCharUpTo_nil hseen
      have hdel : (s.results ++ [Result.mk none all]).filterMap Result.char = s.delivered := by
        simp [State.delivered]
      refine ⟨_, rest, go_getChar hget hchar, hf.range, ?_, hf.ring, by simp, by simp,
        forall_results hf (by simpa using hall)⟩
      exact hf.received.trans (congrArg (· ++ rest) hdel.symm)
    | cons c seen =>
      have hchar : getCharUpTo _ s.uart.usart2 = _ := getCharUpTo_cons hseen
      rw [UInt8.toUInt8_toUInt16] at hchar
      have hdel : (s.results ++ [Result.mk (some c) all]).filterMap Result.char =
          s.delivered ++ [c] := by
        simp [State.delivered]
      refine ⟨_, seen ++ rest, go_getChar hget hchar,
        ⟨hf.range.ndtr_pos, hf.range.ndtr_le, Nat.mod_lt _ (by decide)⟩, ?_, ?_, by simp, by simp,
        forall_results hf (by simpa using hall)⟩
      · have hmove : s.delivered ++ (c :: seen ++ rest) =
            (s.delivered ++ [c]) ++ (seen ++ rest) := by
          simp
        exact (hf.received.trans hmove).trans (congrArg (· ++ (seen ++ rest)) hdel.symm)
      · rw [List.map_append]
        exact hring.pop

/-- The characters GetChar has delivered are the first of those received, in
order; the rest are fewer than 256 and still to be delivered, and a call returns
0 exactly when there were none of them. No call gets stuck. -/
theorem usart2GetChar_fifo (hidx : uart.usart2.rxGetIndex = 0)
    (hok : Steps step FewUnread (init uart) ls) (h : exec step (init uart) ls = some s) :
    (∃ unread, s.received = s.delivered ++ unread ∧ unread.length < 256) ∧
      (∀ r ∈ s.results, r.char = none ↔ r.allDelivered = true) ∧
      (s.pc = .idle → (step s .getChar).isSome) ∧ (s.pc ≠ .idle → (step s .go).isSome) := by
  have hinv : ∃ unread, Fifo s unread := by
    refine exec_invariant (P := fun s => ∃ unread, Fifo s unread) ?_
      ⟨[], fifo_init hidx⟩ hok h
    intro s l t hf hl hstep
    obtain ⟨unread, hf⟩ := hf
    cases l with
    | dma c =>
      obtain ⟨t', ht', hf'⟩ := fifo_dma hf c hl
      cases hstep.symm.trans ht'
      exact ⟨_, hf'⟩
    | getChar =>
      obtain ⟨hpc, -⟩ := Option.ite_none_right_eq_some.mp hstep
      obtain ⟨t', ht', hf'⟩ := fifo_getChar hf hpc
      cases hstep.symm.trans ht'
      exact ⟨_, hf'⟩
    | go =>
      have hpc : s.pc ≠ .idle := by
        intro hpc
        simp [step, go, hpc] at hstep
      obtain ⟨t', unread', ht', hf'⟩ := fifo_go hf hpc
      cases hstep.symm.trans ht'
      exact ⟨_, hf'⟩
    | getRxBufferCount | sniffRxBuffer _ | clearRxBuffer | readExisting => exact absurd hl id
  obtain ⟨unread, hf⟩ := hinv
  have hlen := hf.ring.length_lt
  rw [List.length_map] at hlen
  refine ⟨⟨unread, hf.received, hlen⟩, hf.results, fun hpc => ?_, fun hpc => ?_⟩
  · obtain ⟨t, ht, -⟩ := fifo_getChar hf hpc
    exact Option.isSome_iff_exists.mpr ⟨t, ht⟩
  · obtain ⟨t, -, ht, -⟩ := fifo_go hf hpc
    exact Option.isSome_iff_exists.mpr ⟨t, ht⟩

/-- A reception between the two halves of the first call, and three calls. -/
theorem usart2GetChar_fifo_interleaved : ∃ s, exec step (init reset)
    [.dma 65, .getChar, .dma 66, .go, .getChar, .go, .getChar, .go] = some s ∧
      s.delivered = [65, 66] ∧ ∃ unread, s.received = s.delivered ++ unread ∧
        unread.length < 256 := by
  have hrun : ∃ s, exec step (init reset)
      [.dma 65, .getChar, .dma 66, .go, .getChar, .go, .getChar, .go] = some s ∧
        s.delivered = [65, 66] := by
    decide +kernel
  obtain ⟨s, hs, hdel⟩ := hrun
  exact ⟨s, hs, hdel, (usart2GetChar_fifo rfl (by decide +kernel) hs).1⟩

end PopcornFirmware.Usart.RxFifo
