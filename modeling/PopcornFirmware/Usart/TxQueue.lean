import PopcornFirmware.Lib.Ring
import PopcornFirmware.Lib.Runs

namespace PopcornFirmware.Usart.TxQueue

open PopcornFirmware.Lib.Ring PopcornFirmware.Lib.Runs

/-- USART2_TX_BUFFER_SIZE. -/
abbrev txBufferSize : Nat := 256

/-- The transmit queue of USART2, and whether its TXE interrupt is enabled. -/
structure Tx where
  txBuffer : Vector UInt16 txBufferSize
  txPutIndex : Nat
  txGetIndex : Nat
  txeEnabled : Bool

/-- What USART2_Configuration does to the queue. -/
def configuration (tx : Tx) : Tx :=
  { tx with txBuffer := Vector.replicate txBufferSize 0, txPutIndex := 0, txGetIndex := 0 }

section PutChar

-- USART2_TxBuffer[USART2_TxPutIndex] = c
def storeChar (c : UInt8) (tx : Tx) : Option Tx :=
  (store tx.txBuffer tx.txPutIndex c.toUInt16).map fun buf => { tx with txBuffer := buf }

-- USART2_TxPutIndex = (USART2_TxPutIndex + 1) % USART2_TX_BUFFER_SIZE
def advance (tx : Tx) : Tx := { tx with txPutIndex := (tx.txPutIndex + 1) % txBufferSize }

-- USART_ITConfig(USART2, USART_IT_TXE, ENABLE)
def enable (tx : Tx) : Tx := { tx with txeEnabled := true }

end PutChar

/-- USART2_IRQHandler, served with the given state of the TXE flag; what it
writes to the data register. -/
def usart2IRQHandler (txe : Bool) (tx : Tx) : Option (Option UInt16 × Tx) :=
  -- USART_GetITStatus(USART2, USART_IT_TXE) != RESET
  if txe ∧ tx.txeEnabled then
    if tx.txGetIndex ≠ tx.txPutIndex then
      (tx.txBuffer[tx.txGetIndex]?).map fun c =>
        (some c, { tx with txGetIndex := (tx.txGetIndex + 1) % txBufferSize })
    else some (none, { tx with txeEnabled := false })
  else some (none, tx)

/-- The statement the thread executes next. A call of PutChar from PutString has
the rest of the string to go on with. -/
inductive Pc where
  | idle
  -- while (*str)
  | putString (str : List UInt8)
  -- the statements of PutChar
  | store (c : UInt8) (str : Option (List UInt8))
  | advance (c : UInt8) (str : Option (List UInt8))
  | enable (str : Option (List UInt8))
  deriving DecidableEq

def Pc.back : Option (List UInt8) → Pc
  | none => .idle
  | some str => .putString str

/-- The queue and the thread, with the characters put so far and what has been
written to the data register. -/
structure State where
  tx : Tx
  pc : Pc
  put : List UInt8
  sent : List UInt16

def init (tx : Tx) : State := ⟨configuration tx, .idle, [], []⟩

inductive Label where
  -- calls of USART2_PutChar and USART2_PutString
  | putChar (c : UInt8)
  | putString (str : List UInt8)
  -- the next statement of the thread
  | go
  -- an interrupt, with the state of the TXE flag
  | irq (txe : Bool)

def callPutChar (c : UInt8) (str : Option (List UInt8)) (s : State) : State :=
  { s with pc := .store c str, put := s.put ++ [c] }

def go (s : State) : Option State :=
  match s.pc with
  | .idle => none
  | .putString [] => none
  | .putString (c :: str) =>
    if c ≠ 0 then some (callPutChar c (some str) s) else some { s with pc := .idle }
  | .store c str => (storeChar c s.tx).map fun tx => { s with tx := tx, pc := .advance c str }
  | .advance _ str => some { s with tx := advance s.tx, pc := .enable str }
  | .enable str => some { s with tx := enable s.tx, pc := .back str }

def step (s : State) : Label → Option State
  | .putChar c => match s.pc with
    | .idle => some (callPutChar c none s)
    | _ => none
  | .putString str => match s.pc with
    | .idle => some { s with pc := .putString str }
    | _ => none
  | .go => go s
  | .irq txe => (usart2IRQHandler txe s.tx).map fun (dr, tx) =>
      { s with tx := tx, sent := s.sent ++ dr.toList }

/-- The character of a call of PutChar that has not moved the index yet. -/
def inProgress : Pc → List UInt8
  | .store c _ | .advance c _ => [c]
  | _ => []

/-- PutChar is being executed. -/
def putting : Pc → Prop
  | .store _ _ | .advance _ _ | .enable _ => True
  | _ => False

/-- What has been written to the data register, then what stands in the queue,
is what was put; and what stands there will be sent. -/
def Lossless (s : State) : Prop :=
  ∃ queued, Holds s.tx.txBuffer s.tx.txGetIndex s.tx.txPutIndex queued ∧
    s.sent ++ queued ++ (inProgress s.pc).map UInt8.toUInt16 = s.put.map UInt8.toUInt16 ∧
    (queued ≠ [] → ¬ putting s.pc → s.tx.txeEnabled = true)

/-- TxPutIndex does not move onto TxGetIndex: fewer than 255 characters are
queued. -/
def RoomLeft (s : State) : Label → Prop
  | .go => match s.pc with
    | .advance _ _ => (s.tx.txPutIndex + 1) % txBufferSize ≠ s.tx.txGetIndex
    | _ => True
  | _ => True

instance (s : State) : ∀ l, Decidable (RoomLeft s l)
  | .go => match h : s.pc with
    | .advance _ _ => decidable_of_iff
        ((s.tx.txPutIndex + 1) % txBufferSize ≠ s.tx.txGetIndex) (by simp [RoomLeft, h])
    | .idle | .putString _ | .store _ _ | .enable _ => .isTrue (by simp [RoomLeft, h])
  | .putChar _ | .putString _ | .irq _ => inferInstanceAs (Decidable True)

/-- The same queue, with the interrupt enabled or about to be, and the character
of a call in its slot. -/
structure Inv (s : State) (queued : List UInt16) : Prop where
  ring : Holds s.tx.txBuffer s.tx.txGetIndex s.tx.txPutIndex queued
  put : s.sent ++ queued ++ (inProgress s.pc).map UInt8.toUInt16 = s.put.map UInt8.toUInt16
  enabled : queued ≠ [] → s.tx.txeEnabled = true ∨ ∃ str, s.pc = .enable str
  stored : ∀ c str, s.pc = .advance c str →
    s.tx.txBuffer[s.tx.txPutIndex]? = some c.toUInt16

variable {s t : State} {l : Label} {ls : List Label} {queued : List UInt16} {tx : Tx}

theorem Inv.lossless (hi : Inv s queued) : Lossless s := by
  refine ⟨queued, hi.ring, hi.put, fun hne hpc => ?_⟩
  obtain henabled | ⟨str, hstr⟩ := hi.enabled hne
  · exact henabled
  · rw [hstr] at hpc
    exact absurd trivial hpc

theorem inv_init (tx : Tx) : Inv (init tx) [] where
  ring := Holds.nil (by decide : 0 < txBufferSize)
  put := rfl
  enabled := by simp
  stored := by simp [init]

/-- Statements that leave the queue alone. -/
theorem Inv.goto (hi : Inv s queued) {pc : Pc} {put : List UInt8}
    (hput : put.map UInt8.toUInt16 = (s.put.map UInt8.toUInt16) ++
      (inProgress pc).map UInt8.toUInt16)
    (hnone : inProgress s.pc = []) (hnot : ∀ str, s.pc ≠ .enable str)
    (hpc : ∀ c str, pc ≠ .advance c str) :
    Inv { s with pc := pc, put := put } queued where
  ring := hi.ring
  put := by
    have h := hi.put
    rw [hnone, List.map_nil, List.append_nil] at h
    show _ = put.map UInt8.toUInt16
    rw [hput, ← h]
  enabled := fun hne => Or.inl ((hi.enabled hne).resolve_right fun ⟨str, hstr⟩ => hnot str hstr)
  stored := fun c str heq => absurd heq (hpc c str)

theorem inv_callPutChar (hi : Inv s queued) (c : UInt8) (str : Option (List UInt8))
    (hnone : inProgress s.pc = []) (hnot : ∀ str, s.pc ≠ .enable str) :
    Inv (callPutChar c str s) queued :=
  hi.goto (by simp [inProgress]) hnone hnot (by simp)

theorem inv_store (hi : Inv s queued) {c : UInt8} {str : Option (List UInt8)}
    (hpc : s.pc = .store c str) (h : go s = some t) : Inv t queued := by
  have hlt := hi.ring.put_lt
  have hput := hi.put
  simp only [go, hpc, storeChar, store_of_lt hlt, Option.map_some, Option.some.injEq] at h
  subst h
  rw [hpc] at hput
  refine ⟨hi.ring.set _, hput, fun hne => Or.inl ?_, ?_⟩
  · exact (hi.enabled hne).resolve_right fun ⟨str', hstr⟩ => by simp [hpc] at hstr
  · rintro d str' heq
    cases heq
    exact Vector.getElem?_set_self hlt

theorem inv_advance (hi : Inv s queued) {c : UInt8} {str : Option (List UInt8)}
    (hpc : s.pc = .advance c str) (hroom : (s.tx.txPutIndex + 1) % txBufferSize ≠ s.tx.txGetIndex)
    (h : go s = some t) : Inv t (queued ++ [c.toUInt16]) := by
  have hput := hi.put
  have hlen : queued.length + 1 < txBufferSize :=
    lt_of_le_of_ne hi.ring.length_lt fun hfull => hroom (hi.ring.full_iff.mp hfull)
  simp only [go, hpc, Option.some.injEq] at h
  subst h
  rw [hpc] at hput
  refine ⟨hi.ring.advance hlen (hi.stored c str hpc), ?_, fun _ => Or.inr ⟨str, rfl⟩, by simp⟩
  simpa [inProgress] using hput

theorem inv_enable (hi : Inv s queued) {str : Option (List UInt8)}
    (hpc : s.pc = .enable str) (h : go s = some t) : Inv t queued := by
  have hput := hi.put
  simp only [go, hpc, Option.some.injEq] at h
  subst h
  rw [hpc] at hput
  refine ⟨hi.ring, ?_, fun _ => Or.inl rfl, ?_⟩
  · cases str <;> exact hput
  · cases str <;> simp [Pc.back]

/-- The interrupt sends the first of the queued characters, or is disabled with
none of them left. -/
theorem inv_irq (hi : Inv s queued) {txe : Bool} (h : step s (.irq txe) = some t) :
    ∃ queued', Inv t queued' := by
  obtain ⟨⟨dr, tx⟩, hirq, rfl⟩ := Option.map_eq_some_iff.mp h
  unfold usart2IRQHandler at hirq
  split at hirq
  · cases queued with
    | nil =>
      have heq : s.tx.txGetIndex = s.tx.txPutIndex := hi.ring.nil_iff.mp rfl
      rw [if_neg (not_not.mpr heq)] at hirq
      cases hirq
      exact ⟨[], hi.ring, by simpa using hi.put, by simp, hi.stored⟩
    | cons c queued =>
      rename_i htxe
      rw [if_pos hi.ring.ne, hi.ring.head, Option.map_some] at hirq
      cases hirq
      exact ⟨queued, hi.ring.pop, by simpa using hi.put, fun _ => Or.inl htxe.2, hi.stored⟩
  · cases hirq
    exact ⟨queued, hi.ring, by simpa using hi.put, hi.enabled, hi.stored⟩

theorem inv_go (hi : Inv s queued) (hok : RoomLeft s .go) (h : go s = some t) :
    ∃ queued', Inv t queued' := by
  cases hpc : s.pc with
  | idle => simp [go, hpc] at h
  | putString str =>
    have hnone : inProgress s.pc = [] := by simp [hpc, inProgress]
    have hnot : ∀ str, s.pc ≠ .enable str := by simp [hpc]
    cases str with
    | nil => simp [go, hpc] at h
    | cons c str =>
      simp only [go, hpc] at h
      split at h
      · cases h
        exact ⟨queued, inv_callPutChar hi c (some str) hnone hnot⟩
      · cases h
        exact ⟨queued, hi.goto (by simp [inProgress]) hnone hnot (by simp)⟩
  | store c str => exact ⟨queued, inv_store hi hpc h⟩
  | advance c str =>
    rw [RoomLeft, hpc] at hok
    exact ⟨_, inv_advance hi hpc hok h⟩
  | enable str => exact ⟨queued, inv_enable hi hpc h⟩

theorem inv_step (hi : Inv s queued) (hok : RoomLeft s l) (h : step s l = some t) :
    ∃ queued', Inv t queued' := by
  have hidle : s.pc = .idle → inProgress s.pc = [] ∧ ∀ str, s.pc ≠ .enable str := by
    intro hpc
    simp [hpc, inProgress]
  cases l with
  | putChar c =>
    simp only [step] at h
    split at h
    · rename_i hpc
      cases h
      exact ⟨queued, inv_callPutChar hi c none (hidle hpc).1 (hidle hpc).2⟩
    · cases h
  | putString str =>
    simp only [step] at h
    split at h
    · rename_i hpc
      cases h
      exact ⟨queued, hi.goto (by simp [inProgress]) (hidle hpc).1 (hidle hpc).2 (by simp)⟩
    · cases h
  | go => exact inv_go hi hok h
  | irq txe => exact inv_irq hi h

/-- Moving the index onto TxGetIndex empties a full queue. -/
theorem lossy_advance (hi : Inv s queued) {c : UInt8} {str : Option (List UInt8)}
    (hpc : s.pc = .advance c str) (hfull : (s.tx.txPutIndex + 1) % txBufferSize = s.tx.txGetIndex)
    (h : go s = some t) : ¬ Lossless t := by
  have hput := congrArg List.length hi.put
  simp only [go, hpc, Option.some.injEq] at h
  subst h
  rintro ⟨q, hq, hall, -⟩
  have hnil : q = [] := hq.nil_iff.mpr hfull.symm
  have hlen := congrArg List.length hall
  simp [hnil, hpc, inProgress] at hput hlen
  omega

theorem inv_run (hok : Steps step RoomLeft (init tx) ls) (h : exec step (init tx) ls = some s) :
    ∃ queued, Inv s queued := by
  refine exec_invariant (P := fun s => ∃ queued, Inv s queued) ?_
    ⟨[], inv_init tx⟩ hok h
  rintro s l t ⟨queued, hi⟩ hl hstep
  exact inv_step hi hl hstep

/-- The transmit queue loses nothing in every run in which no call of PutChar
moves TxPutIndex onto TxGetIndex. -/
theorem usart2PutChar_lossless (hok : Steps step RoomLeft (init tx) ls)
    (h : exec step (init tx) ls = some s) : Lossless s := by
  obtain ⟨queued, hi⟩ := inv_run hok h
  exact hi.lossless

/-- The first statement that does move it there loses the whole queue. -/
theorem lossy_run {c : UInt8} {str : Option (List UInt8)}
    (hok : Steps step RoomLeft (init tx) ls) (h : exec step (init tx) ls = some s)
    (hpc : s.pc = .advance c str) (hfull : (s.tx.txPutIndex + 1) % txBufferSize = s.tx.txGetIndex) :
    ∃ t, exec step (init tx) (ls ++ [.go]) = some t ∧ ¬ Lossless t := by
  obtain ⟨queued, hi⟩ := inv_run hok h
  have hgo : go s = some { s with tx := advance s.tx, pc := .enable str } := by
    simp [go, hpc]
  exact ⟨_, (exec_concat h).trans hgo, lossy_advance hi hpc hfull hgo⟩

def reset : Tx := ⟨Vector.replicate txBufferSize 0, 0, 0, false⟩

/-- A string whose first character is sent before its second is in the queue. -/
theorem usart2PutChar_lossless_interrupted : ∃ s, exec step (init reset)
    ([Label.putString [72, 105, 0]] ++ List.replicate 6 .go ++ [.irq true, .irq true] ++
      List.replicate 3 .go ++ [.irq true]) = some s ∧ s.sent = [72, 105] ∧ Lossless s := by
  have hrun : ∃ s, exec step (init reset)
      ([Label.putString [72, 105, 0]] ++ List.replicate 6 .go ++ [.irq true, .irq true] ++
        List.replicate 3 .go ++ [.irq true]) = some s ∧ s.sent = [72, 105] := by
    decide +kernel
  obtain ⟨s, hs, hsent⟩ := hrun
  exact ⟨s, hs, hsent, usart2PutChar_lossless (by decide +kernel) hs⟩

def fullQueue : List Label :=
  (List.replicate 255 [Label.putChar 97, .go, .go, .go]).flatten ++ [.putChar 97, .go]

/-- The 256th character put without an interrupt empties the queue. -/
theorem usart2PutChar_overrun :
    ¬ ∀ ls s, exec step (init reset) ls = some s → Lossless s := by
  intro hall
  have hrun : ∃ s, exec step (init reset) fullQueue = some s ∧ s.pc = .advance 97 none ∧
      (s.tx.txPutIndex + 1) % txBufferSize = s.tx.txGetIndex := by
    decide +kernel
  obtain ⟨s, hs, hpc, hfull⟩ := hrun
  obtain ⟨t, ht, hlossy⟩ := lossy_run (by decide +kernel) hs hpc hfull
  exact hlossy (hall _ t ht)

end PopcornFirmware.Usart.TxQueue
