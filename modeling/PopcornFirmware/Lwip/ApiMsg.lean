import Mathlib.Logic.Basic

namespace PopcornFirmware.Lwip.ApiMsg

/-- The values of err_t. -/
inductive Err where
  | ok
  | mem
  | buf
  | timeout
  | rte
  | abrt
  | rst
  | clsd
  | conn
  | val
  | arg
  | use
  | iface
  | isconn
  | inprogress
  deriving DecidableEq

/-- ERR_IS_FATAL: everything below ERR_RTE. -/
def Err.isFatal : Err → Bool
  | .ok | .mem | .buf | .timeout | .rte => false
  | _ => true

/-- The states of a pcb that matter to the functions below. -/
inductive Pcb where
  | closed
  | established
  deriving DecidableEq

/-- The fields pcb.tcp and err of a TCP netconn. -/
structure Netconn where
  pcb : Option Pcb
  err : Err
  deriving DecidableEq

/-- The errors that lwIP hands to err_tcp when it removes a pcb. -/
inductive Loss where
  | abrt
  | rst
  deriving DecidableEq

def Loss.err : Loss → Err
  | .abrt => .abrt
  | .rst => .rst

/-- What the stack answers while a netconn function waits for it: the operation
is carried out, it fails with an error that leaves the pcb, or the pcb is
removed. -/
inductive Outcome where
  | done
  | error (e : Err)
  | lost (l : Loss)
  deriving DecidableEq

def Outcome.isLost : Outcome → Bool
  | .lost _ => true
  | _ => false

/-- netconn_new when there is room for a netconn and its pcb. -/
def netconnNew : Netconn := ⟨some .closed, .ok⟩

def errTcp (l : Loss) : Netconn := ⟨none, l.err⟩

/-- netconn_connect; none when it does not return. Without a pcb do_connect only
signals, and an error of tcp_connect is signalled by nobody. -/
def netconnConnect (c : Netconn) (o : Outcome) : Option (Err × Netconn) :=
  match c.pcb, o with
  | none, _ => some (c.err, c)
  | some .closed, .done => some (.ok, ⟨some .established, .ok⟩)
  | some .closed, .lost l => some (l.err, errTcp l)
  | some .closed, .error _ => none
  | some .established, .lost l => some (l.err, errTcp l)
  | some .established, _ => none

/-- netconn_write. -/
def netconnWrite (c : Netconn) (o : Outcome) : Err × Netconn :=
  if c.err.isFatal then (c.err, c)
  else
    match c.pcb, o with
    | none, _ => (.val, ⟨none, .val⟩)
    | some p, .done => (.ok, ⟨some p, .ok⟩)
    | some p, .error e => (e, ⟨some p, e⟩)
    | some _, .lost l => (l.err, errTcp l)

/-- netconn_close; none while tcp_close fails, since do_close_internal is then
tried again by the next sent_tcp or poll_tcp. -/
def netconnClose (c : Netconn) (o : Outcome) : Option (Err × Netconn) :=
  match c.pcb, o with
  | none, _ => some (.val, ⟨none, .val⟩)
  | some _, .done => some (.ok, ⟨none, .ok⟩)
  | some _, .lost l => some (l.err, errTcp l)
  | some _, .error _ => none

theorem Loss.err_ne_ok (l : Loss) : l.err ≠ .ok := by
  cases l <;> decide

/-- A connect that starts with an unused pcb tells the truth. -/
theorem netconnConnect_ok {c c' : Netconn} {o : Outcome} (hpcb : c.pcb = some .closed)
    (h : netconnConnect c o = some (.ok, c')) : c'.pcb = some .established := by
  cases o with
  | done =>
    simp only [netconnConnect, hpcb, Option.some.injEq, Prod.mk.injEq] at h
    rw [← h.2]
  | error e => simp [netconnConnect, hpcb] at h
  | lost l =>
    simp only [netconnConnect, hpcb, Option.some.injEq, Prod.mk.injEq] at h
    exact absurd h.1 l.err_ne_ok

theorem netconnWrite_pcb {c : Netconn} {o : Outcome} (h : o.isLost = false) :
    (netconnWrite c o).2.pcb = c.pcb := by
  unfold netconnWrite
  split
  · rfl
  · cases hpcb : c.pcb with
    | none => rfl
    | some p =>
      cases o with
      | done | error e => rfl
      | lost l => cases h

/-- Without a pcb netconn_close never reports success. -/
theorem netconnClose_none {c : Netconn} (hpcb : c.pcb = none) (o : Outcome) :
    netconnClose c o = some (.val, ⟨none, .val⟩) := by
  simp [netconnClose, hpcb]

end PopcornFirmware.Lwip.ApiMsg
