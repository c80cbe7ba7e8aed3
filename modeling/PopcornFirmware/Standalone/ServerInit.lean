import PopcornFirmware.Lib.Runs
import Mathlib.Logic.Function.Basic

namespace PopcornFirmware.Standalone.ServerInit

open PopcornFirmware.Lib.Runs

/-- The states a pcb that nobody connects to can be in. -/
inductive TcpState where
  | closed
  | listen
  deriving DecidableEq

/-- A pcb of the server; acceptInstalled stands for tcp_server_accept in its
accept field. -/
structure Pcb where
  state : TcpState
  localPort : Nat
  acceptInstalled : Bool

def serverPort : Nat := 25262

/-- The pcbs by the order of their allocation, tcp_server_pcb with none for NULL,
flag_server_accept, and the states of the pcbs tcp_accept has been applied to. -/
structure State where
  pcbs : Nat → Option Pcb
  next : Nat
  tcpServerPcb : Option Nat
  flagServerAccept : Nat
  accepts : List TcpState

/-- Before the loops of main. -/
def start : State := ⟨fun _ => none, 0, none, 0, []⟩

section Lwip

/-- tcp_new, which can fail. -/
def tcpNew (succeeds : Bool) (s : State) : Option Nat × State :=
  if succeeds then
    (some s.next, { s with
      pcbs := Function.update s.pcbs s.next (some ⟨.closed, 0, false⟩)
      next := s.next + 1 })
  else (none, s)

/-- tcp_bind where it finds the port free. -/
def tcpBind (pcb : Nat) (s : State) : State :=
  { s with
    pcbs := Function.update s.pcbs pcb
      ((s.pcbs pcb).map fun p => { p with localPort := serverPort }) }

/-- tcp_listen takes a new pcb and frees the given one, or it fails, keeps that and
returns NULL. -/
def tcpListen (succeeds : Bool) (pcb : Nat) (s : State) : Option Nat × State :=
  if succeeds then
    (some s.next, { s with
      pcbs := Function.update (Function.update s.pcbs pcb none) s.next
        ((s.pcbs pcb).map fun p => ⟨.listen, p.localPort, false⟩)
      next := s.next + 1 })
  else (none, s)

/-- tcp_accept writes to the pcb whatever its state is; through NULL that is
undefined. -/
def tcpAccept (pcb : Option Nat) (s : State) : Option State :=
  pcb.bind fun pcb => (s.pcbs pcb).map fun p =>
    { s with
      pcbs := Function.update s.pcbs pcb (some { p with acceptInstalled := true })
      accepts := s.accepts ++ [p.state] }

end Lwip

/-- tcp_server_init with the outcomes of tcp_new, tcp_bind and tcp_listen. -/
def tcpServerInit (newOk bindOk listenOk : Bool) (s : State) : Option State :=
  let (pcb, s) := tcpNew newOk s
  let s := { s with tcpServerPcb := pcb }
  match s.tcpServerPcb with
  | some pcb =>
    if bindOk then
      let (lpcb, s) := tcpListen listenOk pcb (tcpBind pcb s)
      let s := { s with tcpServerPcb := lpcb }
      (tcpAccept s.tcpServerPcb s).map fun s => { s with flagServerAccept := 1 }
    else some { s with flagServerAccept := 0 }
  | none => some { s with flagServerAccept := 0 }

def tcpServerRecvData (s : State) : Option State :=
  (tcpAccept s.tcpServerPcb s).map fun s => { s with flagServerAccept := 1 }

inductive Label where
  | init (newOk bindOk listenOk : Bool)
  | recvData
  deriving DecidableEq

def step (s : State) : Label → Option State
  | .init newOk bindOk listenOk => tcpServerInit newOk bindOk listenOk s
  | .recvData => tcpServerRecvData s

def Label.failedInit : Label → Bool
  | .init newOk bindOk listenOk => !(newOk && bindOk && listenOk)
  | .recvData => false

/-- A pcb in LISTEN state has tcp_server_accept installed. -/
def Accepting (s : State) : Prop :=
  ∃ id p, s.pcbs id = some p ∧ p.state = .listen ∧ p.acceptInstalled = true

/-- The call returns; tcp_accept has been applied to pcbs in LISTEN state only, the
flag tells whether one of these accepts, and a failed tcp_server_init has not added
to the pcbs. -/
def Disciplined (s : State) (l : Label) : Prop :=
  ∃ t, step s l = some t ∧ (∀ st ∈ t.accepts, st = .listen) ∧
    (t.flagServerAccept = 1 ↔ Accepting t) ∧
    (l.failedInit = true → ∀ id, (t.pcbs id).isSome → (s.pcbs id).isSome)

/-- Either all three succeed, or tcp_new fails and no earlier pcb accepts; for
tcp_server_recvData, tcp_server_pcb is in LISTEN state. -/
def Prepared (s : State) : Label → Prop
  | .init newOk bindOk listenOk =>
    (newOk = true ∧ bindOk = true ∧ listenOk = true) ∨ (newOk = false ∧ ¬ Accepting s)
  | .recvData => ∃ id p, s.tcpServerPcb = some id ∧ s.pcbs id = some p ∧ p.state = .listen

/-- What has not been allocated is not there. -/
structure Sound (s : State) : Prop where
  fresh : ∀ id, s.next ≤ id → s.pcbs id = none
  accepts : ∀ st ∈ s.accepts, st = .listen

variable {s t : State} {l : Label} {ls : List Label} {id : Nat} {p : Pcb}

theorem sound_start : Sound start := ⟨fun _ _ => rfl, by simp [start]⟩

theorem tcpAccept_eq (h : s.pcbs id = some p) : tcpAccept (some id) s = some { s with
    pcbs := Function.update s.pcbs id (some { p with acceptInstalled := true })
    accepts := s.accepts ++ [p.state] } := by
  rw [tcpAccept, Option.bind_some, h, Option.map_some]

/-- An init in which everything succeeds. -/
theorem init_executes (s : State) : step s (.init true true true) = some
    { pcbs := Function.update (Function.update s.pcbs s.next none) (s.next + 1)
        (some ⟨.listen, serverPort, true⟩)
      next := s.next + 1 + 1
      tcpServerPcb := some (s.next + 1)
      flagServerAccept := 1
      accepts := s.accepts ++ [.listen] } := by
  simp [step, tcpServerInit, tcpNew, tcpBind, tcpListen, tcpAccept]

theorem init_new_fails (s : State) (bindOk listenOk : Bool) :
    step s (.init false bindOk listenOk) =
      some { s with tcpServerPcb := none, flagServerAccept := 0 } := rfl

theorem sound_step (hs : Sound s) (hok : Disciplined s l) (h : step s l = some t) : Sound t := by
  obtain ⟨t', ht', haccepts, -⟩ := hok
  cases h.symm.trans ht'
  refine ⟨fun id hid => ?_, haccepts⟩
  cases l with
  | init newOk bindOk listenOk =>
    cases newOk with
    | false =>
      cases h
      exact hs.fresh id hid
    | true =>
      cases bindOk with
      | false =>
        cases h
        have hlt : s.next + 1 ≤ id := hid
        exact (Function.update_of_ne (by omega) _ s.pcbs).trans (hs.fresh id (by omega))
      | true =>
        cases listenOk with
        | false => cases h
        | true =>
          cases (init_executes s).symm.trans h
          have hlt : s.next + 1 + 1 ≤ id := hid
          show Function.update (Function.update s.pcbs s.next none) (s.next + 1) _ id = none
          rw [Function.update_of_ne (by omega), Function.update_of_ne (by omega),
            hs.fresh id (by omega)]
  | recvData =>
    obtain ⟨u, hu, rfl⟩ := Option.map_eq_some_iff.mp h
    obtain ⟨k, -, hk⟩ := Option.bind_eq_some_iff.mp hu
    obtain ⟨p, hp, rfl⟩ := Option.map_eq_some_iff.mp hk
    have hne : id ≠ k := by
      rintro rfl
      rw [hs.fresh id hid] at hp
      cases hp
    exact (Function.update_of_ne hne _ s.pcbs).trans (hs.fresh id hid)

theorem disciplined_init (hs : Sound s) : Disciplined s (.init true true true) := by
  refine ⟨_, init_executes s, ?_, ?_, by simp [Label.failedInit]⟩
  · simp only [List.forall_mem_append, List.forall_mem_singleton, and_true]
    exact hs.accepts
  · exact iff_of_true rfl ⟨s.next + 1, _, Function.update_self _ _ _, rfl, rfl⟩

theorem disciplined_new_fails (hs : Sound s) (bindOk listenOk : Bool) :
    Disciplined s (.init false bindOk listenOk) ↔ ¬ Accepting s := by
  constructor
  · rintro ⟨t, ht, -, hflag, -⟩ hacc
    cases ht
    cases hflag.mpr hacc
  · intro hnot
    exact ⟨_, init_new_fails s bindOk listenOk, hs.accepts,
      iff_of_false (by simp) hnot, fun _ _ h => h⟩

/-- The pcb of an init that fails behind tcp_new stays. -/
theorem not_disciplined_bind_fails (hs : Sound s) (listenOk : Bool) :
    ¬ Disciplined s (.init true false listenOk) := by
  rintro ⟨t, ht, -, -, hleft⟩
  cases ht
  have hsome := hleft rfl s.next (by simp)
  rw [hs.fresh s.next (Nat.le_refl _)] at hsome
  cases hsome

theorem disciplined_recvData_iff (hs : Sound s) :
    Disciplined s .recvData ↔
      ∃ id p, s.tcpServerPcb = some id ∧ s.pcbs id = some p ∧ p.state = .listen := by
  constructor
  · rintro ⟨t, ht, haccepts, -⟩
    obtain ⟨u, hu, rfl⟩ := Option.map_eq_some_iff.mp ht
    obtain ⟨id, hid, hrest⟩ := Option.bind_eq_some_iff.mp hu
    obtain ⟨p, hp, rfl⟩ := Option.map_eq_some_iff.mp hrest
    exact ⟨id, p, hid, hp, haccepts p.state (by simp)⟩
  · rintro ⟨id, p, hid, hp, hlisten⟩
    have hrun := tcpAccept_eq hp
    rw [← hid] at hrun
    refine ⟨_, by rw [step, tcpServerRecvData, hrun, Option.map_some], ?_, ?_, ?_⟩
    · simp only [List.forall_mem_append, List.forall_mem_singleton]
      exact ⟨hs.accepts, hlisten⟩
    · exact iff_of_true rfl ⟨id, _, Function.update_self _ _ _, hlisten, rfl⟩
    · simp [Label.failedInit]

theorem disciplined_iff (hs : Sound s) (l : Label) : Disciplined s l ↔ Prepared s l := by
  cases l with
  | init newOk bindOk listenOk =>
    cases newOk with
    | false =>
      rw [disciplined_new_fails hs]
      simp [Prepared]
    | true =>
      cases bindOk with
      | false =>
        refine iff_of_false (not_disciplined_bind_fails hs listenOk) ?_
        simp [Prepared]
      | true =>
        cases listenOk with
        | false =>
          refine iff_of_false ?_ (by simp [Prepared])
          rintro ⟨t, ht, -⟩
          cases ht
        | true => exact iff_of_true (disciplined_init hs) (Or.inl ⟨rfl, rfl, rfl⟩)
  | recvData => exact disciplined_recvData_iff hs

/-- A sequence of calls keeps to the discipline, at each of them, exactly when each
meets what it is prepared for; the calls of main as it stands, which leaves out
tcp_server_init, only as long as no frame has been received. -/
theorem tcpServer_disciplined_iff (ls : List Label) (n : Nat) :
    (Steps step Disciplined start ls ↔ Steps step Prepared start ls) ∧
      (Steps step Disciplined start (List.replicate n .recvData) ↔ n = 0) := by
  constructor
  · exact steps_iff_of_invariant (fun s l hs => disciplined_iff hs l)
      (fun s l t hs hok ht => sound_step hs hok ht) sound_start
  · cases n with
    | zero => exact iff_of_true trivial rfl
    | succ n =>
      refine iff_of_false ?_ (Nat.succ_ne_zero n)
      rintro ⟨hok, -⟩
      obtain ⟨id, p, hid, -⟩ := (disciplined_recvData_iff sound_start).mp hok
      cases hid

/-- The first frame that main receives, with tcp_server_pcb still NULL. -/
theorem tcpServerRecvData_null : ¬ ∀ ls, Steps step Disciplined start ls := by
  intro h
  obtain ⟨t, ht, -⟩ := (h [.recvData]).1
  cases ht

end PopcornFirmware.Standalone.ServerInit
