import PopcornFirmware.Lwip.SysTimeouts

namespace PopcornFirmware.Lwip.TcpipTimer

open PopcornFirmware.Lib.DeltaList PopcornFirmware.Lib.Runs PopcornFirmware.Lwip.SysTimeouts

section Model

/-- What timeouts of tcpip_thread call. Only tcpip.c knows tcpip_tcp_timer. -/
inductive Handler
  | tcpipTcpTimer
  | other (n : Nat)
  deriving DecidableEq

def tcpTmrInterval : Nat := 250

/-- The timeouts of tcpip_thread, tcpip_tcp_timer_active, and whether there are
active connections or ones in TIME-WAIT. -/
structure Tcpip where
  sys : State Handler Nat
  tcpipTcpTimerActive : Bool
  pcbs : Bool

def initTcpip : Tcpip := ⟨init, false, false⟩

def startTimer (alloc : Bool) (s : Tcpip) : Tcpip :=
  { s with sys := if alloc then s.sys.timeout tcpTmrInterval .tcpipTcpTimer 0 else s.sys }

def tcpTimerNeeded (alloc : Bool) (s : Tcpip) : Tcpip :=
  if s.tcpipTcpTimerActive = false ∧ s.pcbs = true then
    startTimer alloc { s with tcpipTcpTimerActive := true }
  else s

/-- TCP_REG -/
def tcpReg (alloc : Bool) (s : Tcpip) : Tcpip := tcpTimerNeeded alloc { s with pcbs := true }

/-- What tcp_tmr does: connections may be made in the callbacks, and in the end
there are some or none. -/
structure TcpTmr where
  regs : Option Bool
  pcbs : Bool
  deriving DecidableEq

def tcpTmr (tmr : TcpTmr) (s : Tcpip) : Tcpip :=
  { tmr.regs.elim s (tcpReg · s) with pcbs := tmr.pcbs }

def tcpipTcpTimer (tmr : TcpTmr) (alloc : Bool) (s : Tcpip) : Tcpip :=
  let s := tcpTmr tmr s
  if s.pcbs then startTimer alloc s else { s with tcpipTcpTimerActive := false }

inductive Event
  | reg (alloc : Bool)
  | rmv (left : Bool)
  | timeout (msecs n arg : Nat) (alloc : Bool)
  | untimeout (n arg : Nat)
  | fetch (answer : Option Nat) (tmr : TcpTmr) (alloc : Bool)

def tcpipStep (s : Tcpip) : Event → Option Tcpip
  | .reg alloc => some (tcpReg alloc s)
  | .rmv left => some { s with pcbs := s.pcbs && left }
  | .timeout msecs n arg alloc =>
    (step s.sys (.timeout msecs (.other n) arg alloc)).map ({ s with sys := · })
  | .untimeout n arg => (step s.sys (.untimeout (.other n) arg)).map ({ s with sys := · })
  | .fetch answer tmr alloc =>
    (step s.sys (.fetch answer)).map fun sys =>
      let called := (sysMboxFetch answer s.sys.timeouts).1
      if called.map Call.h = some .tcpipTcpTimer then
        tcpipTcpTimer tmr alloc { s with sys := sys }
      else { s with sys := sys }

/-- The pool of timeouts always has one left for the TCP timer. -/
def PoolLeft : Event → Prop
  | .reg alloc => alloc = true
  | .rmv _ => True
  | .timeout msecs _ _ _ => msecs < 2 ^ 32
  | .untimeout _ _ => True
  | .fetch _ tmr alloc => alloc = true ∧ ∀ a ∈ tmr.regs, a = true

instance : DecidablePred PoolLeft
  | .reg _ => inferInstanceAs (Decidable (_ = _))
  | .timeout _ _ _ _ => inferInstanceAs (Decidable (_ < _))
  | .fetch _ _ _ => inferInstanceAs (Decidable (_ ∧ _))
  | .rmv _ | .untimeout _ _ => inferInstanceAs (Decidable True)

/-- A connection is made, and the TCP timer runs twice. -/
def connection : List Event :=
  [.timeout 5000 1 0 true, .fetch (some 40) ⟨none, false⟩ true, .reg true, .timeout 250 2 0 true,
    .fetch none ⟨some true, true⟩ true, .fetch none ⟨none, true⟩ true, .untimeout 2 0,
    .fetch (some 130) ⟨none, true⟩ true, .fetch none ⟨none, true⟩ true]

/-- The pool has no timeout left when a connection is made. -/
def noTimeout : List Event := [.timeout 1000 1 0 true, .reg false]

def afterwards : List Event :=
  [.fetch none ⟨none, true⟩ true, .timeout 1000 1 0 true, .rmv false, .reg true,
    .fetch none ⟨none, true⟩ true]

end Model

section Invariant

def isTcp (x : Nat × Call Handler Nat) : Bool := decide (x.2.h = .tcpipTcpTimer)

def tcpDues (s : State Handler Nat) : List (Nat × Call Handler Nat) :=
  (dues s.clock s.timeouts).filter isTcp

/-- The TCP timer runs once when it is marked as active, and it is active while
there are connections. -/
structure TimerOk (s : Tcpip) : Prop where
  sys : Ok s.sys
  once : (tcpDues s.sys).length = if s.tcpipTcpTimerActive then 1 else 0
  within : ∀ x ∈ tcpDues s.sys, x.1 ≤ s.sys.clock + tcpTmrInterval
  needed : s.pcbs = true → s.tcpipTcpTimerActive = true

variable {s : Tcpip} {t : State Handler Nat}

theorem initTcpip_ok : TimerOk initTcpip :=
  ⟨init_ok, rfl, by simp [initTcpip, init, tcpDues, dues], by simp [initTcpip]⟩

theorem tcpDues_timeout_other (s : State Handler Nat) (msecs n arg : Nat) :
    (tcpDues (s.timeout msecs (.other n) arg)).Perm (tcpDues s) := by
  unfold tcpDues
  rw [timeout_dues]
  refine ((perm_insertDue _ _).filter isTcp).trans ?_
  rw [List.filter_cons_of_neg (by simp [isTcp])]

theorem tcpDues_startTimer (s : State Handler Nat) :
    (tcpDues (s.timeout tcpTmrInterval .tcpipTcpTimer 0)).Perm
      ((s.clock + tcpTmrInterval, ⟨.tcpipTcpTimer, 0, s.armed.length⟩) :: tcpDues s) := by
  unfold tcpDues
  rw [timeout_dues]
  refine ((perm_insertDue _ _).filter isTcp).trans ?_
  rw [List.filter_cons_of_pos (by simp [isTcp])]

theorem filter_eraseP {α : Type*} {p q : α → Bool} (h : ∀ x, p x = true → q x = false)
    (l : List α) : (l.eraseP p).filter q = l.filter q := by
  induction l with
  | nil => rfl
  | cons x l ih =>
    rw [List.eraseP_cons]
    cases hx : p x with
    | true =>
      rw [cond_true, List.filter_cons_of_neg]
      rw [h x hx]
      exact Bool.false_ne_true
    | false => rw [cond_false, List.filter_cons, List.filter_cons, ih]

theorem tcpDues_untimeout_other (h : Ok t) (n arg : Nat) :
    tcpDues (t.untimeout (.other n) arg) = tcpDues t := by
  unfold tcpDues
  rw [h.untimeout_dues]
  apply filter_eraseP
  intro x hx
  rw [decide_eq_true_eq] at hx
  simp [isTcp, hx.1]

theorem startTimer_ok (h : Ok s.sys) (hnone : tcpDues s.sys = [])
    (hactive : s.tcpipTcpTimerActive = true) : TimerOk (startTimer true s) := by
  have hperm := tcpDues_startTimer s.sys
  rw [hnone] at hperm
  refine ⟨timeout_ok h (by decide) _ _, ?_, ?_, fun _ => hactive⟩
  · change _ = if s.tcpipTcpTimerActive = true then 1 else 0
    rw [if_pos hactive]
    exact hperm.length_eq
  · intro x hx
    rw [List.mem_singleton.mp (hperm.mem_iff.mp hx)]
    exact Nat.le_refl _

theorem tcpReg_ok (h : TimerOk s) : TimerOk (tcpReg true s) := by
  unfold tcpReg tcpTimerNeeded
  dsimp only
  by_cases hoff : s.tcpipTcpTimerActive = false
  · rw [if_pos ⟨hoff, rfl⟩]
    have hnone := h.once
    rw [hoff] at hnone
    exact startTimer_ok h.sys (List.length_eq_zero_iff.mp hnone) rfl
  · rw [if_neg fun hcond => hoff hcond.1]
    rw [Bool.not_eq_false] at hoff
    exact { h with needed := fun _ => hoff }

/-- The TCP timer has just been called. -/
theorem tcpipTcpTimer_ok (tmr : TcpTmr) (h : Ok s.sys) (hnone : tcpDues s.sys = [])
    (hactive : s.tcpipTcpTimerActive = true) : TimerOk (tcpipTcpTimer tmr true s) := by
  have hreg : ∀ a, tcpReg a s = { s with pcbs := true } := by
    intro a
    unfold tcpReg tcpTimerNeeded
    dsimp only
    rw [if_neg fun hcond => by simp [hactive] at hcond]
  have htmr : tcpTmr tmr s = { s with pcbs := tmr.pcbs } := by
    unfold tcpTmr
    cases tmr.regs with
    | none => rfl
    | some a =>
      dsimp only [Option.elim]
      rw [hreg]
  unfold tcpipTcpTimer
  dsimp only
  rw [htmr]
  by_cases hpcbs : tmr.pcbs = true
  · rw [if_pos hpcbs]
    exact startTimer_ok h hnone hactive
  · rw [if_neg hpcbs]
    refine ⟨h, ?_, ?_, fun hp => absurd hp hpcbs⟩
    · exact List.length_eq_zero_iff.mpr hnone
    · intro x hx
      change x ∈ tcpDues s.sys at hx
      rw [hnone] at hx
      contradiction

theorem fetch_eq {answer : Option Nat} {u : State Handler Nat}
    (h : step t (.fetch answer) = some u) : u = t.fetch answer := by
  rw [step] at h
  split at h
  · contradiction
  · exact (Option.some.inj h).symm

/-- What a round calls is the timeout that goes. -/
theorem fetch_tcpDues (s : State Handler Nat) (answer : Option Nat) :
    s.clock ≤ (s.fetch answer).clock ∧
      ((sysMboxFetch answer s.timeouts).1.map Call.h ≠ some .tcpipTcpTimer ∧
          tcpDues (s.fetch answer) = tcpDues s ∨
        (sysMboxFetch answer s.timeouts).1.map Call.h = some .tcpipTcpTimer ∧
          ∃ x, tcpDues s = x :: tcpDues (s.fetch answer)) := by
  unfold tcpDues
  obtain ⟨hcalled, hdues, -, hclock⟩ | ⟨next, rest, hcalled, hnext, hrest, hclock, -⟩ :=
    fetch_cases s answer
  · rw [hcalled, hdues]
    exact ⟨hclock, .inl ⟨by simp, rfl⟩⟩
  · have hdues : dues s.clock s.timeouts = (s.clock + next.time, next.val) ::
        dues (s.fetch answer).clock (s.fetch answer).timeouts := by
      rw [hnext, hrest, hclock]
      rfl
    rw [hcalled, hdues, Option.map_some]
    refine ⟨by rw [hclock]; exact Nat.le_add_right _ _, ?_⟩
    by_cases htcp : next.val.h = .tcpipTcpTimer
    · rw [htcp, List.filter_cons_of_pos (by simp [isTcp, htcp])]
      exact .inr ⟨rfl, _, rfl⟩
    · rw [List.filter_cons_of_neg (by simpa [isTcp] using htcp)]
      exact .inl ⟨by simpa using htcp, rfl⟩

theorem fetch_tcpDues_nil (h : tcpDues t = []) (answer : Option Nat) :
    (sysMboxFetch answer t.timeouts).1.map Call.h ≠ some .tcpipTcpTimer ∧
      tcpDues (t.fetch answer) = [] := by
  obtain ⟨-, ⟨hcalled, hsame⟩ | ⟨-, x, hx⟩⟩ := fetch_tcpDues t answer
  · exact ⟨hcalled, hsame.trans h⟩
  · rw [h] at hx
    contradiction

theorem tcpipStep_ok {u : Tcpip} {e : Event} (h : TimerOk s) (he : PoolLeft e)
    (hstep : tcpipStep s e = some u) : TimerOk u := by
  cases e with
  | reg alloc =>
    obtain rfl := Option.some.inj hstep
    obtain rfl : alloc = true := he
    exact tcpReg_ok h
  | rmv left =>
    obtain rfl := Option.some.inj hstep
    refine { h with needed := fun hp => h.needed ?_ }
    exact (Bool.and_eq_true _ _ ▸ hp).1
  | timeout msecs n arg alloc =>
    rw [tcpipStep] at hstep
    obtain ⟨t, ht, rfl⟩ := Option.map_eq_some_iff.mp hstep
    have hsys := step_ok (l := .timeout msecs (.other n) arg alloc) h.sys he ht
    cases alloc with
    | false =>
      obtain rfl := Option.some.inj ht
      exact h
    | true =>
      obtain rfl := Option.some.inj ht
      have hperm := tcpDues_timeout_other s.sys msecs n arg
      refine ⟨hsys, hperm.length_eq.trans h.once, ?_, h.needed⟩
      exact fun x hx => h.within x (hperm.mem_iff.mp hx)
  | untimeout n arg =>
    rw [tcpipStep] at hstep
    obtain ⟨t, ht, rfl⟩ := Option.map_eq_some_iff.mp hstep
    have hsys := step_ok (l := .untimeout (.other n) arg) h.sys trivial ht
    obtain rfl := Option.some.inj ht
    have hsame := tcpDues_untimeout_other h.sys n arg
    refine ⟨hsys, ?_, ?_, h.needed⟩
    · dsimp only
      rw [hsame]
      exact h.once
    · intro x hx
      dsimp only at hx
      rw [hsame] at hx
      exact h.within x hx
  | fetch answer tmr alloc =>
    rw [tcpipStep] at hstep
    obtain ⟨t, ht, rfl⟩ := Option.map_eq_some_iff.mp hstep
    have hsys := step_ok (l := .fetch answer) h.sys trivial ht
    obtain rfl := fetch_eq ht
    obtain ⟨rfl, -⟩ : alloc = true ∧ _ := he
    dsimp only
    obtain ⟨hclock, ⟨hcalled, hsame⟩ | ⟨hcalled, x, hcons⟩⟩ := fetch_tcpDues s.sys answer
    · rw [if_neg hcalled]
      refine ⟨hsys, ?_, ?_, h.needed⟩
      · dsimp only
        rw [hsame]
        exact h.once
      · intro x hx
        dsimp only at hx
        rw [hsame] at hx
        exact (h.within x hx).trans (Nat.add_le_add_right hclock _)
    · rw [if_pos hcalled]
      have honce := h.once
      rw [hcons, List.length_cons] at honce
      have hactive : s.tcpipTcpTimerActive = true := by
        by_contra hoff
        rw [if_neg hoff] at honce
        omega
      rw [if_pos hactive] at honce
      exact tcpipTcpTimer_ok tmr hsys (List.length_eq_zero_iff.mp (Nat.succ.inj honce)) hactive

end Invariant

section Dead

/-- The times are of type u32_t. -/
def EventInRange : Event → Prop
  | .timeout msecs _ _ _ => msecs < 2 ^ 32
  | _ => True

instance : DecidablePred EventInRange
  | .timeout _ _ _ _ => inferInstanceAs (Decidable (_ < _))
  | .reg _ | .rmv _ | .untimeout _ _ | .fetch _ _ _ => inferInstanceAs (Decidable True)

variable {s u : Tcpip} {e : Event}

theorem startTimer_sys_ok (alloc : Bool) (h : Ok s.sys) : Ok (startTimer alloc s).sys := by
  cases alloc with
  | false => exact h
  | true => exact timeout_ok h (by decide) _ _

theorem tcpReg_sys_ok (alloc : Bool) (h : Ok s.sys) : Ok (tcpReg alloc s).sys := by
  unfold tcpReg tcpTimerNeeded
  split
  · exact startTimer_sys_ok alloc h
  · exact h

theorem tcpipTcpTimer_sys_ok (tmr : TcpTmr) (alloc : Bool) (h : Ok s.sys) :
    Ok (tcpipTcpTimer tmr alloc s).sys := by
  have htmr : Ok (tcpTmr tmr s).sys := by
    unfold tcpTmr
    cases tmr.regs with
    | none => exact h
    | some a => exact tcpReg_sys_ok a h
  unfold tcpipTcpTimer
  dsimp only
  split
  · exact startTimer_sys_ok alloc htmr
  · exact htmr

theorem tcpipStep_sys_ok (h : Ok s.sys) (he : EventInRange e) (hstep : tcpipStep s e = some u) :
    Ok u.sys := by
  cases e with
  | reg alloc =>
    obtain rfl := Option.some.inj hstep
    exact tcpReg_sys_ok alloc h
  | rmv left =>
    obtain rfl := Option.some.inj hstep
    exact h
  | timeout msecs n arg alloc =>
    rw [tcpipStep] at hstep
    obtain ⟨t, ht, rfl⟩ := Option.map_eq_some_iff.mp hstep
    exact step_ok (l := .timeout msecs (.other n) arg alloc) h he ht
  | untimeout n arg =>
    rw [tcpipStep] at hstep
    obtain ⟨t, ht, rfl⟩ := Option.map_eq_some_iff.mp hstep
    exact step_ok (l := .untimeout (.other n) arg) h trivial ht
  | fetch answer tmr alloc =>
    rw [tcpipStep] at hstep
    obtain ⟨t, ht, rfl⟩ := Option.map_eq_some_iff.mp hstep
    have hsys := step_ok (l := .fetch answer) h trivial ht
    dsimp only
    split
    · exact tcpipTcpTimer_sys_ok tmr alloc hsys
    · exact hsys

/-- The TCP timer is marked as active, but there is none. -/
structure Dead (s : Tcpip) : Prop where
  sys : Ok s.sys
  active : s.tcpipTcpTimerActive = true
  none : tcpDues s.sys = []

theorem tcpipStep_dead (h : Dead s) (he : EventInRange e) (hstep : tcpipStep s e = some u) :
    Dead u := by
  have hsys := tcpipStep_sys_ok h.sys he hstep
  cases e with
  | reg alloc =>
    obtain rfl := Option.some.inj hstep
    have hsame : tcpReg alloc s = { s with pcbs := true } := by
      unfold tcpReg tcpTimerNeeded
      dsimp only
      rw [if_neg fun hcond => by simp [h.active] at hcond]
    rw [hsame]
    exact { h with }
  | rmv left =>
    obtain rfl := Option.some.inj hstep
    exact { h with }
  | timeout msecs n arg alloc =>
    rw [tcpipStep] at hstep
    obtain ⟨t, ht, rfl⟩ := Option.map_eq_some_iff.mp hstep
    refine ⟨hsys, h.active, ?_⟩
    obtain rfl := Option.some.inj ht
    cases alloc with
    | false => exact h.none
    | true =>
      have hperm := tcpDues_timeout_other s.sys msecs n arg
      rw [h.none] at hperm
      exact hperm.eq_nil
  | untimeout n arg =>
    rw [tcpipStep] at hstep
    obtain ⟨t, ht, rfl⟩ := Option.map_eq_some_iff.mp hstep
    refine ⟨hsys, h.active, ?_⟩
    obtain rfl := Option.some.inj ht
    exact (tcpDues_untimeout_other h.sys n arg).trans h.none
  | fetch answer tmr alloc =>
    rw [tcpipStep] at hstep
    obtain ⟨t, ht, rfl⟩ := Option.map_eq_some_iff.mp hstep
    obtain rfl := fetch_eq ht
    obtain ⟨hcalled, hsame⟩ := fetch_tcpDues_nil h.none answer
    dsimp only at hsys ⊢
    rw [if_neg hcalled] at hsys ⊢
    exact ⟨hsys, h.active, hsame⟩

end Dead

section Properties

variable {s t : Tcpip} {es later : List Event}

/-- There is never more than one TCP timer, and while there are connections
there is one, which is due within its interval. -/
theorem run_tcpTimer (hes : ∀ e ∈ es, PoolLeft e) (h : exec tcpipStep initTcpip es = some s) :
    (tcpDues s.sys).length ≤ 1 ∧
      (s.pcbs = true → ∃ x, tcpDues s.sys = [x] ∧ x.1 ≤ s.sys.clock + tcpTmrInterval) := by
  have hok : TimerOk s :=
    exec_invariant (fun _ _ _ hs he hstep => tcpipStep_ok hs he hstep) initTcpip_ok
      (steps_of_forall (fun e he _ => hes e he) _) h
  have honce := hok.once
  refine ⟨?_, fun hpcbs => ?_⟩
  · rw [honce]
    split <;> decide
  · rw [if_pos (hok.needed hpcbs)] at honce
    obtain ⟨x, hx⟩ := List.length_eq_one_iff.mp honce
    exact ⟨x, hx, hok.within x (hx ▸ List.mem_cons_self)⟩

theorem connection_poolLeft : ∀ e ∈ connection, PoolLeft e := by decide

theorem run_tcpTimer_connection : ∃ s, exec tcpipStep initTcpip connection = some s ∧
    s.pcbs = true ∧ s.sys.clock = 540 ∧ (tcpDues s.sys).length ≤ 1 ∧
    (s.pcbs = true → ∃ x, tcpDues s.sys = [x] ∧ x.1 ≤ s.sys.clock + tcpTmrInterval) :=
  ⟨_, rfl, rfl, rfl, run_tcpTimer connection_poolLeft rfl⟩

/-- When the TCP timer could not be set once, it is never set again. -/
theorem run_timerDead (hes : ∀ e ∈ es ++ later, EventInRange e)
    (h : exec tcpipStep initTcpip es = some s) (hactive : s.tcpipTcpTimerActive = true)
    (hnone : tcpDues s.sys = []) (hlater : exec tcpipStep s later = some t) :
    t.tcpipTcpTimerActive = true ∧ tcpDues t.sys = [] := by
  have hsys : Ok s.sys :=
    exec_invariant (P := fun s => Ok s.sys) (fun _ _ _ hs he hstep => tcpipStep_sys_ok hs he hstep)
      init_ok (steps_of_forall (fun e he _ => hes e (List.mem_append_left _ he)) _) h
  have hdead : Dead t :=
    exec_invariant (fun _ _ _ hs he hstep => tcpipStep_dead hs he hstep) ⟨hsys, hactive, hnone⟩
      (steps_of_forall (fun e he _ => hes e (List.mem_append_right _ he)) _) hlater
  exact ⟨hdead.active, hdead.none⟩

theorem afterwards_inRange : ∀ e ∈ noTimeout ++ afterwards, EventInRange e := by decide

theorem run_timerDead_noTimeout : ∃ s t, exec tcpipStep initTcpip noTimeout = some s ∧
    exec tcpipStep s afterwards = some t ∧
    t.tcpipTcpTimerActive = true ∧ tcpDues t.sys = [] :=
  ⟨_, _, rfl, rfl, run_timerDead afterwards_inRange rfl rfl rfl rfl⟩

end Properties

end PopcornFirmware.Lwip.TcpipTimer
