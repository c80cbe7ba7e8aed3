import PopcornFirmware.FreeRTOS.TcpEcho
import PopcornFirmware.Lwip.ApiMsg

namespace PopcornFirmware.FreeRTOS.SenderNetconn

open PopcornFirmware.Lib.CText PopcornFirmware.Lib.Pool PopcornFirmware.Lib.Runs
open PopcornFirmware.Lwip.ApiMsg
open PopcornFirmware.FreeRTOS.TcpEcho (SenderPc recvStep echoStep senderStep senderNext
  senderStep_eq_some)

/-- The threads, and the netconn sendConn of each sender. -/
structure State where
  prog : TcpEcho.State
  conns : List (Option Netconn)
  deriving DecidableEq

def init : State := ⟨TcpEcho.init, [none]⟩

/-- As in the program, but a sender's step comes with what the stack answers to
the netconn function that it calls; and err_tcp for the netconn of a sender. -/
inductive Label where
  | recv (data : Text)
  | echo
  | sender (i : Nat) (o : Outcome)
  | reset (i : Nat) (l : Loss)
  deriving DecidableEq

/-- Whether the netconn function called at pc returns ERR_OK, or a netconn, and
what becomes of sendConn. -/
def callNetconn (c : Option Netconn) (o : Outcome) : SenderPc → Option (Bool × Option Netconn)
  | .newConn => some (if o = .done then (true, some netconnNew) else (false, none))
  | .connect => c.bind fun n => (netconnConnect n o).map fun r => (r.1 = .ok, some r.2)
  | .write _ _ => c.map fun n => ((netconnWrite n o).1 = .ok, some (netconnWrite n o).2)
  | .close => c.bind fun n => (netconnClose n o).map fun r => (r.1 = .ok, some r.2)
  | _ => some (true, c)

def step (s : State) : Label → Option State
  | .recv data => (recvStep s.prog data).map fun p => { s with prog := p }
  | .echo => (echoStep s.prog).map fun p =>
      ⟨p, if s.prog.echo = .spawn then s.conns ++ [none] else s.conns⟩
  | .sender i o =>
    s.prog.senders[i]?.bind fun pc => s.conns[i]?.bind fun c =>
      (callNetconn c o pc).bind fun r =>
        (senderStep s.prog i r.1).map fun p => ⟨p, s.conns.set i r.2⟩
  | .reset i l =>
    if s.conns[i]?.join.bind Netconn.pcb = some .established then
      some { s with conns := s.conns.set i (some (errTcp l)) }
    else none

/-- All that a step of a sender can do. -/
theorem step_sender {s t : State} {i : Nat} {o : Outcome} (h : step s (.sender i o) = some t) :
    ∃ pc c ok c' g pc', s.prog.senders[i]? = some pc ∧ s.conns[i]? = some c ∧
      callNetconn c o pc = some (ok, c') ∧ senderNext s.prog.shared ok pc = some (g, pc') ∧
      t = ⟨{ s.prog with shared := g, senders := s.prog.senders.set i pc' },
        s.conns.set i c'⟩ := by
  obtain ⟨pc, hpc, h⟩ := Option.bind_eq_some_iff.mp h
  obtain ⟨c, hc, h⟩ := Option.bind_eq_some_iff.mp h
  obtain ⟨⟨ok, c'⟩, hcall, h⟩ := Option.bind_eq_some_iff.mp h
  obtain ⟨p, hp, rfl⟩ := Option.map_eq_some_iff.mp h
  obtain ⟨pc₀, g, pc', hpc₀, hnext, rfl⟩ := senderStep_eq_some hp
  rw [hpc] at hpc₀
  cases hpc₀
  exact ⟨pc, c, ok, c', g, pc', hpc, hc, hcall, hnext, rfl⟩

/-- A reset hits an established connection. -/
theorem step_reset {s t : State} {i : Nat} {l : Loss} (h : step s (.reset i l) = some t) :
    ∃ n, s.conns[i]? = some (some n) ∧ n.pcb = some .established ∧
      t = { s with conns := s.conns.set i (some (errTcp l)) } := by
  simp only [step] at h
  split at h
  · rename_i hpcb
    obtain ⟨n, hn, hest⟩ := Option.bind_eq_some_iff.mp hpcb
    exact ⟨n, Option.join_eq_some_iff.mp hn, hest, (Option.some.inj h).symm⟩
  · cases h

/-- The sender calls netconn_connect or netconn_close with a pcb, and ERR_OK
from netconn_connect means a connection. -/
def CallsWithPcb (c : Option Netconn) : SenderPc → Prop
  | .connect => ∃ n, c = some n ∧ n.pcb ≠ none ∧
      ∀ o n', netconnConnect n o = some (.ok, n') → n'.pcb = some .established
  | .close => ∃ n, c = some n ∧ n.pcb ≠ none
  | _ => True

def Recovers (s : State) : Prop :=
  ∀ (i : Nat) (pc : SenderPc) (c : Option Netconn), s.prog.senders[i]? = some pc →
    s.conns[i]? = some c → CallsWithPcb c pc

/-- The netconn has not lost its pcb. -/
def Owns (c : Option Netconn) : Prop := ∀ n ∈ c, n.pcb ≠ none

instance (c : Option Netconn) : Decidable (Owns c) := Option.decidableForallMem c

/-- The connection attempt is not refused, the connection not reset in the send
section or while it is closed, and no request found once the pcb is gone. -/
def UndisturbedAt (g : TcpEcho.Shared) (c : Option Netconn) (o : Outcome) : SenderPc → Prop
  | .poll => g.flagClient = true → Owns c
  | .connect => o = .done
  | .test => g.flagRecvSuccess = true → Owns c
  | .write _ _ | .close => o.isLost = false
  | _ => True

instance : ∀ g c o pc, Decidable (UndisturbedAt g c o pc)
  | _, _, _, .poll | _, _, _, .test => inferInstanceAs (Decidable (_ → _))
  | _, _, _, .connect | _, _, _, .write _ _ | _, _, _, .close =>
    inferInstanceAs (Decidable (_ = _))
  | _, _, _, .start | _, _, _, .newConn | _, _, _, .oldLen _ | _, _, _, .gen _ | _, _, _, .emit _ _
  | _, _, _, .bufData _ | _, _, _, .clearClient _ _ | _, _, _, .clearFlag _ _ =>
    inferInstanceAs (Decidable True)

/-- Where a reset leaves the sender with a connection that it will not use. -/
def BetweenSends : SenderPc → Bool
  | .test | .clearClient _ true | .clearFlag _ true => true
  | _ => false

def Undisturbed (s : State) : Label → Prop
  | .sender i o => ∀ pc ∈ s.prog.senders[i]?, ∀ c ∈ s.conns[i]?,
      UndisturbedAt s.prog.shared c o pc
  | .reset i _ => ∀ pc ∈ s.prog.senders[i]?, BetweenSends pc = true
  | _ => True

instance : ∀ s l, Decidable (Undisturbed s l)
  | s, .sender i o =>
    haveI : ∀ pc, Decidable (∀ c ∈ s.conns[i]?, UndisturbedAt s.prog.shared c o pc) :=
      fun _ => Option.decidableForallMem _
    Option.decidableForallMem s.prog.senders[i]?
  | s, .reset i _ => Option.decidableForallMem s.prog.senders[i]?
  | _, .recv _ | _, .echo => inferInstanceAs (Decidable True)

/-- What sendConn is at each statement. -/
def Fits (c : Option Netconn) : SenderPc → Prop
  | .start | .newConn => c = none
  | .poll => ∃ n, c = some n ∧ n.pcb ≠ some .established
  | .connect => ∃ n, c = some n ∧ n.pcb = some .closed
  | .test | .clearClient _ true | .clearFlag _ true => ∃ n, c = some n ∧ n.pcb ≠ some .closed
  | .oldLen _ | .gen _ | .emit _ _ | .bufData _ | .write _ _ | .clearClient _ false
  | .clearFlag _ false | .close => ∃ n, c = some n ∧ n.pcb = some .established

theorem Fits.callsWithPcb {c : Option Netconn} {pc : SenderPc} (h : Fits c pc) :
    CallsWithPcb c pc := by
  cases pc with
  | connect =>
    obtain ⟨n, rfl, hpcb⟩ := h
    exact ⟨n, rfl, by simp [hpcb], fun o n' hret => netconnConnect_ok hpcb hret⟩
  | close =>
    obtain ⟨n, rfl, hpcb⟩ := h
    exact ⟨n, rfl, by simp [hpcb]⟩
  | start | newConn | poll | test | oldLen k | gen k | emit k serial | bufData k | write k n
  | clearClient k e | clearFlag k e => trivial

/-- A netconn that has not lost its pcb has one of the two kinds. -/
theorem pcb_cases {n : Netconn} (howns : n.pcb ≠ none) :
    n.pcb = some .closed ∨ n.pcb = some .established := by
  obtain ⟨p, hp⟩ := Option.ne_none_iff_exists'.mp howns
  cases p with
  | closed => exact Or.inl hp
  | established => exact Or.inr hp

theorem fits_sender {g g' : TcpEcho.Shared} {c c' : Option Netconn} {o : Outcome} {ok : Bool}
    {pc pc' : SenderPc} (hfit : Fits c pc) (hok : UndisturbedAt g c o pc)
    (hcall : callNetconn c o pc = some (ok, c')) (hnext : senderNext g ok pc = some (g', pc')) :
    Fits c' pc' := by
  cases pc with
  | start =>
    cases hcall
    cases hnext
    exact hfit
  | newConn =>
    by_cases hdone : o = .done
    · simp only [callNetconn, hdone, if_true, Option.some.injEq, Prod.mk.injEq] at hcall
      obtain ⟨rfl, rfl⟩ := hcall
      cases hnext
      exact ⟨netconnNew, rfl, by decide⟩
    · simp only [callNetconn, hdone, if_false, Option.some.injEq, Prod.mk.injEq] at hcall
      obtain ⟨rfl, rfl⟩ := hcall
      cases hnext
      exact rfl
  | poll =>
    cases hcall
    obtain ⟨n, rfl, hpcb⟩ := hfit
    cases hnext
    by_cases hclient : g.flagClient = true
    · rw [if_pos hclient]
      exact ⟨n, rfl, (pcb_cases (hok hclient n rfl)).resolve_right hpcb⟩
    · rw [if_neg hclient]
      exact ⟨n, rfl, hpcb⟩
  | connect =>
    obtain ⟨n, rfl, hpcb⟩ := hfit
    have hdone : o = .done := hok
    subst hdone
    simp only [callNetconn, netconnConnect, hpcb, Option.bind_some, Option.map_some,
      Option.some.injEq, Prod.mk.injEq] at hcall
    obtain ⟨rfl, rfl⟩ := hcall
    cases hnext
    exact ⟨_, rfl, by simp⟩
  | test =>
    cases hcall
    obtain ⟨n, rfl, hpcb⟩ := hfit
    cases hnext
    by_cases hflag : g.flagRecvSuccess = true
    · rw [if_pos hflag]
      exact ⟨n, rfl, (pcb_cases (hok hflag n rfl)).resolve_left hpcb⟩
    · rw [if_neg hflag]
      exact ⟨n, rfl, hpcb⟩
  | oldLen k | bufData k | emit k serial =>
    cases hcall
    obtain ⟨r, -, heq⟩ := Option.map_eq_some_iff.mp hnext
    cases heq
    exact hfit
  | gen k =>
    cases hcall
    cases hnext
    exact hfit
  | write k n =>
    obtain ⟨m, rfl, hpcb⟩ := hfit
    have hkept := netconnWrite_pcb (c := m) hok
    simp only [callNetconn, Option.map_some, Option.some.injEq, Prod.mk.injEq] at hcall
    obtain ⟨rfl, rfl⟩ := hcall
    cases hnext
    cases decide ((netconnWrite m o).1 = .ok) with
    | true => exact ⟨_, rfl, by simp [hkept, hpcb]⟩
    | false => exact ⟨_, rfl, hkept.trans hpcb⟩
  | clearClient k e =>
    cases hcall
    cases hnext
    cases e <;> exact hfit
  | clearFlag k e =>
    cases hcall
    cases hnext
    cases e <;> exact hfit
  | close =>
    obtain ⟨n, rfl, hpcb⟩ := hfit
    cases o with
    | lost l => cases hok
    | error e => simp [callNetconn, netconnClose, hpcb] at hcall
    | done =>
      simp only [callNetconn, netconnClose, hpcb, Option.bind_some, Option.map_some,
        Option.some.injEq, Prod.mk.injEq] at hcall
      obtain ⟨rfl, rfl⟩ := hcall
      cases hnext
      exact ⟨_, rfl, by simp⟩

theorem fits_reset {pc : SenderPc} (l : Loss)
    (hbetween : BetweenSends pc = true) : Fits (some (errTcp l)) pc := by
  cases pc with
  | test => exact ⟨_, rfl, by simp [errTcp]⟩
  | clearClient k e | clearFlag k e =>
    cases e with
    | true => exact ⟨_, rfl, by simp [errTcp]⟩
    | false => cases hbetween
  | start | newConn | poll | connect | oldLen k | gen k | emit k serial | bufData k | write k n
  | close => cases hbetween

/-- Every sender has a netconn that fits the statement it is at. -/
structure Invariant (s : State) : Prop where
  length : s.conns.length = s.prog.senders.length
  fits : ∀ (i : Nat) (pc : SenderPc) (c : Option Netconn), s.prog.senders[i]? = some pc →
    s.conns[i]? = some c → Fits c pc

theorem inv_init : Invariant init := by
  refine ⟨rfl, fun i pc c hpc hc => ?_⟩
  obtain rfl := List.mem_singleton.mp (List.mem_of_getElem? hpc)
  obtain rfl := List.mem_singleton.mp (List.mem_of_getElem? hc)
  rfl

theorem inv_echo {s t : State} (hi : Invariant s) (h : step s .echo = some t) : Invariant t := by
  obtain ⟨p, hp, rfl⟩ := Option.map_eq_some_iff.mp h
  cases TcpEcho.echoStep_effect hp with
  | passed hpc | rejected hpc | setFlag hpc | setClient hpc =>
    rw [if_neg (by simp [hpc])]
    exact ⟨hi.length, hi.fits⟩
  | spawn hpc =>
    rw [if_pos hpc]
    refine ⟨by simp [hi.length], fun i pc c hpc hc => ?_⟩
    obtain hpc | ⟨heq, rfl⟩ := getElem?_append_iff.mp hpc
    · obtain hc | ⟨heq, -⟩ := getElem?_append_iff.mp hc
      · exact hi.fits i pc c hpc hc
      · have hlt := (List.getElem?_eq_some_iff.mp hpc).1
        have hlen := hi.length
        omega
    · obtain hc | ⟨-, rfl⟩ := getElem?_append_iff.mp hc
      · have hlt := (List.getElem?_eq_some_iff.mp hc).1
        have hlen := hi.length
        omega
      · rfl

theorem inv_sender {s t : State} {i : Nat} {o : Outcome} (hi : Invariant s)
    (hok : Undisturbed s (.sender i o)) (h : step s (.sender i o) = some t) : Invariant t := by
  obtain ⟨pc, c, ok, c', g, pc', hpc, hc, hcall, hnext, rfl⟩ := step_sender h
  have hfit := fits_sender (hi.fits i pc c hpc hc) (hok pc hpc c hc) hcall hnext
  refine ⟨by simp [hi.length], fun j q d hq hd => ?_⟩
  obtain ⟨rfl, rfl⟩ | ⟨hj, hq⟩ := (getElem?_set_iff hpc).mp hq
  · obtain ⟨-, rfl⟩ | ⟨hne, -⟩ := (getElem?_set_iff hc).mp hd
    · exact hfit
    · exact absurd rfl hne
  · obtain ⟨rfl, -⟩ | ⟨-, hd⟩ := (getElem?_set_iff hc).mp hd
    · exact absurd rfl hj
    · exact hi.fits j q d hq hd

theorem inv_reset {s t : State} {i : Nat} {l : Loss} (hi : Invariant s)
    (hok : Undisturbed s (.reset i l)) (h : step s (.reset i l) = some t) : Invariant t := by
  obtain ⟨n, hc, -, rfl⟩ := step_reset h
  refine ⟨by simp [hi.length], fun j q d hq hd => ?_⟩
  obtain ⟨rfl, rfl⟩ | ⟨-, hd⟩ := (getElem?_set_iff hc).mp hd
  · exact fits_reset l (hok q hq)
  · exact hi.fits j q d hq hd

theorem inv_step (s : State) (l : Label) (t : State) (hi : Invariant s) (hok : Undisturbed s l)
    (h : step s l = some t) : Invariant t := by
  cases l with
  | recv data =>
    obtain ⟨p, hp, rfl⟩ := Option.map_eq_some_iff.mp h
    obtain ⟨v, -, -, rfl⟩ := TcpEcho.recvStep_eq_some hp
    exact ⟨hi.length, hi.fits⟩
  | echo => exact inv_echo hi h
  | sender i o => exact inv_sender hi hok h
  | reset i l => exact inv_reset hi hok h

/-- In a run without such disturbances every call of netconn_connect and
netconn_close is made with a pcb. -/
theorem undisturbed_recovers (ls : List Label) (s : State)
    (hok : Steps step Undisturbed init ls) (h : exec step init ls = some s) : Recovers s :=
  fun i pc c hpc hc =>
    ((exec_invariant inv_step inv_init hok h).fits i pc c hpc hc).callsWithPcb

/-- The sender repeats netconn_connect or netconn_close without a pcb. -/
def Retries (i : Nat) (s : State) : Prop :=
  ∃ n pc, s.prog.senders[i]? = some pc ∧ s.conns[i]? = some (some n) ∧ n.pcb = none ∧
    (pc = .close ∨ (pc = .connect ∧ n.err ≠ .ok))

theorem callNetconn_retry {n : Netconn} {o : Outcome} {pc : SenderPc} {ok : Bool}
    {c : Option Netconn} (hpcb : n.pcb = none) (hpc : pc = .close ∨ (pc = .connect ∧ n.err ≠ .ok))
    (h : callNetconn (some n) o pc = some (ok, c)) :
    ok = false ∧ ∃ m, c = some m ∧ m.pcb = none ∧ m.err ≠ .ok := by
  obtain rfl | ⟨rfl, herr⟩ := hpc
  · simp only [callNetconn, netconnClose_none hpcb, Option.bind_some, Option.map_some,
      Option.some.injEq, Prod.mk.injEq] at h
    obtain ⟨rfl, rfl⟩ := h
    exact ⟨rfl, _, rfl, rfl, by decide⟩
  · simp only [callNetconn, netconnConnect, hpcb, Option.bind_some, Option.map_some,
      Option.some.injEq, Prod.mk.injEq] at h
    obtain ⟨rfl, rfl⟩ := h
    exact ⟨by simp [herr], n, rfl, hpcb, herr⟩

theorem step_retries {i : Nat} {s t : State} {l : Label} (hr : Retries i s)
    (h : step s l = some t) : Retries i t := by
  obtain ⟨n, pc, hpc, hc, hpcb, hwhere⟩ := hr
  cases l with
  | recv data =>
    obtain ⟨p, hp, rfl⟩ := Option.map_eq_some_iff.mp h
    obtain ⟨v, -, -, rfl⟩ := TcpEcho.recvStep_eq_some hp
    exact ⟨n, pc, hpc, hc, hpcb, hwhere⟩
  | echo =>
    obtain ⟨p, hp, rfl⟩ := Option.map_eq_some_iff.mp h
    refine ⟨n, pc, ?_, ?_, hpcb, hwhere⟩
    · obtain hsame | happend := (TcpEcho.echoStep_effect hp).senders
      · exact hsame ▸ hpc
      · exact happend ▸ getElem?_append_iff.mpr (Or.inl hpc)
    · dsimp only
      split
      · exact getElem?_append_iff.mpr (Or.inl hc)
      · exact hc
  | sender j o =>
    obtain ⟨q, d, ok, d', g, q', hq, hd, hcall, hnext, rfl⟩ := step_sender h
    by_cases hij : i = j
    · subst hij
      rw [hpc] at hq
      rw [hc] at hd
      cases hq
      cases hd
      obtain ⟨rfl, m, rfl, hm, herr⟩ := callNetconn_retry hpcb hwhere hcall
      refine ⟨m, pc, ?_, (getElem?_set_iff hc).mpr (Or.inl ⟨rfl, rfl⟩), hm, ?_⟩
      · have hstay : q' = pc := by
          obtain rfl | ⟨rfl, -⟩ := hwhere <;> cases hnext <;> rfl
        exact (getElem?_set_iff hpc).mpr (Or.inl ⟨rfl, hstay.symm⟩)
      · exact hwhere.imp_right fun hconnect => ⟨hconnect.1, herr⟩
    · exact ⟨n, pc, (getElem?_set_iff hq).mpr (Or.inr ⟨hij, hpc⟩),
        (getElem?_set_iff hd).mpr (Or.inr ⟨hij, hc⟩), hpcb, hwhere⟩
  | reset j l =>
    obtain ⟨m, hmc, hest, rfl⟩ := step_reset h
    by_cases hij : i = j
    · subst hij
      rw [hc] at hmc
      cases hmc
      rw [hpcb] at hest
      cases hest
    · exact ⟨n, pc, hpc, (getElem?_set_iff hmc).mpr (Or.inr ⟨hij, hc⟩), hpcb, hwhere⟩

/-- Such a loop is never left. -/
theorem retries_forever {i : Nat} {s t : State} {ls : List Label} (hr : Retries i s)
    (h : exec step s ls = some t) : Retries i t :=
  exec_keeps (fun _ _ _ hr hstep => step_retries hr hstep) hr h

def senderSteps (i n : Nat) : List Label := List.replicate n (.sender i .done)

def request (data : Text) : List Label := [.recv data, .echo, .echo, .echo, .echo]

/-- One serial is reported, and then the peer resets the connection. -/
def oneReport : List Label :=
  senderSteps 0 2 ++ request (lit "5\n") ++ senderSteps 0 10 ++ [.reset 0 .rst] ++ senderSteps 0 1

theorem undisturbed_recovers_oneReport :
    ∃ s, exec step init oneReport = some s ∧ s.prog.shared.wire.length = 1 ∧ Recovers s := by
  have hrun : ∃ s, exec step init oneReport = some s ∧ s.prog.shared.wire.length = 1 := by
    decide +kernel
  obtain ⟨s, hs, hlen⟩ := hrun
  exact ⟨s, hs, hlen, undisturbed_recovers oneReport s (by decide +kernel) hs⟩

/-- The first connection attempt is refused: it is repeated without a pcb. -/
def refused : List Label :=
  senderSteps 0 2 ++ request (lit "5\n") ++ senderSteps 0 1 ++ [.sender 0 (.lost .rst)]

/-- The write fails, the connection is closed, and the next request makes the
sender connect without a pcb. -/
def reconnect : List Label :=
  senderSteps 0 2 ++ request (lit "5\n") ++ senderSteps 0 7 ++ [.sender 0 (.error .conn)] ++
    senderSteps 0 3 ++ request (lit "6\n") ++ senderSteps 0 1

/-- Then netconn_connect reports ERR_OK where there is no connection. -/
theorem reconnect_without_pcb :
    (∃ s, exec step init refused = some s ∧ ¬ Recovers s) ∧
      ∃ s n, exec step init reconnect = some s ∧ s.prog.senders[0]? = some .connect ∧
        s.conns[0]? = some (some n) ∧ n.pcb = none ∧ netconnConnect n .done = some (.ok, n) := by
  have hrefused : ∃ s, exec step init refused = some s ∧
      s.prog.senders[0]? = some .connect ∧ s.conns[0]? = some (some ⟨none, .rst⟩) := by
    decide +kernel
  have hreconnect : ∃ s, exec step init reconnect = some s ∧
      s.prog.senders[0]? = some .connect ∧ s.conns[0]? = some (some ⟨none, .ok⟩) := by
    decide +kernel
  obtain ⟨s, hs, hpc, hc⟩ := hrefused
  obtain ⟨t, ht, hpc', hc'⟩ := hreconnect
  refine ⟨⟨s, hs, fun hrec => ?_⟩, t, _, ht, hpc', hc', rfl, rfl⟩
  obtain ⟨n, heq, hpcb, -⟩ := hrec 0 _ _ hpc hc
  cases heq
  exact hpcb rfl

end PopcornFirmware.FreeRTOS.SenderNetconn
