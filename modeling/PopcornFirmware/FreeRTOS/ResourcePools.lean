import PopcornFirmware.FreeRTOS.TcpEcho

namespace PopcornFirmware.FreeRTOS.ResourcePools

open PopcornFirmware.Lib.CText PopcornFirmware.Lib.Runs
open PopcornFirmware.FreeRTOS.TcpEcho (SenderPc recvStep echoStep senderStep senderNext
  recvStep_eq_some echoStep_effect
  senderStep_eq_some)

def mempNumNetconn : Nat := 4

def sysThreadMax : Nat := 6

/-- The threads, and the pools that they draw from. -/
structure State where
  prog : TcpEcho.State
  -- s_nextthread
  nextThread : Nat
  -- the netconns of peers that tcpecho_thread has not yet deleted
  peers : Nat
  deriving DecidableEq

/-- tcpip_thread, tcpecho_thread and the first sender have an entry in the
table of threads. -/
def init : State := ⟨TcpEcho.init, 3, 0⟩

/-- netconn_new has returned a netconn, which no sender ever deletes. -/
def hasNetconn : SenderPc → Bool
  | .start | .newConn => false
  | _ => true

def senderNetconns (s : State) : Nat := s.prog.senders.countP hasNetconn

/-- The netconns in use, with the one that tcpecho_thread listens on. -/
def used (s : State) : Nat := 1 + s.peers + senderNetconns s

/-- A peer connects or is closed and deleted, tcpecho_thread takes data of a
peer or goes on, or a sender goes on. Every connect, write and close succeeds. -/
inductive Label where
  | accept
  | close
  | recv (data : Text)
  | echo
  | sender (i : Nat)
  deriving DecidableEq

/-- sys_thread_new on behalf of a step that leads to p: without a free entry in
the table there is no new thread. -/
def sysThreadNew (s : State) (p : TcpEcho.State) : State :=
  if s.nextThread < sysThreadMax then ⟨p, s.nextThread + 1, s.peers⟩
  else ⟨{ p with senders := s.prog.senders }, s.nextThread, s.peers⟩

def step (s : State) : Label → Option State
  -- accept_function turns the peer away when there is no netconn for it
  | .accept => some (if used s < mempNumNetconn then { s with peers := s.peers + 1 } else s)
  | .close =>
    if s.prog.echo = .recv ∧ 0 < s.peers then some { s with peers := s.peers - 1 } else none
  | .recv data =>
    if 0 < s.peers then (recvStep s.prog data).map fun p => { s with prog := p } else none
  | .echo => (echoStep s.prog).map fun p =>
      if s.prog.echo = .spawn then sysThreadNew s p else { s with prog := p }
  | .sender i =>
    let ok := s.prog.senders[i]? ≠ some .newConn || used s < mempNumNetconn
    (senderStep s.prog i ok).map fun p => { s with prog := p }

/-- Nothing is announced to the senders. -/
def Idle (s : State) : Prop :=
  s.prog.echo = .recv ∧ s.prog.shared.flagRecvSuccess = false ∧ s.prog.shared.flagClient = false

instance (s : State) : Decidable (Idle s) := inferInstanceAs (Decidable (_ ∧ _))

/-- A netconn is free for the next peer, and the senders take up neither pool. -/
def Roomy (s : State) : Prop :=
  used s < mempNumNetconn ∧ senderNetconns s < mempNumNetconn ∧
    s.prog.senders.length < sysThreadMax

instance (s : State) : Decidable (Roomy s) := inferInstanceAs (Decidable (_ ∧ _))

/-- Without a peer and a pending request tcpecho_thread can accept. -/
def CanAccept (s : State) : Prop := s.peers = 0 → Idle s → Roomy s

instance (s : State) : Decidable (CanAccept s) := inferInstanceAs (Decidable (_ → _))

section Sender

variable {g g' : TcpEcho.Shared} {ok : Bool} {pc pc' : SenderPc}

theorem senderNext_accepted (h : senderNext g ok pc = some (g', pc')) :
    g'.accepted = g.accepted := by
  cases pc with
  | oldLen k | bufData k | emit k serial =>
    obtain ⟨r, -, heq⟩ := Option.map_eq_some_iff.mp h
    cases heq
    rfl
  | start | newConn | poll | connect | test | gen k | write k n | clearClient k e
  | clearFlag k e | close =>
    cases h
    rfl

theorem hasNetconn_mono (h : senderNext g ok pc = some (g', pc')) (hpc : hasNetconn pc = true) :
    hasNetconn pc' = true := by
  cases pc with
  | start | newConn => cases hpc
  | oldLen k | bufData k | emit k serial =>
    obtain ⟨r, -, heq⟩ := Option.map_eq_some_iff.mp h
    cases heq
    rfl
  | gen k | write k n | clearClient k e =>
    cases h
    rfl
  | poll | connect | test | clearFlag k e | close =>
    cases h
    split <;> rfl

end Sender

/-- There is a thread for every entry, and every accepted serial has taken an
entry while there were any. -/
structure Invariant (s : State) : Prop where
  senders : s.nextThread = s.prog.senders.length + 2
  accepted : s.nextThread = min (s.prog.shared.accepted.length + 3) sysThreadMax

theorem inv_init : Invariant init := ⟨rfl, rfl⟩

theorem Invariant.frame {s t : State} (hi : Invariant s) (hthread : t.nextThread = s.nextThread)
    (hsenders : t.prog.senders.length = s.prog.senders.length)
    (haccepted : t.prog.shared.accepted = s.prog.shared.accepted) : Invariant t :=
  ⟨by rw [hthread, hsenders, hi.senders], by rw [hthread, haccepted, hi.accepted]⟩

theorem inv_spawn {s : State} (hi : Invariant s) : Invariant (sysThreadNew s
    ⟨{ s.prog.shared with accepted := s.prog.shared.accepted ++ [s.prog.shared.recvSerial] },
      .recv, s.prog.senders ++ [.start]⟩) := by
  have hs := hi.senders
  have ha := hi.accepted
  unfold sysThreadNew
  split
  · rename_i hlt
    constructor
    · simp only [List.length_append, List.length_singleton]
      omega
    · simp only [List.length_append, List.length_singleton]
      omega
  · rename_i hlt
    constructor
    · exact hs
    · simp only [List.length_append, List.length_singleton]
      omega

theorem inv_step (s : State) (l : Label) (t : State) (hi : Invariant s)
    (h : step s l = some t) : Invariant t := by
  cases l with
  | accept =>
    simp only [step, Option.some.injEq] at h
    subst h
    split <;> exact hi.frame rfl rfl rfl
  | close =>
    simp only [step] at h
    split at h
    · cases h
      exact hi.frame rfl rfl rfl
    · cases h
  | recv data =>
    simp only [step] at h
    split at h
    · obtain ⟨p, hp, rfl⟩ := Option.map_eq_some_iff.mp h
      obtain ⟨v, -, -, rfl⟩ := recvStep_eq_some hp
      exact hi.frame rfl rfl rfl
    · cases h
  | echo =>
    obtain ⟨p, hp, rfl⟩ := Option.map_eq_some_iff.mp h
    cases echoStep_effect hp with
    | passed hpc | rejected hpc | setFlag hpc | setClient hpc =>
      rw [if_neg (by simp [hpc])]
      exact hi.frame rfl rfl rfl
    | spawn hpc =>
      rw [if_pos hpc]
      exact inv_spawn hi
  | sender i =>
    obtain ⟨p, hp, rfl⟩ := Option.map_eq_some_iff.mp h
    obtain ⟨pc, g, pc', -, hnext, rfl⟩ := senderStep_eq_some hp
    exact hi.frame rfl (List.length_set ..) (senderNext_accepted hnext)

theorem invariant_of_exec {ls : List Label} {s : State} (h : exec step init ls = some s) :
    Invariant s :=
  exec_keeps inv_step inv_init h

/-- As long as at most one serial has been accepted. -/
theorem roomy_of_accepted {s : State} (hi : Invariant s) (hpeers : s.peers = 0)
    (haccepted : s.prog.shared.accepted.length ≤ 1) : Roomy s := by
  have hs := hi.senders
  have ha := hi.accepted
  have hcount : senderNetconns s ≤ s.prog.senders.length := List.countP_le_length
  simp only [Roomy, used, mempNumNetconn, sysThreadMax] at ha ⊢
  omega

section Exhaustion

variable {s : State} {i : Nat}

theorem step_start (hpc : s.prog.senders[i]? = some .start) :
    step s (.sender i) = some { s with prog := { s.prog with
      shared := { s.prog.shared with flagClient := false }
      senders := s.prog.senders.set i .newConn } } := by
  simp [step, senderStep, hpc, senderNext]

theorem step_newConn (hpc : s.prog.senders[i]? = some .newConn)
    (hfree : used s < mempNumNetconn) :
    step s (.sender i) = some { s with prog := { s.prog with
      senders := s.prog.senders.set i .poll } } := by
  simp [step, senderStep, hpc, senderNext, hfree]

theorem countP_set_of_not {pc pc' : SenderPc} {senders : List SenderPc}
    (hpc : senders[i]? = some pc) (hnot : hasNetconn pc = false) :
    (senders.set i pc').countP hasNetconn =
      senders.countP hasNetconn + if hasNetconn pc' then 1 else 0 := by
  obtain ⟨hlt, hget⟩ := List.getElem?_eq_some_iff.mp hpc
  simp [List.countP_set hlt, hget, hnot]

/-- A sender that waits for a netconn gets one when there is one. -/
theorem serve_newConn (hidle : Idle s) (hpc : s.prog.senders[i]? = some .newConn)
    (hfree : used s < mempNumNetconn) :
    ∃ t, step s (.sender i) = some t ∧ Idle t ∧ t.peers = s.peers ∧
      t.prog.senders.length = s.prog.senders.length ∧
      senderNetconns t = senderNetconns s + 1 :=
  ⟨_, step_newConn hpc hfree, hidle, rfl, List.length_set .., countP_set_of_not hpc rfl⟩

theorem serve_one (hidle : Idle s) (hfree : used s < mempNumNetconn)
    (hmore : senderNetconns s < s.prog.senders.length) :
    ∃ (is : List Nat) (t : State), exec step s (is.map .sender) = some t ∧ Idle t ∧
      t.peers = s.peers ∧ t.prog.senders.length = s.prog.senders.length ∧
      senderNetconns t = senderNetconns s + 1 := by
  have hexists : ∃ pc ∈ s.prog.senders, hasNetconn pc = false := by
    by_contra hall
    push Not at hall
    have heq : senderNetconns s = s.prog.senders.length :=
      List.countP_eq_length.mpr fun pc hpc => by simpa using hall pc hpc
    omega
  obtain ⟨pc, hmem, hnot⟩ := hexists
  obtain ⟨i, hpc⟩ := List.mem_iff_getElem?.mp hmem
  cases pc with
  | start =>
    have hstart := step_start hpc
    have hlt : i < s.prog.senders.length := (List.getElem?_eq_some_iff.mp hpc).1
    have hset : (s.prog.senders.set i .newConn)[i]? = some SenderPc.newConn := by simp [hlt]
    have hcount : (s.prog.senders.set i .newConn).countP hasNetconn = senderNetconns s :=
      countP_set_of_not hpc rfl
    obtain ⟨t, ht, hidle', hpeers, hlen, hserved⟩ := serve_newConn
      (s := { s with prog := { s.prog with
        shared := { s.prog.shared with flagClient := false }
        senders := s.prog.senders.set i .newConn } })
      ⟨hidle.1, hidle.2.1, rfl⟩ hset (by simpa only [used, senderNetconns, hcount] using hfree)
    refine ⟨[i, i], t, ?_, hidle', hpeers, hlen.trans (List.length_set ..), ?_⟩
    · rw [List.map_cons, List.map_singleton, exec_cons hstart, exec_cons ht, exec_nil]
    · rw [hserved, senderNetconns, hcount]
  | newConn =>
    obtain ⟨t, ht, hrest⟩ := serve_newConn hidle hpc hfree
    exact ⟨[i], t, by rw [List.map_singleton, exec_cons ht, exec_nil], hrest⟩
  | poll | connect | test | oldLen k | gen k | emit k serial | bufData k | write k n
  | clearClient k e | clearFlag k e | close => cases hnot

theorem exists_exhausted (n : Nat) (hidle : Idle s) (hpeers : s.peers = 0)
    (hsenders : 3 ≤ s.prog.senders.length) (hn : mempNumNetconn ≤ used s + n) :
    ∃ (is : List Nat) (t : State), exec step s (is.map .sender) = some t ∧ Idle t ∧ t.peers = 0 ∧
      mempNumNetconn ≤ used t := by
  induction n generalizing s with
  | zero => exact ⟨[], s, rfl, hidle, hpeers, hn⟩
  | succ n ih =>
    by_cases hfree : used s < mempNumNetconn
    · have hmore : senderNetconns s < s.prog.senders.length := by
        simp only [used, mempNumNetconn] at hfree
        omega
      obtain ⟨is, t, ht, hidle', hpeers', hlen, hcount⟩ := serve_one hidle hfree hmore
      have hmeasure : mempNumNetconn ≤ used t + n := by
        simp only [used] at hn ⊢
        omega
      obtain ⟨js, u, hu, hrest⟩ := ih hidle' (hpeers'.trans hpeers) (hlen ▸ hsenders) hmeasure
      exact ⟨is ++ js, u, by rw [List.map_append, exec_append ht, hu], hrest⟩
    · exact ⟨[], s, rfl, hidle, hpeers, not_lt.mp hfree⟩

theorem step_senderNetconns {l : Label} {t : State} (h : step s l = some t) :
    senderNetconns s ≤ senderNetconns t := by
  cases l with
  | accept =>
    simp only [step, Option.some.injEq] at h
    subst h
    split <;> exact le_rfl
  | close =>
    simp only [step] at h
    split at h <;> cases h
    exact le_rfl
  | recv data =>
    simp only [step] at h
    split at h
    · obtain ⟨p, hp, rfl⟩ := Option.map_eq_some_iff.mp h
      obtain ⟨v, -, -, rfl⟩ := recvStep_eq_some hp
      exact le_rfl
    · cases h
  | echo =>
    obtain ⟨p, hp, rfl⟩ := Option.map_eq_some_iff.mp h
    have hgrow : s.prog.senders.countP hasNetconn ≤ p.senders.countP hasNetconn := by
      obtain hsame | happend := (echoStep_effect hp).senders
      · rw [hsame]
      · rw [happend, List.countP_append]
        exact Nat.le_add_right ..
    unfold sysThreadNew
    split
    · split
      · exact hgrow
      · exact le_rfl
    · exact hgrow
  | sender j =>
    obtain ⟨p, hp, rfl⟩ := Option.map_eq_some_iff.mp h
    obtain ⟨pc, g, pc', hpc, hnext, rfl⟩ := senderStep_eq_some hp
    obtain ⟨hlt, hget⟩ := List.getElem?_eq_some_iff.mp hpc
    simp only [senderNetconns, List.countP_set hlt, hget]
    cases hnet : hasNetconn pc with
    | false => exact Nat.le_add_right ..
    | true =>
      simp only [hasNetconn_mono hnext hnet, if_true]
      omega

/-- Once the senders hold all netconns but one, no peer is ever accepted again. -/
theorem exhausted_forever {ls : List Label} {t : State} (hpeers : s.peers = 0)
    (hfull : mempNumNetconn ≤ used s) (h : exec step s ls = some t) : ¬ Roomy t := by
  have hmono : senderNetconns s ≤ senderNetconns t :=
    exec_keeps (P := fun u => senderNetconns s ≤ senderNetconns u)
      (fun _ _ _ hle hstep => hle.trans (step_senderNetconns hstep)) le_rfl h
  rintro ⟨hroom, -, -⟩
  simp only [used] at hfull hroom
  omega

end Exhaustion

theorem accepted_of_senders {s t : State} {is : List Nat}
    (h : exec step s (is.map .sender) = some t) :
    t.prog.shared.accepted = s.prog.shared.accepted := by
  induction is generalizing s with
  | nil =>
    cases h
    rfl
  | cons i is ih =>
    obtain ⟨u, hu, ht⟩ := Option.bind_eq_some_iff.mp h
    obtain ⟨p, hp, rfl⟩ := Option.map_eq_some_iff.mp hu
    obtain ⟨pc, g, pc', -, hnext, rfl⟩ := senderStep_eq_some hp
    rw [ih ht]
    exact senderNext_accepted hnext

/-- Without a peer and a pending request the pools stay large enough, however
far the senders go on, exactly when at most one serial has been accepted. -/
theorem canAccept_iff (ls : List Label) (s : State) (h : exec step init ls = some s)
    (hpeers : s.peers = 0) (hidle : Idle s) :
    (∀ (is : List Nat) (t : State), exec step s (is.map .sender) = some t → CanAccept t) ↔
      s.prog.shared.accepted.length ≤ 1 := by
  have hi := invariant_of_exec h
  constructor
  · intro hall
    by_contra hmany
    have hsenders : 3 ≤ s.prog.senders.length := by
      have hs := hi.senders
      have ha := hi.accepted
      simp only [sysThreadMax] at ha
      omega
    obtain ⟨is, t, ht, hidle', hpeers', hfull⟩ := exists_exhausted mempNumNetconn hidle hpeers
      hsenders (Nat.le_add_left ..)
    exact not_lt.mpr hfull (hall is t ht hpeers' hidle').1
  · intro haccepted is t ht hpeers' _
    have hrun : exec step init (ls ++ is.map .sender) = some t := by rw [exec_append h, ht]
    have hi' : Invariant t := invariant_of_exec hrun
    exact roomy_of_accepted hi' hpeers' (accepted_of_senders ht ▸ haccepted)

/-- A peer is accepted, sends a serial and leaves. -/
def visit (data : Text) : List Label := [.accept, .recv data, .echo, .echo, .echo, .echo, .close]

def senderSteps (i n : Nat) : List Label := List.replicate n (.sender i)

/-- The first sender reports the serial, and the thread created for it gets a
netconn. -/
def oneVisit : List Label :=
  senderSteps 0 2 ++ visit (lit "5\n") ++ senderSteps 0 10 ++ senderSteps 1 2

theorem canAccept_iff_oneVisit :
    ∃ s, exec step init oneVisit = some s ∧ used s = 3 ∧
      ((∀ (is : List Nat) (t : State), exec step s (is.map .sender) = some t → CanAccept t) ↔
        s.prog.shared.accepted.length ≤ 1) := by
  have hrun : ∃ s, exec step init oneVisit = some s ∧ s.peers = 0 ∧ Idle s ∧ used s = 3 := by
    decide +kernel
  obtain ⟨s, hs, hpeers, hidle, hused⟩ := hrun
  exact ⟨s, hs, hused, canAccept_iff oneVisit s hs hpeers hidle⟩

/-- With the thread created for a second serial the last netconn is gone. -/
def twoVisits : List Label :=
  oneVisit ++ visit (lit "6\n") ++ senderSteps 0 8 ++ senderSteps 2 2

theorem twoVisits_exhausted :
    ∃ s, exec step init twoVisits = some s ∧ s.prog.shared.accepted = [5, 6] ∧
      ¬ CanAccept s := by
  decide +kernel

end PopcornFirmware.FreeRTOS.ResourcePools
