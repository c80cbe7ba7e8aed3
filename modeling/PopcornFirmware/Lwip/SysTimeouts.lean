import Mathlib.Data.Nat.ModEq
import PopcornFirmware.Lib.DeltaList
import PopcornFirmware.Lib.Runs

namespace PopcornFirmware.Lwip.SysTimeouts

open PopcornFirmware.Lib.DeltaList PopcornFirmware.Lib.Runs

section Model

/-- What a timeout calls. The serial number is a record of which sys_timeout
call it comes from, which no function looks at. -/
structure Call (H A : Type*) where
  h : H
  arg : A
  serial : Nat
  deriving DecidableEq

abbrev SysTimeo (H A : Type*) := Entry (Call H A)

variable {H A : Type*}

/-- The loop of sys_timeout. The timeout comes somewhere behind t. -/
def sysTimeoutLoop : SysTimeo H A → SysTimeo H A → List (SysTimeo H A) → List (SysTimeo H A)
  | timeout, t, [] => [t, { timeout with time := timeout.time - t.time }]
  | timeout, t, n :: rest =>
    if n.time > timeout.time - t.time then
      t :: { timeout with time := timeout.time - t.time } ::
        { n with time := n.time - (timeout.time - t.time) } :: rest
    else t :: sysTimeoutLoop { timeout with time := timeout.time - t.time } n rest

def sysTimeout (msecs : Nat) (call : Call H A) : List (SysTimeo H A) → List (SysTimeo H A)
  | [] => [⟨msecs, call⟩]
  | next :: rest =>
    if next.time > msecs then
      ⟨msecs, call⟩ :: { next with time := next.time - msecs } :: rest
    else sysTimeoutLoop ⟨msecs, call⟩ next rest

/-- A round of sys_mbox_fetch, with the time until a message came, or none when
no message came in time. The result has what is called at the end of it. -/
def sysMboxFetch (answer : Option Nat) :
    List (SysTimeo H A) → Option (Call H A) × List (SysTimeo H A)
  | [] => (none, [])
  | next :: rest =>
    match if next.time > 0 then answer else none with
    | none => (some next.val, rest)
    | some timeNeeded =>
      (none, { next with
        time := if timeNeeded < next.time then next.time - timeNeeded else 0 } :: rest)

/-- How much of the time that a round takes the timeouts take note of. -/
def counted (answer : Option Nat) : List (SysTimeo H A) → Nat
  | [] => 0
  | next :: _ => answer.elim next.time (min next.time)

/-- The timeouts of a thread, the time that it has spent waiting as far as they
take note of it, and records of the timeouts that were ever set, of those called
with the time of the call, and of those removed. The records have the time each
timeout is due. -/
structure State (H A : Type*) where
  timeouts : List (SysTimeo H A)
  clock : Nat
  armed : List (Nat × Call H A)
  fired : List (Nat × Call H A)
  removed : List (Nat × Call H A)

def init : State H A := ⟨[], 0, [], [], []⟩

inductive Label (H A : Type*)
  | timeout (msecs : Nat) (h : H) (arg : A) (alloc : Bool)
  | untimeout (h : H) (arg : A)
  | fetch (answer : Option Nat)

/-- The times are of type u32_t. -/
def InRange : Label H A → Prop
  | .timeout msecs _ _ _ => msecs < 2 ^ 32
  | _ => True

instance : DecidablePred (InRange : Label H A → Prop)
  | .timeout _ _ _ _ => inferInstanceAs (Decidable (_ < _))
  | .untimeout _ _ | .fetch _ => inferInstanceAs (Decidable True)

def State.timeout (s : State H A) (msecs : Nat) (h : H) (arg : A) : State H A :=
  { s with
    timeouts := sysTimeout msecs ⟨h, arg, s.armed.length⟩ s.timeouts
    armed := s.armed ++ [(s.clock + msecs, ⟨h, arg, s.armed.length⟩)] }

def State.fetch (s : State H A) (answer : Option Nat) : State H A :=
  let clock := s.clock + counted answer s.timeouts
  { s with
    timeouts := (sysMboxFetch answer s.timeouts).2
    clock := clock
    fired := s.fired ++ ((sysMboxFetch answer s.timeouts).1.map (Prod.mk clock)).toList }

/-- The time of a timeout that is unlinked is added back to the one behind it. -/
def addBack (t : SysTimeo H A) : List (SysTimeo H A) → List (SysTimeo H A)
  | [] => []
  | n :: rest => { n with time := (n.time + t.time) % 2 ^ 32 } :: rest

variable [DecidableEq H] [DecidableEq A]

def sysUntimeout (h : H) (arg : A) : List (SysTimeo H A) → List (SysTimeo H A)
  | [] => []
  | t :: rest =>
    if t.val.h = h ∧ t.val.arg = arg then addBack t rest else t :: sysUntimeout h arg rest

def State.untimeout (s : State H A) (h : H) (arg : A) : State H A :=
  { s with
    timeouts := sysUntimeout h arg s.timeouts
    removed := s.removed ++ ((dues s.clock s.timeouts).find? fun x =>
      decide (x.2.h = h ∧ x.2.arg = arg)).toList }

/-- Without timeouts a thread waits until a message comes. -/
def step (s : State H A) : Label H A → Option (State H A)
  | .timeout msecs h arg alloc => some (if alloc then s.timeout msecs h arg else s)
  | .untimeout h arg => some (s.untimeout h arg)
  | .fetch answer => if s.timeouts = [] ∧ answer = none then none else some (s.fetch answer)

/-- Three timers, of which one is removed. -/
def timers : List (Label Nat Nat) :=
  [.timeout 1000 1 0 true, .timeout 250 2 0 true, .fetch (some 100), .timeout 150 3 0 true,
    .timeout 500 4 0 true, .untimeout 4 0, .fetch none, .fetch (some 20), .fetch none,
    .fetch (some 300)]

end Model

variable {H A : Type*}

section Lists

variable {l : List (SysTimeo H A)} {c : Nat}

theorem sysTimeoutLoop_eq (timeout t : SysTimeo H A) (ht : t.time ≤ timeout.time) :
    sysTimeoutLoop timeout t l = insertEntry timeout (t :: l) := by
  induction l generalizing timeout t with
  | nil =>
    rw [sysTimeoutLoop, insertEntry, if_neg (Nat.not_lt.mpr ht)]
    rfl
  | cons n l ih =>
    rw [sysTimeoutLoop, insertEntry, if_neg (Nat.not_lt.mpr ht)]
    by_cases hn : n.time > timeout.time - t.time
    · rw [if_pos hn, insertEntry, if_pos hn]
    · rw [if_neg hn, ih _ _ (Nat.le_of_not_lt hn)]

theorem sysTimeout_eq (msecs : Nat) (call : Call H A) :
    sysTimeout msecs call l = insertEntry ⟨msecs, call⟩ l := by
  cases l with
  | nil => rfl
  | cons next rest =>
    rw [sysTimeout]
    by_cases hnext : next.time > msecs
    · rw [if_pos hnext, insertEntry, if_pos hnext]
    · rw [if_neg hnext]
      exact sysTimeoutLoop_eq _ _ (Nat.le_of_not_lt hnext)

/-- What is added back does not overflow. -/
theorem sysUntimeout_eq [DecidableEq H] [DecidableEq A] (h : H) (arg : A) (hsoon : ∀ x ∈ dues c l, x.1 < c + 2 ^ 32) :
    sysUntimeout h arg l = eraseEntry (fun v => decide (v.h = h ∧ v.arg = arg)) l := by
  induction l generalizing c with
  | nil => rfl
  | cons t rest ih =>
    rw [dues, List.forall_mem_cons] at hsoon
    obtain ⟨-, hrest⟩ := hsoon
    rw [sysUntimeout, eraseEntry]
    by_cases hmatch : t.val.h = h ∧ t.val.arg = arg
    · rw [if_pos hmatch, if_pos (decide_eq_true hmatch)]
      cases rest with
      | nil => rfl
      | cons n rest =>
        rw [dues, List.forall_mem_cons] at hrest
        have hn := hrest.1
        dsimp only at hn
        rw [addBack, addTime, Nat.mod_eq_of_lt (by omega)]
    · rw [if_neg hmatch, if_neg (by simpa using hmatch)]
      rw [ih (c := c + t.time) fun x hx => Nat.lt_of_lt_of_le (hrest x hx) (by omega)]

end Lists

section Invariant

/-- The order in which timeouts are called. -/
def Earlier (x y : Nat × Call H A) : Prop := x.1 < y.1 ∨ x.1 = y.1 ∧ x.2.serial < y.2.serial

/-- Every timeout that was set is pending, or was removed, or was called when
it was due. -/
structure Ok (s : State H A) : Prop where
  ledger : s.armed.Perm (s.fired ++ s.removed ++ dues s.clock s.timeouts)
  order : (s.fired ++ dues s.clock s.timeouts).Pairwise Earlier
  fired_le : ∀ x ∈ s.fired, x.1 ≤ s.clock
  soon : ∀ x ∈ dues s.clock s.timeouts, x.1 < s.clock + 2 ^ 32
  serial_lt : ∀ x ∈ s.armed, x.2.serial < s.armed.length

variable {s t : State H A}

theorem init_ok : Ok (init : State H A) :=
  ⟨List.Perm.refl _, List.Pairwise.nil, by simp [init], by simp [init, dues], by simp [init]⟩

theorem Ok.serial_lt_of_due (h : Ok s) {x : Nat × Call H A}
    (hx : x ∈ s.fired ∨ x ∈ dues s.clock s.timeouts) : x.2.serial < s.armed.length := by
  apply h.serial_lt
  apply h.ledger.mem_iff.mpr
  obtain hx | hx := hx
  · exact List.mem_append_left _ (List.mem_append_left _ hx)
  · exact List.mem_append_right _ hx

theorem Earlier.le {x y : Nat × Call H A} (h : Earlier x y) : x.1 ≤ y.1 :=
  h.elim le_of_lt fun h => h.1.le

theorem timeout_dues (s : State H A) (msecs : Nat) (f : H) (arg : A) :
    dues (s.timeout msecs f arg).clock (s.timeout msecs f arg).timeouts =
      insertDue (s.clock + msecs, ⟨f, arg, s.armed.length⟩) (dues s.clock s.timeouts) := by
  unfold State.timeout
  dsimp only
  rw [sysTimeout_eq, dues_insertEntry]

theorem timeout_ok (h : Ok s) {msecs : Nat} (hmsecs : msecs < 2 ^ 32) (f : H) (arg : A) :
    Ok (s.timeout msecs f arg) := by
  have hdues := timeout_dues s msecs f arg
  have hperm := perm_insertDue (s.clock + msecs, (⟨f, arg, s.armed.length⟩ : Call H A))
    (dues s.clock s.timeouts)
  obtain ⟨hfired, hpending, hcross⟩ := List.pairwise_append.mp h.order
  refine ⟨?_, ?_, h.fired_le, ?_, ?_⟩
  · rw [hdues]
    change (s.armed ++ _).Perm (s.fired ++ s.removed ++ _)
    refine List.perm_append_comm.trans ?_
    refine ((h.ledger.cons _).trans List.perm_middle.symm).trans ?_
    exact hperm.symm.append_left _
  · rw [hdues]
    change (s.fired ++ _).Pairwise Earlier
    refine List.pairwise_append.mpr ⟨hfired, ?_, ?_⟩
    · apply pairwise_insertDue hpending
      · exact fun y _ z _ hyz => hyz.le
      · exact fun y _ hlt => .inl hlt
      · intro y hy hle
        obtain hlt | heq := lt_or_eq_of_le hle
        · exact .inl hlt
        · exact .inr ⟨heq, h.serial_lt_of_due (.inr hy)⟩
    · intro x hx y hy
      obtain rfl | hy := mem_insertDue.mp hy
      · obtain hlt | heq := lt_or_eq_of_le ((h.fired_le x hx).trans (Nat.le_add_right _ msecs))
        · exact .inl hlt
        · exact .inr ⟨heq, h.serial_lt_of_due (.inl hx)⟩
      · exact hcross x hx y hy
  · intro x hx
    rw [hdues] at hx
    obtain rfl | hx := mem_insertDue.mp hx
    · exact Nat.add_lt_add_left hmsecs _
    · exact h.soon x hx
  · intro x hx
    change x ∈ s.armed ++ [_] at hx
    change _ < (s.armed ++ [_]).length
    rw [List.length_append]
    obtain hx | hx := List.mem_append.mp hx
    · exact (h.serial_lt x hx).trans (Nat.lt_succ_self _)
    · rw [List.mem_singleton.mp hx]
      exact Nat.lt_succ_self _

theorem Ok.untimeout_dues [DecidableEq H] [DecidableEq A] (h : Ok s) (f : H) (arg : A) :
    dues (s.untimeout f arg).clock (s.untimeout f arg).timeouts =
      (dues s.clock s.timeouts).eraseP fun x => decide (x.2.h = f ∧ x.2.arg = arg) := by
  unfold State.untimeout
  dsimp only
  rw [sysUntimeout_eq f arg h.soon, dues_eraseEntry]

theorem untimeout_ok [DecidableEq H] [DecidableEq A] (h : Ok s) (f : H) (arg : A) :
    Ok (s.untimeout f arg) := by
  have hdues := h.untimeout_dues f arg
  refine ⟨?_, ?_, h.fired_le, ?_, h.serial_lt⟩
  · rw [hdues]
    change s.armed.Perm (s.fired ++ (s.removed ++ _) ++ _)
    refine h.ledger.trans ?_
    rw [← List.append_assoc, List.append_assoc _ _ (List.eraseP _ _)]
    exact (perm_eraseP _ _).append_left _
  · rw [hdues]
    change (s.fired ++ _).Pairwise Earlier
    exact h.order.sublist ((List.eraseP_sublist).append_left _)
  · intro x hx
    rw [hdues] at hx
    exact h.soon x (List.mem_of_mem_eraseP hx)

/-- Either time goes by, or the first timeout is due. -/
theorem fetch_cases (s : State H A) (answer : Option Nat) :
    ((sysMboxFetch answer s.timeouts).1 = none ∧
        dues (s.fetch answer).clock (s.fetch answer).timeouts = dues s.clock s.timeouts ∧
        (s.fetch answer).fired = s.fired ∧ s.clock ≤ (s.fetch answer).clock) ∨
      ∃ next rest, (sysMboxFetch answer s.timeouts).1 = some next.val ∧
        s.timeouts = next :: rest ∧ (s.fetch answer).timeouts = rest ∧
        (s.fetch answer).clock = s.clock + next.time ∧
        (s.fetch answer).fired = s.fired ++ [(s.clock + next.time, next.val)] := by
  obtain ⟨timeouts, clock, armed, fired, removed⟩ := s
  cases timeouts with
  | nil => exact .inl ⟨rfl, rfl, List.append_nil fired, Nat.le_refl clock⟩
  | cons next rest =>
    unfold State.fetch sysMboxFetch counted
    dsimp only
    by_cases htime : next.time > 0
    · rw [if_pos htime]
      cases answer with
      | none => exact .inr ⟨next, rest, rfl, rfl, rfl, rfl, rfl⟩
      | some w =>
        refine .inl ⟨rfl, ?_, List.append_nil fired, Nat.le_add_right _ _⟩
        have hleft : (if w < next.time then next.time - w else 0) =
            next.time - min next.time w := by
          split <;> omega
        dsimp only [Option.elim]
        rw [hleft]
        exact dues_wait (Nat.min_le_left _ _)
    · rw [if_neg htime]
      have hzero : next.time = 0 := Nat.eq_zero_of_not_pos htime
      refine .inr ⟨next, rest, rfl, rfl, rfl, ?_, ?_⟩
      all_goals
        cases answer <;> simp [hzero]

theorem fetch_ok (h : Ok s) (answer : Option Nat) : Ok (s.fetch answer) := by
  obtain ⟨-, hdues, hfired, hclock⟩ | ⟨next, rest, -, hnext, hrest, hclock, hfired⟩ :=
    fetch_cases s answer
  · refine ⟨?_, ?_, ?_, ?_, h.serial_lt⟩
    · rw [hdues, hfired]
      exact h.ledger
    · rw [hdues, hfired]
      exact h.order
    · intro x hx
      rw [hfired] at hx
      exact (h.fired_le x hx).trans hclock
    · intro x hx
      rw [hdues] at hx
      exact (h.soon x hx).trans_le (Nat.add_le_add_right hclock _)
  · have hdues : dues s.clock s.timeouts = (s.clock + next.time, next.val) ::
        dues (s.fetch answer).clock (s.fetch answer).timeouts := by
      rw [hnext, hrest, hclock]
      rfl
    have hledger := h.ledger
    have horder := h.order
    have hsoon := h.soon
    rw [hdues] at hledger horder hsoon
    refine ⟨?_, ?_, ?_, ?_, h.serial_lt⟩
    · rw [hfired]
      change s.armed.Perm (_ ++ s.removed ++ _)
      refine hledger.trans ?_
      rw [List.append_assoc, List.append_assoc, List.append_assoc]
      exact (List.perm_middle).append_left _
    · rw [hfired, List.append_assoc]
      exact horder
    · intro x hx
      rw [hfired] at hx
      rw [hclock]
      obtain hx | hx := List.mem_append.mp hx
      · exact (h.fired_le x hx).trans (Nat.le_add_right _ _)
      · rw [List.mem_singleton.mp hx]
    · intro x hx
      have := hsoon x (List.mem_cons_of_mem _ hx)
      rw [hclock]
      omega

theorem step_ok [DecidableEq H] [DecidableEq A] {l : Label H A} (h : Ok s) (hl : InRange l)
    (hstep : step s l = some t) : Ok t := by
  cases l with
  | timeout msecs f arg alloc =>
    obtain rfl := Option.some.inj hstep
    cases alloc with
    | true => exact timeout_ok h hl f arg
    | false => exact h
  | untimeout f arg =>
    obtain rfl := Option.some.inj hstep
    exact untimeout_ok h f arg
  | fetch answer =>
    rw [step] at hstep
    split at hstep
    · contradiction
    · obtain rfl := Option.some.inj hstep
      exact fetch_ok h answer

end Invariant

section Properties

variable [DecidableEq H] [DecidableEq A] {s : State H A} {ls : List (Label H A)}

theorem run_ok (hls : ∀ l ∈ ls, InRange l) (h : exec step init ls = some s) : Ok s :=
  exec_invariant (fun _ _ _ hs hl hstep => step_ok hs hl hstep) init_ok
    (steps_of_forall (fun l hl _ => hls l hl) _) h

theorem timers_inRange : ∀ l ∈ timers, InRange l := by decide

end Properties

end PopcornFirmware.Lwip.SysTimeouts
