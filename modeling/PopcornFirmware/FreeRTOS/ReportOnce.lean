import PopcornFirmware.FreeRTOS.TcpEcho

namespace PopcornFirmware.FreeRTOS.ReportOnce

open PopcornFirmware.Lib.CText PopcornFirmware.Lib.Pool PopcornFirmware.Lib.Runs
open PopcornFirmware.FreeRTOS.TcpEcho

/-- The setting that a sender between the test and the end of its send section
has found. -/
def seen : SenderPc → Option Nat
  | .oldLen k | .gen k | .emit k _ | .bufData k | .write k _ => some k
  | .clearClient k _ | .clearFlag k _ => some k
  | _ => none

/-- The same for a sender that has still to write. -/
def pending : SenderPc → Option Nat
  | .oldLen k | .gen k | .emit k _ | .bufData k | .write k _ => some k
  | _ => none

theorem seen_of_pending {pc : SenderPc} {k : Nat} (h : pending pc = some k) : seen pc = some k := by
  cases pc <;> simp_all [pending, seen]

/-- No sender finds flag_recv_success set while another one that has found the
same setting is still in its send section. -/
def FindsAlone (s : State) : Label → Prop
  | .sender i _ => s.senders[i]? = some .test → s.shared.flagRecvSuccess = true →
      ∀ pc ∈ s.senders, seen pc ≠ some s.shared.settings
  | _ => True

instance : ∀ s l, Decidable (FindsAlone s l)
  | _, .sender _ _ => inferInstanceAs (Decidable (_ → _ → _))
  | _, .recv _ => inferInstanceAs (Decidable True)
  | _, .echo => inferInstanceAs (Decidable True)

/-- What a step of a sender means for the settings: it finds one, writes for
the one it has found, clears the flag, or none of these. -/
theorem senderNext_setting {g g' : Shared} {ok : Bool} {pc pc' : SenderPc}
    (h : senderNext g ok pc = some (g', pc')) :
    g'.settings = g.settings ∧
      ((pc = .test ∧ g.flagRecvSuccess = true ∧ pc' = .oldLen g.settings ∧ g' = g) ∨
        (∃ k n, pc = .write k n ∧ pc' = .clearClient k ok ∧
          g' = { g with wire := g.wire ++ [⟨k, g.postPacket.take n⟩] }) ∨
        (∃ k e, pc = .clearFlag k e ∧ seen pc' = none ∧ pending pc' = none ∧
          g' = { g with flagRecvSuccess := false }) ∨
        (seen pc' = seen pc ∧ pending pc' = pending pc ∧ g'.wire = g.wire ∧
          g'.flagRecvSuccess = g.flagRecvSuccess)) := by
  cases pc with
  | test =>
    by_cases hf : g.flagRecvSuccess = true
    · simp only [senderNext, hf, if_true, Option.some.injEq, Prod.mk.injEq] at h
      obtain ⟨rfl, rfl⟩ := h
      exact ⟨rfl, Or.inl ⟨rfl, hf, rfl, rfl⟩⟩
    · simp only [senderNext, hf, Option.some.injEq, Prod.mk.injEq] at h
      obtain ⟨rfl, rfl⟩ := h
      exact ⟨rfl, Or.inr (Or.inr (Or.inr ⟨rfl, rfl, rfl, rfl⟩))⟩
  | write k n =>
    simp only [senderNext, Option.some.injEq, Prod.mk.injEq] at h
    obtain ⟨rfl, rfl⟩ := h
    exact ⟨rfl, Or.inr (Or.inl ⟨k, n, rfl, rfl, rfl⟩)⟩
  | clearFlag k e =>
    simp only [senderNext, Option.some.injEq, Prod.mk.injEq] at h
    obtain ⟨rfl, rfl⟩ := h
    exact ⟨rfl, Or.inr (Or.inr (Or.inl ⟨k, e, rfl, by cases e <;> rfl, by cases e <;> rfl, rfl⟩))⟩
  | start =>
    cases h
    simp [seen, pending]
  | clearClient k e =>
    cases h
    simp [seen, pending]
  | newConn | poll | connect | close =>
    cases h
    refine ⟨rfl, Or.inr (Or.inr (Or.inr ⟨?_, ?_, rfl, rfl⟩))⟩ <;> split <;> rfl
  | oldLen k | bufData k =>
    obtain ⟨n, -, heq⟩ := Option.map_eq_some_iff.mp h
    cases heq
    simp [seen, pending]
  | gen k =>
    cases h
    simp [seen, pending]
  | emit k serial =>
    obtain ⟨text, -, heq⟩ := Option.map_eq_some_iff.mp h
    cases heq
    simp [seen, pending]

/-- How the settings of flag_recv_success, the senders that have found one and
the bytes already written relate. -/
structure Invariant (s : State) : Prop where
  flag_pos : s.shared.flagRecvSuccess = true → 1 ≤ s.shared.settings
  seen_range : ∀ (i : Nat) (pc : SenderPc) (k : Nat), s.senders[i]? = some pc → seen pc = some k →
    1 ≤ k ∧ k ≤ s.shared.settings
  wire_range : ∀ r ∈ s.shared.wire, 1 ≤ r.setting ∧ r.setting ≤ s.shared.settings
  alone : ∀ (i j : Nat) (pc pc' : SenderPc) (k : Nat), s.senders[i]? = some pc →
    s.senders[j]? = some pc' → seen pc = some k → seen pc' = some k → i = j
  unsent : ∀ (i : Nat) (pc : SenderPc) (k : Nat), s.senders[i]? = some pc → pending pc = some k →
    ∀ r ∈ s.shared.wire, r.setting ≠ k
  nodup : (s.shared.wire.map Report.setting).Nodup
  -- a setting that has been written for is still set only while its sender
  -- has not cleared the flag
  consumer : s.shared.flagRecvSuccess = true → (∃ r ∈ s.shared.wire,
    r.setting = s.shared.settings) → ∃ (i : Nat) (pc : SenderPc), s.senders[i]? = some pc ∧
      seen pc = some s.shared.settings

theorem inv_init : Invariant init := by
  have hnone : ∀ (i : Nat) (pc : SenderPc) (k : Nat), init.senders[i]? = some pc →
      seen pc ≠ some k := by
    intro i pc k hpc
    obtain rfl := List.mem_singleton.mp (List.mem_of_getElem? hpc)
    simp [seen]
  constructor
  · simp
  · exact fun i pc k hpc hk => absurd hk (hnone i pc k hpc)
  · simp
  · exact fun i j pc pc' k hpc hpc' hk => absurd hk (hnone i pc k hpc)
  · simp
  · simp
  · simp

/-- The rest of the state does not matter. -/
theorem Invariant.frame {s t : State} (hi : Invariant s)
    (hset : t.shared.settings = s.shared.settings)
    (hflag : t.shared.flagRecvSuccess = s.shared.flagRecvSuccess)
    (hwire : t.shared.wire = s.shared.wire) (hsenders : t.senders = s.senders) : Invariant t := by
  obtain ⟨⟨_, _, _, _, _, _, _, _⟩, _, _⟩ := t
  obtain ⟨⟨_, _, _, _, _, _, _, _⟩, _, _⟩ := s
  dsimp only at hset hflag hwire hsenders
  subst hset hflag hwire hsenders
  exact ⟨hi.flag_pos, hi.seen_range, hi.wire_range, hi.alone, hi.unsent, hi.nodup, hi.consumer⟩

theorem inv_recv {s t : State} {data : Text} (hi : Invariant s) (h : recvStep s data = some t) :
    Invariant t := by
  obtain ⟨v, -, -, rfl⟩ := recvStep_eq_some h
  exact hi.frame rfl rfl rfl rfl

theorem inv_setFlag {s : State} (hi : Invariant s) : Invariant { s with
    shared := { s.shared with flagRecvSuccess := true, settings := s.shared.settings + 1 }
    echo := .setClient } := by
  constructor
  · intro _
    simp
  · intro i pc k hpc hk
    have hr := hi.seen_range i pc k hpc hk
    exact ⟨hr.1, by simp only; omega⟩
  · intro r hr
    have hrange := hi.wire_range r hr
    exact ⟨hrange.1, by simp only; omega⟩
  · exact hi.alone
  · exact hi.unsent
  · exact hi.nodup
  · rintro - ⟨r, hr, heq⟩
    have hrange := hi.wire_range r hr
    simp only at heq
    omega

theorem inv_spawn {s : State} (hi : Invariant s) (accepted : List (BitVec 32)) : Invariant { s with
    shared := { s.shared with accepted := accepted }
    echo := .recv
    senders := s.senders ++ [.start] } := by
  have hold : ∀ (i : Nat) (pc : SenderPc) (k : Nat),
      (s.senders ++ [SenderPc.start])[i]? = some pc → seen pc = some k →
        s.senders[i]? = some pc := by
    intro i pc k hpc hk
    obtain hpc | ⟨-, rfl⟩ := getElem?_append_iff.mp hpc
    · exact hpc
    · cases hk
  constructor
  · exact hi.flag_pos
  · exact fun i pc k hpc hk => hi.seen_range i pc k (hold i pc k hpc hk) hk
  · exact hi.wire_range
  · exact fun i j pc pc' k hpc hpc' hk hk' =>
      hi.alone i j pc pc' k (hold i pc k hpc hk) (hold j pc' k hpc' hk') hk hk'
  · exact fun i pc k hpc hk => hi.unsent i pc k (hold i pc k hpc (seen_of_pending hk)) hk
  · exact hi.nodup
  · intro hf hr
    obtain ⟨i, pc, hpc, hk⟩ := hi.consumer hf hr
    exact ⟨i, pc, getElem?_append_iff.mpr (Or.inl hpc), hk⟩

theorem inv_echo {s t : State} (hi : Invariant s) (h : echoStep s = some t) : Invariant t := by
  cases echoStep_effect h with
  | passed | rejected | setClient => exact hi.frame rfl rfl rfl rfl
  | setFlag => exact inv_setFlag hi
  | spawn => exact inv_spawn hi _

section Sender

variable {s : State} {i : Nat}

/-- A setting that some sender has found is still found after one of them has
moved on within its send section. -/
theorem seen_set {pc pc' q : SenderPc} {j k : Nat} (hpc : s.senders[i]? = some pc)
    (hseen : seen pc' = seen pc) (hq : s.senders[j]? = some q) (hk : seen q = some k) :
    ∃ (j : Nat) (q : SenderPc), (s.senders.set i pc')[j]? = some q ∧ seen q = some k := by
  by_cases hj : j = i
  · rw [hj, hpc] at hq
    cases hq
    exact ⟨i, pc', (getElem?_set_iff hpc).mpr (Or.inl ⟨rfl, rfl⟩), hseen.trans hk⟩
  · exact ⟨j, q, (getElem?_set_iff hpc).mpr (Or.inr ⟨hj, hq⟩), hk⟩

theorem inv_find (hi : Invariant s) (hpc : s.senders[i]? = some .test)
    (hf : s.shared.flagRecvSuccess = true)
    (halone : ∀ pc ∈ s.senders, seen pc ≠ some s.shared.settings) :
    Invariant { s with senders := s.senders.set i (.oldLen s.shared.settings) } := by
  have hold : ∀ (j : Nat) (q : SenderPc), s.senders[j]? = some q →
      seen q ≠ some s.shared.settings := fun j q hq => halone q (List.mem_of_getElem? hq)
  have hunwritten : ∀ r ∈ s.shared.wire, r.setting ≠ s.shared.settings := by
    intro r hr heq
    obtain ⟨j, q, hq, hk⟩ := hi.consumer hf ⟨r, hr, heq⟩
    exact hold j q hq hk
  constructor
  · exact hi.flag_pos
  · intro j q k hq hk
    obtain ⟨-, rfl⟩ | ⟨-, hq⟩ := (getElem?_set_iff hpc).mp hq
    · cases hk
      exact ⟨hi.flag_pos hf, le_refl _⟩
    · exact hi.seen_range j q k hq hk
  · exact hi.wire_range
  · intro j j' q q' k hq hq' hk hk'
    obtain ⟨rfl, rfl⟩ | ⟨-, hq⟩ := (getElem?_set_iff hpc).mp hq
    · obtain ⟨rfl, -⟩ | ⟨-, hq'⟩ := (getElem?_set_iff hpc).mp hq'
      · rfl
      · cases hk
        exact absurd hk' (hold j' q' hq')
    · obtain ⟨-, rfl⟩ | ⟨-, hq'⟩ := (getElem?_set_iff hpc).mp hq'
      · cases hk'
        exact absurd hk (hold j q hq)
      · exact hi.alone j j' q q' k hq hq' hk hk'
  · intro j q k hq hk
    obtain ⟨-, rfl⟩ | ⟨-, hq⟩ := (getElem?_set_iff hpc).mp hq
    · cases hk
      exact hunwritten
    · exact hi.unsent j q k hq hk
  · exact hi.nodup
  · rintro - ⟨r, hr, heq⟩
    exact absurd heq (hunwritten r hr)

theorem inv_write (hi : Invariant s) {k n : Nat} (hpc : s.senders[i]? = some (.write k n))
    (bytes : Text) (ok : Bool) : Invariant { s with
      shared := { s.shared with wire := s.shared.wire ++ [⟨k, bytes⟩] }
      senders := s.senders.set i (.clearClient k ok) } := by
  have hrange := hi.seen_range i _ k hpc rfl
  have hother : ∀ (j : Nat) (q : SenderPc), j ≠ i → s.senders[j]? = some q → seen q ≠ some k :=
    fun j q hj hq hk => hj (hi.alone j i q _ k hq hpc hk rfl)
  constructor
  · exact hi.flag_pos
  · intro j q k' hq hk
    obtain ⟨-, rfl⟩ | ⟨-, hq⟩ := (getElem?_set_iff hpc).mp hq
    · cases hk
      exact hrange
    · exact hi.seen_range j q k' hq hk
  · intro r hr
    obtain hr | hr := List.mem_append.mp hr
    · exact hi.wire_range r hr
    · obtain rfl := List.mem_singleton.mp hr
      exact hrange
  · intro j j' q q' k' hq hq' hk hk'
    obtain ⟨rfl, rfl⟩ | ⟨hj, hq⟩ := (getElem?_set_iff hpc).mp hq
    · obtain ⟨rfl, -⟩ | ⟨hj', hq'⟩ := (getElem?_set_iff hpc).mp hq'
      · rfl
      · cases hk
        exact absurd hk' (hother j' q' hj' hq')
    · obtain ⟨-, rfl⟩ | ⟨-, hq'⟩ := (getElem?_set_iff hpc).mp hq'
      · cases hk'
        exact absurd hk (hother j q hj hq)
      · exact hi.alone j j' q q' k' hq hq' hk hk'
  · intro j q k' hq hk r hr
    obtain ⟨-, rfl⟩ | ⟨hj, hq⟩ := (getElem?_set_iff hpc).mp hq
    · cases hk
    · obtain hr | hr := List.mem_append.mp hr
      · exact hi.unsent j q k' hq hk r hr
      · obtain rfl := List.mem_singleton.mp hr
        rintro rfl
        exact hother j q hj hq (seen_of_pending hk)
  · have hfresh : k ∉ s.shared.wire.map Report.setting := by
      intro hmem
      obtain ⟨r, hr, heq⟩ := List.mem_map.mp hmem
      exact hi.unsent i _ k hpc rfl r hr heq
    simpa [List.nodup_append, hi.nodup] using fun r hr heq => hfresh (List.mem_map.mpr ⟨r, hr, heq⟩)
  · rintro hf ⟨r, hr, heq⟩
    obtain hr | hr := List.mem_append.mp hr
    · obtain ⟨j, q, hq, hk⟩ := hi.consumer hf ⟨r, hr, heq⟩
      exact seen_set hpc rfl hq hk
    · obtain rfl := List.mem_singleton.mp hr
      exact seen_set hpc rfl hpc (congrArg some heq)

theorem inv_clearFlag (hi : Invariant s) {pc pc' : SenderPc} (hpc : s.senders[i]? = some pc)
    (hseen : seen pc' = none) (hpending : pending pc' = none) : Invariant { s with
      shared := { s.shared with flagRecvSuccess := false }
      senders := s.senders.set i pc' } := by
  have hold : ∀ (j : Nat) (q : SenderPc) (k : Nat), (s.senders.set i pc')[j]? = some q →
      seen q = some k → s.senders[j]? = some q := by
    intro j q k hq hk
    obtain ⟨-, rfl⟩ | ⟨-, hq⟩ := (getElem?_set_iff hpc).mp hq
    · rw [hseen] at hk
      cases hk
    · exact hq
  constructor
  · simp
  · exact fun j q k hq hk => hi.seen_range j q k (hold j q k hq hk) hk
  · exact hi.wire_range
  · exact fun j j' q q' k hq hq' hk hk' =>
      hi.alone j j' q q' k (hold j q k hq hk) (hold j' q' k hq' hk') hk hk'
  · exact fun j q k hq hk => hi.unsent j q k (hold j q k hq (seen_of_pending hk)) hk
  · exact hi.nodup
  · simp

theorem inv_quiet (hi : Invariant s) {g : Shared} {pc pc' : SenderPc}
    (hpc : s.senders[i]? = some pc) (hset : g.settings = s.shared.settings)
    (hseen : seen pc' = seen pc) (hpending : pending pc' = pending pc)
    (hwire : g.wire = s.shared.wire) (hflag : g.flagRecvSuccess = s.shared.flagRecvSuccess) :
    Invariant ⟨g, s.echo, s.senders.set i pc'⟩ := by
  have hold : ∀ (j : Nat) (q : SenderPc), (s.senders.set i pc')[j]? = some q →
      ∃ q', s.senders[j]? = some q' ∧ seen q' = seen q ∧ pending q' = pending q := by
    intro j q hq
    obtain ⟨rfl, rfl⟩ | ⟨-, hq⟩ := (getElem?_set_iff hpc).mp hq
    · exact ⟨pc, hpc, hseen.symm, hpending.symm⟩
    · exact ⟨q, hq, rfl, rfl⟩
  constructor
  · rw [hflag, hset]
    exact hi.flag_pos
  · intro j q k hq hk
    obtain ⟨q', hq', hs, -⟩ := hold j q hq
    rw [hset]
    exact hi.seen_range j q' k hq' (hs.trans hk)
  · rw [hwire, hset]
    exact hi.wire_range
  · intro j j' q q' k hq hq' hk hk'
    obtain ⟨p, hp, hs, -⟩ := hold j q hq
    obtain ⟨p', hp', hs', -⟩ := hold j' q' hq'
    exact hi.alone j j' p p' k hp hp' (hs.trans hk) (hs'.trans hk')
  · intro j q k hq hk
    obtain ⟨q', hq', -, hp⟩ := hold j q hq
    rw [hwire]
    exact hi.unsent j q' k hq' (hp.trans hk)
  · rw [hwire]
    exact hi.nodup
  · rw [hflag, hwire, hset]
    intro hf hr
    obtain ⟨j, q, hq, hk⟩ := hi.consumer hf hr
    exact seen_set hpc hseen hq hk

theorem inv_sender {t : State} {ok : Bool} (hi : Invariant s) (hok : FindsAlone s (.sender i ok))
    (h : senderStep s i ok = some t) : Invariant t := by
  obtain ⟨pc, g, pc', hpc, hnext, rfl⟩ := senderStep_eq_some h
  obtain ⟨hset, hcase⟩ := senderNext_setting hnext
  obtain ⟨rfl, hf, rfl, rfl⟩ | ⟨k, n, rfl, rfl, rfl⟩ | ⟨k, e, rfl, hseen, hpending, rfl⟩ |
    ⟨hseen, hpending, hwire, hflag⟩ := hcase
  · exact inv_find hi hpc hf (hok hpc hf)
  · exact inv_write hi hpc _ ok
  · exact inv_clearFlag hi hpc hseen hpending
  · exact inv_quiet hi hpc hset hseen hpending hwire hflag

end Sender

theorem inv_step (s : State) (l : Label) (t : State) (hi : Invariant s) (hok : FindsAlone s l)
    (h : step s l = some t) : Invariant t := by
  cases l with
  | recv data => exact inv_recv hi h
  | echo => exact inv_echo hi h
  | sender i ok => exact inv_sender hi hok h

theorem wire_length_le {s : State} (hi : Invariant s) :
    s.shared.wire.length ≤ s.shared.settings := by
  have hsub : s.shared.wire.map Report.setting ⊆ List.range' 1 s.shared.settings := by
    intro k hk
    obtain ⟨r, hr, rfl⟩ := List.mem_map.mp hk
    have hrange := hi.wire_range r hr
    rw [List.mem_range'_1]
    omega
  have hle := (List.subperm_of_subset hi.nodup hsub).length_le
  simpa using hle

/-- In a run in which no sender finds a setting that another one is sending
for, there are no more reports than settings and no two for one setting. -/
theorem reports_once (ls : List Label) (s : State) (hok : Steps step FindsAlone init ls)
    (h : exec step init ls = some s) :
    s.shared.wire.length ≤ s.shared.settings ∧
      (s.shared.wire.map Report.setting).Nodup := by
  have hi := exec_invariant inv_step inv_init hok h
  exact ⟨wire_length_le hi, hi.nodup⟩

set_option maxRecDepth 4000 in
theorem reports_once_oneReport :
    ∃ s, exec step init oneReport = some s ∧ s.shared.wire.length = 1 ∧
      s.shared.wire.length ≤ s.shared.settings ∧ (s.shared.wire.map Report.setting).Nodup := by
  have hrun : ∃ s, exec step init oneReport = some s ∧ s.shared.wire.length = 1 := by decide
  obtain ⟨s, hs, hlen⟩ := hrun
  exact ⟨s, hs, hlen, reports_once oneReport s (by decide) hs⟩

/-- After that the sender of the first request and the one that the request
created find the setting of serial 6 in turn, before either has cleared it. -/
def doubleReport : List Label :=
  oneReport ++ senderSteps 1 2 ++ request (lit "6\n") ++ senderSteps 1 2 ++ senderSteps 0 1 ++
    senderSteps 1 1 ++ senderSteps 0 5 ++ senderSteps 1 5

set_option maxRecDepth 4000 in
theorem doubleReport_duplicates :
    ((exec step init doubleReport).map fun s =>
      (s.shared.settings, s.shared.wire.map Report.setting)) = some (2, [1, 2, 2]) := by
  decide

end PopcornFirmware.FreeRTOS.ReportOnce
