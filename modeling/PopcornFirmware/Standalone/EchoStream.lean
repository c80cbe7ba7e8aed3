import PopcornFirmware.Standalone.RawServer

namespace PopcornFirmware.Standalone.EchoStream

open PopcornFirmware.Lib.CText PopcornFirmware.Lib.LinkedHeap PopcornFirmware.Lib.Runs
open PopcornFirmware.Lwip.Pbufs PopcornFirmware.Standalone.RawServer

/-- Data comes with err = ERR_OK. -/
def ErrOk (_ : Conn) : Label → Prop
  | .recv payloads err _ _ => payloads ≠ [] → err = .ok
  | _ => True

instance : ∀ c l, Decidable (ErrOk c l)
  | _, .recv _ _ _ _ => inferInstanceAs (Decidable (_ → _))
  | _, .sent _ | _, .poll _ | _, .error => inferInstanceAs (Decidable True)

/-- The echo so far: the bytes written and those on the chain from es->p are
all the bytes received, and the window has been updated by the bytes written. -/
structure Echo (c : Conn) (es : Es) : Prop where
  stream : ∃ ids, Held c.mem es.p ids ∧ c.written ++ bytes c.mem ids = c.received
  recved : c.recved = c.written.length
  sends : ∀ call ∈ c.sends, call.2 ≤ call.1 + 1

structure Open (c : Conn) (es : Es) : Prop extends Echo c es where
  state : (es.state = .accepted ∧ es.p = none) ∨ es.state = .received

def Invariant (c : Conn) : Prop := ∀ es, c.es = some es → Open c es

theorem inv_connected : Invariant connected := by
  intro es hes
  cases hes
  exact ⟨⟨⟨[], ⟨rfl, by simp⟩, rfl⟩, rfl, by simp [connected]⟩, Or.inl ⟨rfl, rfl⟩⟩

theorem inv_over {c : Conn} (h : c.es = none) : Invariant c := by
  intro es hes
  rw [h] at hes
  cases hes

theorem inv_send (answers : Nat → Answer) {c : Conn} {es : Es} (hstate : es.state = .received)
    (he : Echo c es) : ∃ t, serverSend answers c es = some t ∧ Invariant t := by
  obtain ⟨ids, hheld, hstream⟩ := he.stream
  obtain ⟨t, p, rest, k, hsend, hes, hheld', hbytes, hrecved, hsends, hk, -, hreceived, -, -⟩ :=
    serverSend_spec answers c es hheld
  refine ⟨t, hsend, fun es' hes' => ?_⟩
  rw [hes] at hes'
  cases hes'
  refine ⟨⟨⟨rest, hheld', by rw [hbytes, hstream, hreceived]⟩, ?_, ?_⟩, Or.inr hstate⟩
  · have hold := he.recved
    omega
  · rw [hsends]
    intro call hcall
    obtain hcall | hcall := List.mem_append.mp hcall
    · exact he.sends call hcall
    · rw [List.mem_singleton.mp hcall]
      exact Nat.le_succ_of_le hk

section Recv

variable (answers : Nat → Answer) (after : Text) {c : Conn} {es : Es}

theorem inv_fin (err : ErrT) (hi : Open c es) :
    ∃ t, tcpServerRecv answers after (arrive c []) es err none = some t ∧ Invariant t := by
  rw [arrive_nil]
  by_cases hp : es.p = none
  · exact ⟨_, if_pos hp, inv_over rfl⟩
  · have hstate : es.state = .received := hi.state.resolve_left fun h => hp h.2
    obtain ⟨t, ht, hinv⟩ := inv_send answers (c := { c with fin := true, sent := true }) hstate
      ⟨hi.stream, hi.recved, hi.sends⟩
    exact ⟨t, (if_neg hp).trans ht, hinv⟩

/-- A segment that is stored when nothing is pending is the whole chain. -/
theorem echo_stored (hi : Open c es) (hnone : es.p = none) (text : Text) (texts : List Text) :
    ∃ ids, Held (arrive c (text :: texts)).mem (some c.mem.length) ids ∧
      c.written ++ bytes (arrive c (text :: texts)).mem ids =
        c.received ++ (text :: texts).flatten := by
  obtain ⟨is, hnew, hbytes, -, -⟩ := arrive_fresh c text texts
  obtain ⟨ids, hheld, hstream⟩ := hi.stream
  rw [hnone] at hheld
  rw [hheld.eq_nil] at hstream
  have hall : c.written = c.received := by simpa [bytes] using hstream
  exact ⟨_, hnew, by rw [hbytes, hall]⟩

theorem inv_first (hi : Open c es) (hstate : es.state = .accepted) (text : Text)
    (texts : List Text) :
    ∃ t, tcpServerRecv answers after (arrive c (text :: texts)) es .ok (some c.mem.length) =
      some t ∧ Invariant t := by
  have hnone : es.p = none := by
    obtain ⟨-, hnone⟩ | hrec := hi.state
    · exact hnone
    · rw [hstate] at hrec
      cases hrec
  have he : Echo { arrive c (text :: texts) with sent := true } ⟨.received, some c.mem.length⟩ :=
    ⟨echo_stored hi hnone text texts, hi.recved, hi.sends⟩
  obtain ⟨t, ht, hinv⟩ := inv_send answers rfl he
  exact ⟨t, by simpa [tcpServerRecv, hstate] using ht, hinv⟩

theorem inv_store (hi : Open c es) (hstate : es.state = .received) (hnone : es.p = none)
    (text : Text) (texts : List Text) :
    ∃ t, tcpServerRecv answers after (arrive c (text :: texts)) es .ok (some c.mem.length) =
      some t ∧ Invariant t := by
  obtain ⟨ids, hnew, hstream⟩ := echo_stored hi hnone text texts
  obtain ⟨is, rfl⟩ := hnew.eq_cons
  obtain ⟨b, hb⟩ := hnew.chain.live List.mem_cons_self
  obtain ⟨g, hg⟩ := tcpServerRecv_store hb rfl hstate hnone
  refine ⟨_, hg, fun es' hes => ?_⟩
  cases hes
  exact ⟨⟨⟨_, hnew, hstream⟩, hi.recved, hi.sends⟩, Or.inr hstate⟩

theorem inv_chain (hi : Open c es) (hes : c.es = some es) (hstate : es.state = .received)
    {h : Nat} (hp : es.p = some h) (text : Text) (texts : List Text) :
    ∃ t, tcpServerRecv answers after (arrive c (text :: texts)) es .ok (some c.mem.length) =
      some t ∧ Invariant t := by
  obtain ⟨ids, hheld, hstream⟩ := hi.stream
  obtain ⟨m, all, hm, hall, hbytes⟩ := pbufChain_arrive (hp ▸ hheld) text texts
  refine ⟨{ arrive c (text :: texts) with mem := m }, ?_, fun es' hes' => ?_⟩
  · simp [tcpServerRecv, hstate, hp, hm]
  · have heq : es' = es := Option.some.inj (hes'.symm.trans hes)
    subst heq
    refine ⟨⟨⟨_, hp ▸ hall, ?_⟩, hi.recved, hi.sends⟩, Or.inr hstate⟩
    rw [hbytes, ← List.append_assoc]
    exact congrArg (· ++ (text :: texts).flatten) hstream

theorem inv_data (hi : Open c es) (hes : c.es = some es) (text : Text) (texts : List Text) :
    ∃ t, tcpServerRecv answers after (arrive c (text :: texts)) es .ok (some c.mem.length) =
      some t ∧ Invariant t := by
  obtain ⟨hstate, -⟩ | hstate := hi.state
  · exact inv_first answers after hi hstate text texts
  · cases hp : es.p with
    | none => exact inv_store answers after hi hstate hp text texts
    | some h => exact inv_chain answers after hi hes hstate hp text texts

end Recv

theorem inv_step (c : Conn) (l : Label) (hi : Invariant c) (hok : ErrOk c l) :
    ∃ t, step tcpServerRecv c l = some t ∧ Invariant t := by
  cases hes : c.es with
  | none => exact ⟨c, step_over hes, hi⟩
  | some es =>
    have hopen := hi es hes
    refine step_total l hes hi (fun _ _ => inv_over rfl) (fun hp answers => ?_)
      (fun _ => inv_over rfl) ?_
    · have hstate : es.state = .received := hopen.state.resolve_left fun h => hp h.2
      exact inv_send answers hstate hopen.toEcho
    · rintro payloads err after answers rfl
      cases payloads with
      | nil => exact inv_fin answers after err hopen
      | cons text texts =>
        have herr : err = .ok := hok (by simp)
        subst herr
        exact inv_data answers after hopen hes text texts

/-- A segment of two pbufs for which there is no room, a second one, a poll
that runs out of memory after one pbuf, and the rest. -/
def delayedEcho : List Label :=
  [.recv [lit "ab", lit "c"] .ok [] (fun _ => ⟨0, .ok⟩),
    .recv [lit "d"] .ok [] (fun _ => ⟨0, .ok⟩),
    .poll (fun n => ⟨10, if n = 0 then .ok else .mem⟩),
    .sent (fun _ => ⟨10, .ok⟩)]

example : (exec (step tcpServerRecv) connected delayedEcho).map (fun c => (c.written, c.sends)) =
    some (lit "abcd", [(2, 0), (3, 2), (2, 2)]) := by decide

end PopcornFirmware.Standalone.EchoStream
