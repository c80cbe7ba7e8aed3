import PopcornFirmware.Standalone.RawServer

namespace PopcornFirmware.Standalone.PbufAccounting

open PopcornFirmware.Lib.CText PopcornFirmware.Lib.LinkedHeap PopcornFirmware.Lib.Runs
open PopcornFirmware.Lwip.Pbufs PopcornFirmware.Standalone.RawServer

/-- Data and errors come only when nothing is pending. -/
def NothingPending (c : Conn) : Label → Prop
  | .recv payloads _ _ _ => payloads ≠ [] → ∀ es ∈ c.es, es.p = none
  | .error => ∀ es ∈ c.es, es.p = none
  | _ => True

instance : ∀ c l, Decidable (NothingPending c l)
  | c, .recv payloads _ _ _ =>
    haveI := Option.decidableForallMem (p := fun es : Es => es.p = none) c.es
    inferInstanceAs (Decidable (payloads ≠ [] → _))
  | c, .error => Option.decidableForallMem c.es
  | _, .sent _ | _, .poll _ => inferInstanceAs (Decidable True)

/-- The pbufs that are allocated are those of the pending chain. -/
structure Accounted (c : Conn) : Prop where
  pending : ∀ es, c.es = some es → ∃ ids, Held c.mem es.p ids ∧ Exclusive c.mem ids
  ended : c.es = none → Exclusive c.mem []

theorem accounted_connected : Accounted connected := by
  refine ⟨fun es hes => ?_, fun h => by simp [connected] at h⟩
  cases hes
  exact ⟨[], ⟨rfl, by simp⟩, fun i b hb => by simp [connected, deref] at hb⟩

theorem nothing_allocated {c : Conn} {es : Es} (hes : c.es = some es) (ha : Accounted c)
    (hp : es.p = none) : Exclusive c.mem [] := by
  obtain ⟨ids, hheld, hexcl⟩ := ha.pending es hes
  rw [hp] at hheld
  exact hheld.eq_nil ▸ hexcl

theorem accounted_over {c d : Conn} {es : Es} (hes : c.es = some es) (ha : Accounted c)
    (hp : es.p = none) (hmem : d.mem = c.mem) (hover : d.es = none) : Accounted d := by
  refine ⟨fun es' hes' => ?_, fun _ => hmem ▸ nothing_allocated hes ha hp⟩
  rw [hover] at hes'
  cases hes'

theorem accounted_of_es {c : Conn} {es : Es} (hes : c.es = some es)
    (h : ∃ ids, Held c.mem es.p ids ∧ Exclusive c.mem ids) : Accounted c := by
  refine ⟨fun es' hes' => ?_, fun hnone => ?_⟩
  · rw [hes] at hes'
    cases hes'
    exact h
  · rw [hes] at hnone
    cases hnone

theorem accounted_send (answers : Nat → Answer) {c : Conn} {es : Es}
    (h : ∃ ids, Held c.mem es.p ids ∧ Exclusive c.mem ids) :
    ∃ t, serverSend answers c es = some t ∧ Accounted t := by
  obtain ⟨ids, hheld, hexcl⟩ := h
  obtain ⟨t, p, rest, k, hsend, hes, hheld', -, -, -, -, hexcl', -⟩ :=
    serverSend_spec answers c es hheld
  exact ⟨t, hsend, accounted_of_es hes ⟨rest, hheld', hexcl' hexcl⟩⟩

theorem accounted_drop {c : Conn} (es : Es) {p : Option Nat} (recved : Nat)
    (h : ∃ ids, Held c.mem p ids ∧ Exclusive c.mem ids) :
    ∃ t, dropSegment c es p recved = some t ∧ Accounted t := by
  obtain ⟨ids, hheld, hexcl⟩ := h
  obtain ⟨m, hm, hnone⟩ := pbufFree_exclusive hheld hexcl
  refine ⟨{ c with mem := m, es := some { es with p := none }, recved := c.recved + recved },
    by rw [dropSegment, hm, Option.map_some], accounted_of_es rfl ⟨[], ⟨rfl, ?_⟩, hnone⟩⟩
  simp

section Recv

variable (answers : Nat → Answer) (after : Text) (err : ErrT) {c : Conn} {es : Es}

theorem accounted_fin (hes : c.es = some es) (ha : Accounted c) :
    ∃ t, tcpServerRecv answers after (arrive c []) es err none = some t ∧ Accounted t := by
  rw [arrive_nil]
  by_cases hp : es.p = none
  · exact ⟨_, if_pos hp, accounted_over hes ha hp rfl rfl⟩
  · obtain ⟨t, ht, hacc⟩ := accounted_send answers (c := { c with fin := true, sent := true })
      (ha.pending es hes)
    exact ⟨t, (if_neg hp).trans ht, hacc⟩

/-- The segment that arrives when nothing is pending is all that is allocated. -/
theorem arrive_alone (hes : c.es = some es) (ha : Accounted c) (hp : es.p = none) (text : Text)
    (texts : List Text) : ∃ is, Held (arrive c (text :: texts)).mem (some c.mem.length)
      (c.mem.length :: is) ∧ Exclusive (arrive c (text :: texts)).mem (c.mem.length :: is) := by
  obtain ⟨is, hnew, -, -, hcases⟩ := arrive_fresh c text texts
  refine ⟨is, hnew, fun k b hb => ?_⟩
  obtain hold | hfresh := hcases k b hb
  · exact absurd (nothing_allocated hes ha hp k b hold).1 (by simp)
  · exact hfresh

theorem accounted_data (hes : c.es = some es) (ha : Accounted c) (hp : es.p = none) (text : Text)
    (texts : List Text) :
    ∃ t, tcpServerRecv answers after (arrive c (text :: texts)) es err (some c.mem.length) =
      some t ∧ Accounted t := by
  obtain ⟨is, hnew, hexcl⟩ := arrive_alone hes ha hp text texts
  have hall : ∃ ids, Held (arrive c (text :: texts)).mem (some c.mem.length) ids ∧
      Exclusive (arrive c (text :: texts)).mem ids := ⟨_, hnew, hexcl⟩
  obtain ⟨b, hb⟩ := hnew.chain.live List.mem_cons_self
  obtain ⟨n, hdrop⟩ | hsend | ⟨herr, hstate, -, -⟩ | ⟨-, hpending, -⟩ :=
    tcpServerRecv_segment answers after (arrive c (text :: texts)) es err c.mem.length
  · rw [hdrop]
    exact accounted_drop es n hall
  · rw [hsend]
    exact accounted_send answers hall
  · obtain ⟨g, hg⟩ := tcpServerRecv_store hb herr hstate hp
    exact ⟨_, hg, accounted_of_es rfl hall⟩
  · exact absurd hp hpending

end Recv

theorem accounted_step (c : Conn) (l : Label) (ha : Accounted c) (hok : NothingPending c l) :
    ∃ t, step tcpServerRecv c l = some t ∧ Accounted t := by
  cases hes : c.es with
  | none => exact ⟨c, step_over hes, ha⟩
  | some es =>
    refine step_total l hes ha (fun hp _ => accounted_over hes ha hp rfl rfl)
      (fun _ answers => accounted_send answers (ha.pending es hes)) ?_ ?_
    · rintro rfl
      exact accounted_over hes ha (hok es hes) rfl rfl
    · rintro payloads err after answers rfl
      cases payloads with
      | nil => exact accounted_fin answers after err hes ha
      | cons text texts =>
        exact accounted_data answers after err hes ha (hok (by simp) es hes) text texts

/-- A segment that is stored, sent by a later poll, and a FIN. -/
def storedAndSent : List Label :=
  [.recv [lit "a", lit "b"] .ok [] (fun _ => ⟨1, .ok⟩),
    .recv [lit "7", lit "c"] .ok [] (fun _ => ⟨1, .ok⟩),
    .poll (fun n => ⟨1, if n = 0 then .ok else .mem⟩), .sent (fun _ => ⟨1, .ok⟩),
    .recv [] .ok [] (fun _ => ⟨1, .ok⟩)]

/-- A segment that arrives while another is pending, and a sent callback with
room for both; and a reset while a segment is pending. -/
def chained : List Label :=
  [.recv [lit "a"] .ok [] (fun _ => ⟨0, .ok⟩), .recv [lit "b"] .ok [] (fun _ => ⟨0, .ok⟩),
    .sent (fun _ => ⟨10, .ok⟩)]

def reset : List Label := [.recv [lit "a"] .ok [] (fun _ => ⟨0, .ok⟩), .error]

end PopcornFirmware.Standalone.PbufAccounting
