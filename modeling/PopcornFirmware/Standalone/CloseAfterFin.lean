import PopcornFirmware.Standalone.RawServer

namespace PopcornFirmware.Standalone.CloseAfterFin

open PopcornFirmware.Lib.CText PopcornFirmware.Lib.Runs
open PopcornFirmware.Standalone.RawServer

def SendsOn : Label → Prop
  | .sent _ | .poll _ => True
  | _ => False

/-- The FIN has been received, everything is sent, and es is not freed. -/
structure Drained (c : Conn) (es : Es) : Prop where
  opened : c.es = some es
  fin : c.fin = true
  empty : es.p = none

section Callbacks

variable {answers : Nat → Answer} {c t : Conn} {es : Es}

theorem serverSend_keeps (h : serverSend answers c es = some t) :
    (∃ p, t.es = some { es with p := p }) ∧ t.fin = c.fin ∧ t.sent = c.sent := by
  obtain ⟨r, -, rfl⟩ := Option.map_eq_some_iff.mp h
  exact ⟨⟨r.1.p, rfl⟩, rfl, rfl⟩

theorem dropSegment_keeps {p : Option Nat} {recved : Nat} (h : dropSegment c es p recved = some t) :
    (∃ p, t.es = some { es with p := p }) ∧ t.fin = c.fin ∧ t.sent = c.sent := by
  obtain ⟨m, -, rfl⟩ := Option.map_eq_some_iff.mp h
  exact ⟨⟨none, rfl⟩, rfl, rfl⟩

theorem serverPoll_keeps (hes : c.es = some es) (h : serverPoll answers c es = some t) :
    t.es = none ∨ (∃ p, t.es = some { es with p := p }) ∧ t.fin = c.fin ∧ t.sent = c.sent := by
  by_cases hp : es.p = none
  · by_cases hstate : es.state = .closing
    · rw [serverPoll, if_neg (not_not_intro hp), if_pos hstate] at h
      cases h
      exact Or.inl rfl
    · rw [serverPoll, if_neg (not_not_intro hp), if_neg hstate] at h
      cases h
      exact Or.inr ⟨⟨es.p, hes⟩, rfl, rfl⟩
  · rw [serverPoll, if_pos hp] at h
    exact Or.inr (serverSend_keeps h)

theorem serverPoll_of_closing (hp : es.p = none) (hstate : es.state = .closing) :
    serverPoll answers c es = some (serverConnectionClose c) := by
  rw [serverPoll, if_neg (not_not_intro hp), if_pos hstate]

theorem serverPoll_of_not_closing (hp : es.p = none) (hstate : es.state ≠ .closing) :
    serverPoll answers c es = some c := by
  rw [serverPoll, if_neg (not_not_intro hp), if_neg hstate]

end Callbacks

section TcpServer

variable {answers : Nat → Answer} {after : Text} {c t : Conn} {es : Es} {err : ErrT}
  {p : Option Nat}

/-- tcp_server_recv frees es, leaves its state alone or stores ES_RECEIVED. -/
theorem tcpServerRecv_keeps (hes : c.es = some es)
    (h : tcpServerRecv answers after c es err p = some t) :
    t.fin = c.fin ∧ (t.es = none ∨
      ∃ es', t.es = some es' ∧ (es'.state = es.state ∨ es'.state = .received)) := by
  cases p with
  | none =>
    by_cases hp : es.p = none
    · rw [tcpServerRecv, if_pos hp] at h
      cases h
      exact ⟨rfl, Or.inl rfl⟩
    · rw [tcpServerRecv, if_neg hp] at h
      obtain ⟨⟨q, hq⟩, hfin, -⟩ := serverSend_keeps h
      exact ⟨hfin, Or.inr ⟨_, hq, Or.inl rfl⟩⟩
  | some i =>
    obtain ⟨n, hdrop⟩ | hsend | ⟨-, -, -, hstore⟩ | ⟨-, -, hchain⟩ :=
      tcpServerRecv_segment answers after c es err i
    · obtain ⟨⟨q, hq⟩, hfin, -⟩ := dropSegment_keeps (hdrop.symm.trans h)
      exact ⟨hfin, Or.inr ⟨_, hq, Or.inl rfl⟩⟩
    · obtain ⟨⟨q, hq⟩, hfin, -⟩ := serverSend_keeps (hsend.symm.trans h)
      exact ⟨hfin, Or.inr ⟨_, hq, Or.inr rfl⟩⟩
    · obtain ⟨b, -, hmap⟩ := Option.bind_eq_some_iff.mp (hstore.symm.trans h)
      obtain ⟨g, -, rfl⟩ := Option.map_eq_some_iff.mp hmap
      exact ⟨rfl, Or.inr ⟨_, rfl, Or.inl rfl⟩⟩
    · obtain ⟨m, -, rfl⟩ := Option.map_eq_some_iff.mp (hchain.symm.trans h)
      exact ⟨rfl, Or.inr ⟨es, hes, Or.inl rfl⟩⟩

/-- ES_CLOSING is never stored by tcp_server.c. -/
def NeverClosing (c : Conn) : Prop := ∀ es, c.es = some es → es.state ≠ .closing

theorem neverClosing_connected : NeverClosing connected := by
  intro es hes
  cases hes
  nofun

theorem neverClosing_over (h : c.es = none) : NeverClosing c := by
  intro es hes
  rw [h] at hes
  cases hes

theorem neverClosing_of_es {es' : Es} (hes : t.es = some es') (hstate : es'.state ≠ .closing) :
    NeverClosing t := by
  intro es'' hes''
  rw [hes] at hes''
  cases hes''
  exact hstate

theorem neverClosing_step (c : Conn) (l : Label) (t : Conn) (hi : NeverClosing c)
    (hstep : step tcpServerRecv c l = some t) : NeverClosing t := by
  cases hes : c.es with
  | none =>
    rw [step_over hes, Option.some.injEq] at hstep
    exact hstep ▸ hi
  | some es =>
    obtain ⟨payloads, err, after, answers, -, h⟩ | ⟨answers, h⟩ | rfl | rfl :=
      step_cases hes hstep
    · obtain ⟨-, hover | ⟨es', hes', hstate⟩⟩ :=
        tcpServerRecv_keeps (c := arrive c payloads) hes h
      · exact neverClosing_over hover
      · refine neverClosing_of_es hes' ?_
        obtain hstate | hstate := hstate
        · exact hstate ▸ hi es hes
        · simp [hstate]
    · obtain hover | ⟨⟨p, hp⟩, -, -⟩ := serverPoll_keeps hes h
      · exact neverClosing_over hover
      · exact neverClosing_of_es hp (hi es hes)
    · exact hi
    · exact neverClosing_over rfl

def FinIdle (c : Conn) : Label → Prop
  | .recv payloads _ _ _ => payloads = [] → ∀ es ∈ c.es, es.p = none
  | _ => True

instance : ∀ c l, Decidable (FinIdle c l)
  | c, .recv payloads _ _ _ =>
    haveI := Option.decidableForallMem (p := fun es : Es => es.p = none) c.es
    inferInstanceAs (Decidable (payloads = [] → _))
  | _, .sent _ | _, .poll _ | _, .error => inferInstanceAs (Decidable True)

def FinCloses (c : Conn) : Prop := c.fin = true → c.es = none

theorem finCloses_step (c : Conn) (l : Label) (t : Conn) (hi : FinCloses c) (hok : FinIdle c l)
    (hstep : step tcpServerRecv c l = some t) : FinCloses t := by
  cases hes : c.es with
  | none =>
    rw [step_over hes, Option.some.injEq] at hstep
    exact hstep ▸ hi
  | some es =>
    have hopen : ¬c.fin = true := fun hf => by simp [hi hf] at hes
    obtain ⟨payloads, err, after, answers, rfl, h⟩ | ⟨answers, h⟩ | rfl | rfl :=
      step_cases hes hstep
    · cases payloads with
      | nil =>
        have hp : es.p = none := hok rfl es hes
        have hclose : tcpServerRecv answers after (arrive c []) es err none = some t := h
        rw [tcpServerRecv, if_pos hp] at hclose
        cases hclose
        exact fun _ => rfl
      | cons text texts =>
        obtain ⟨hfin, -⟩ := tcpServerRecv_keeps (c := arrive c (text :: texts)) hes h
        intro hf
        rw [hfin] at hf
        exact absurd (by simpa [arrive] using hf) hopen
    · obtain hover | ⟨-, hfin, -⟩ := serverPoll_keeps hes h
      · exact fun _ => hover
      · exact fun hf => absurd (hfin ▸ hf) hopen
    · exact hi
    · exact fun _ => rfl

end TcpServer

section TcpEchoserver

/-- tcp_echoserver.c records the FIN in es, and has the sent callback
installed, for as long as something is pending. -/
def FinRecorded (c : Conn) : Prop :=
  c.fin = true → ∀ es, c.es = some es → es.state = .closing ∧ c.sent = true

theorem finRecorded_over {c : Conn} (h : c.es = none) : FinRecorded c := by
  intro _ es hes
  rw [h] at hes
  cases hes

theorem finRecorded_of_keeps {c t : Conn} {es : Es} (hes : c.es = some es) (hi : FinRecorded c)
    (h : (∃ p, t.es = some { es with p := p }) ∧ t.fin = c.fin ∧ t.sent = c.sent) :
    FinRecorded t := by
  obtain ⟨⟨p, hp⟩, hfin, hsent⟩ := h
  intro hf es' hes'
  obtain ⟨hstate, hs⟩ := hi (hfin ▸ hf) es hes
  rw [hp] at hes'
  cases hes'
  exact ⟨hstate, hsent ▸ hs⟩

theorem finRecorded_fin {answers : Nat → Answer} {after : Text} {c t : Conn} {es : Es}
    {err : ErrT} (h : tcpEchoserverRecv answers after c es err none = some t) :
    FinRecorded t := by
  by_cases hp : es.p = none
  · rw [tcpEchoserverRecv, if_pos hp] at h
    cases h
    exact finRecorded_over rfl
  · rw [tcpEchoserverRecv, if_neg hp] at h
    obtain ⟨⟨p, hes⟩, -, hsent⟩ := serverSend_keeps h
    intro _ es' hes'
    rw [hes] at hes'
    cases hes'
    exact ⟨rfl, hsent⟩

theorem finRecorded_data {answers : Nat → Answer} {after : Text} {c t : Conn} {es : Es}
    {err : ErrT} {i : Nat} (hes : c.es = some es) (hi : FinRecorded c)
    (h : tcpEchoserverRecv answers after c es err (some i) = some t) : FinRecorded t := by
  by_cases herr : err = .ok
  · simp only [tcpEchoserverRecv, herr, ne_eq, not_true_eq_false, if_false] at h
    cases hstate : es.state with
    | accepted =>
      -- no FIN has come: it would have left ES_CLOSING
      rw [hstate] at h
      obtain ⟨-, hfin, -⟩ := serverSend_keeps h
      intro hf
      have hclosing := (hi (hfin ▸ hf) es hes).1
      rw [hstate] at hclosing
      cases hclosing
    | received =>
      by_cases hp : es.p = none
      · simp only [hstate, hp, if_true] at h
        obtain ⟨⟨p, hp'⟩, hkeep⟩ := serverSend_keeps h
        exact finRecorded_of_keeps hes hi ⟨⟨p, by rw [hp', hstate]⟩, hkeep⟩
      · simp only [hstate, hp, if_false] at h
        obtain ⟨m, -, rfl⟩ := Option.map_eq_some_iff.mp h
        exact finRecorded_of_keeps hes hi ⟨⟨es.p, hes⟩, rfl, rfl⟩
    | none | closing =>
      simp only [hstate] at h
      obtain ⟨b, -, h⟩ := Option.bind_eq_some_iff.mp h
      exact finRecorded_of_keeps hes hi (dropSegment_keeps h)
  · rw [tcpEchoserverRecv, if_pos herr] at h
    exact finRecorded_of_keeps hes hi (dropSegment_keeps h)

theorem finRecorded_poll {answers : Nat → Answer} {c t : Conn} {es : Es} (hes : c.es = some es)
    (hi : FinRecorded c) (h : serverPoll answers c es = some t) : FinRecorded t := by
  obtain hover | hkeep := serverPoll_keeps hes h
  · exact finRecorded_over hover
  · exact finRecorded_of_keeps hes hi hkeep

theorem finRecorded_step (c : Conn) (l : Label) (t : Conn) (hi : FinRecorded c)
    (hstep : step tcpEchoserverRecv c l = some t) : FinRecorded t := by
  cases hes : c.es with
  | none =>
    rw [step_over hes, Option.some.injEq] at hstep
    exact hstep ▸ hi
  | some es =>
    obtain ⟨payloads, err, after, answers, -, h⟩ | ⟨answers, h⟩ | rfl | rfl :=
      step_cases hes hstep
    · cases payloads with
      | nil => exact finRecorded_fin h
      | cons text texts =>
        have harrive : FinRecorded (arrive c (text :: texts)) := fun hf =>
          hi (by simpa [arrive] using hf)
        exact finRecorded_data (c := arrive c (text :: texts)) hes harrive h
    · exact finRecorded_poll hes hi h
    · exact hi
    · exact finRecorded_over rfl

end TcpEchoserver

/-- Once everything is sent after a FIN, sent and poll of tcp_server.c change
nothing: the connection stays open for good. -/
theorem tcpServer_stays_open {ls : List Label} {c : Conn} {es : Es}
    (hc : exec (step tcpServerRecv) connected ls = some c) (hd : Drained c es) {l : Label}
    (hl : SendsOn l) : step tcpServerRecv c l = some c := by
  have hi : NeverClosing c := exec_keeps neverClosing_step neverClosing_connected hc
  have hpoll : ∀ answers, serverPoll answers c es = some c := fun answers =>
    serverPoll_of_not_closing hd.empty (hi es hd.opened)
  cases l with
  | sent answers =>
    by_cases hsent : c.sent = true
    · rw [step_sent hd.opened hsent, hpoll]
    · exact step_sent_of_not hsent
  | poll answers => rw [step_poll hd.opened, hpoll]
  | recv | error => cases hl

/-- At the same point of a run of tcp_echoserver.c either of them closes it. -/
theorem tcpEchoserver_closes {ls : List Label} {c : Conn} {es : Es}
    (hc : exec (step tcpEchoserverRecv) connected ls = some c) (hd : Drained c es) {l : Label}
    (hl : SendsOn l) : step tcpEchoserverRecv c l = some (serverConnectionClose c) := by
  have hi : FinRecorded c := exec_keeps finRecorded_step (by intro hf; cases hf) hc
  obtain ⟨hstate, hsent⟩ := hi hd.fin es hd.opened
  cases l with
  | sent answers => rw [step_sent hd.opened hsent, serverPoll_of_closing hd.empty hstate]
  | poll answers => rw [step_poll hd.opened, serverPoll_of_closing hd.empty hstate]
  | recv | error => cases hl

/-- A FIN that comes while nothing is pending closes the connection at once.
After one that comes before, once everything is sent, sent and poll of
tcp_server.c change nothing, for good, while in tcp_echoserver.c the first of
them closes the connection. -/
theorem fin_closed_when_idle (ls : List Label) :
    (Steps (step tcpServerRecv) FinIdle connected ls →
      ∀ c, exec (step tcpServerRecv) connected ls = some c → c.fin = true → c.es = none) ∧
    (∀ c es, exec (step tcpServerRecv) connected ls = some c → Drained c es →
      ∀ l, SendsOn l → step tcpServerRecv c l = some c) ∧
    ∀ c es, exec (step tcpEchoserverRecv) connected ls = some c → Drained c es →
      ∀ l, SendsOn l → step tcpEchoserverRecv c l = some (serverConnectionClose c) := by
  refine ⟨fun hok c hc => ?_, fun c es hc hd l hl => ?_, fun c es hc hd l hl => ?_⟩
  · exact exec_invariant finCloses_step (fun hf => by cases hf) hok hc
  · exact tcpServer_stays_open hc hd hl
  · exact tcpEchoserver_closes hc hd hl

/-- A segment and then a FIN for which there is no room, and a sent callback
with room for it. -/
def finPending : List Label :=
  [.recv [lit "a"] .ok [] (fun _ => ⟨0, .ok⟩), .recv [] .ok [] (fun _ => ⟨0, .ok⟩),
    .sent (fun _ => ⟨1, .ok⟩)]

def finIdle : List Label :=
  [.recv [lit "a"] .ok [] (fun _ => ⟨0, .ok⟩), .sent (fun _ => ⟨1, .ok⟩),
    .recv [] .ok [] (fun _ => ⟨0, .ok⟩)]

theorem fin_closed_when_idle_both :
    (∃ c, exec (step tcpServerRecv) connected finIdle = some c ∧ c.fin = true ∧ c.es = none) ∧
    ∃ c d, exec (step tcpServerRecv) connected finPending = some c ∧
      exec (step tcpEchoserverRecv) connected finPending = some d ∧
      step tcpServerRecv c (.poll fun _ => ⟨1, .ok⟩) = some c ∧
      step tcpEchoserverRecv d (.poll fun _ => ⟨1, .ok⟩) = some (serverConnectionClose d) :=
  ⟨⟨_, rfl, rfl, (fin_closed_when_idle finIdle).1 (by decide) _ rfl rfl⟩, _, _, rfl, rfl,
    (fin_closed_when_idle finPending).2.1 _ _ rfl ⟨rfl, rfl, rfl⟩ _ trivial,
    (fin_closed_when_idle finPending).2.2 _ _ rfl ⟨rfl, rfl, rfl⟩ _ trivial⟩

/-- The polls and the sent callback after it: tcp_server.c has written all it
received and stays open. -/
theorem finPending_left_open :
    (exec (step tcpServerRecv) connected (finPending ++ [.poll fun _ => ⟨1, .ok⟩,
      .sent fun _ => ⟨1, .ok⟩, .poll fun _ => ⟨1, .ok⟩])).map
        (fun c => (c.es, c.fin, c.received, c.written)) =
      some (some ⟨.received, none⟩, true, lit "a", lit "a") ∧
    (exec (step tcpEchoserverRecv) connected (finPending ++ [.poll fun _ => ⟨1, .ok⟩])).map
        (fun c => (c.es, c.fin, c.received, c.written)) =
      some (none, true, lit "a", lit "a") := by
  decide

end PopcornFirmware.Standalone.CloseAfterFin
