import PopcornFirmware.Packet.SerialRange
import PopcornFirmware.Standalone.RawServer

namespace PopcornFirmware.Standalone.SerialExtraction

open PopcornFirmware.Lib.CText PopcornFirmware.Lib.LinkedHeap PopcornFirmware.Lib.Runs
open PopcornFirmware.Lwip.Pbufs PopcornFirmware.Packet.Gen PopcornFirmware.Packet.Http
open PopcornFirmware.Packet.SerialRange PopcornFirmware.Packet.Str2int
open PopcornFirmware.Standalone.RawServer

/-- The decimal number a segment starts with; 0 when it starts with none. -/
def leadingNumber (segment : Text) : Nat := value (segment.takeWhile (IsDigit ·))

/-- Whatever the globals have been, the callback leaves a serial in recv_serial,
the flags set for it and its packet in post_packet. -/
def Extracts (c : Conn) (l : Label) (serial : Nat) : Prop :=
  ∀ g : Globals, ∃ t, step tcpServerRecv { c with globals := g } l = some t ∧
    t.globals.recvSerial.toInt = serial ∧ t.globals.flagRecvSerial = true ∧
    t.globals.flagErrRecvSerial = false ∧
    httpPacketGen tcpEchoClient programEnv t.globals.recvSerial = some t.globals.postPacket

def IsPositiveInt (n : Nat) : Prop := 1 ≤ n ∧ n ≤ 2147483647

/-- A segment that starts with the number of a serial is extracted. -/
def Extracted (c : Conn) : Label → Prop
  | .recv payloads .ok after answers => IsPositiveInt (leadingNumber payloads.flatten) →
      Extracts c (.recv payloads .ok after answers) (leadingNumber payloads.flatten)
  | _ => True

/-- Such a segment is not the first one, finds nothing left to be sent, and the
memory at the payload of its first pbuf reads as the same number. -/
def ReachesSerial (c : Conn) : Label → Prop
  | .recv payloads .ok after _ => IsPositiveInt (leadingNumber payloads.flatten) →
      c.es = some ⟨.received, none⟩ ∧
        denoted (payloads.headD [] ++ (after ++ [0])) % 2 ^ 32 = leadingNumber payloads.flatten
  | _ => True

/-- Where the digits end in the first pbuf, that memory does read as the same
number. -/
theorem denoted_of_ended {ds rest : Text} {c : UInt8} {texts : List Text} {after : Text}
    (hne : ds ≠ []) (hds : ∀ c ∈ ds, IsDigit c) (hc : ¬ IsDigit c) :
    denoted (((ds ++ c :: rest) :: texts).headD [] ++ (after ++ [0])) =
      leadingNumber ((ds ++ c :: rest) :: texts).flatten := by
  have hmem : ((ds ++ c :: rest) :: texts).headD [] ++ (after ++ [0]) =
      [] ++ (ds ++ c :: (rest ++ (after ++ [0]))) := by
    simp
  obtain ⟨hsign, hdigit⟩ := runs_eq (rest ++ (after ++ [0]))
    (List.forall_mem_nil (IsSign ·)) hds hc fun hnil => absurd hnil hne
  have hlead : ((ds ++ c :: rest) :: texts).flatten.takeWhile (IsDigit ·) = ds := by
    rw [List.flatten_cons, List.append_assoc,
      List.takeWhile_append_of_pos fun b hb => decide_eq_true (hds b hb), List.cons_append,
      List.takeWhile_cons_of_neg (by simp [hc]), List.append_nil]
  rw [denoted, hmem, hsign, hdigit, leadingNumber, hlead]
  simp

section Segment

variable {c t : Conn} {after : Text} {answers : Nat → Answer}

theorem checkSerial_denoted (g : Globals) (payload after : Text) :
    checkSerial g (payload ++ (after ++ [0])) =
      (if (BitVec.ofInt 32 (denoted (payload ++ (after ++ [0])))).toInt ≤ 0 then
        some { g with
          recvSerial := BitVec.ofInt 32 (denoted (payload ++ (after ++ [0])))
          flagErrRecvSerial := true }
      else (httpPacketGen tcpEchoClient programEnv
          (BitVec.ofInt 32 (denoted (payload ++ (after ++ [0]))))).map fun text =>
        { recvSerial := BitVec.ofInt 32 (denoted (payload ++ (after ++ [0])))
          flagErrRecvSerial := false
          flagRecvSerial := true
          postPacket := text }) := by
  rw [checkSerial, str2int_denoted (by simp), Option.bind_some]

/-- The first pbuf of a segment has the identity that is handed over. -/
theorem arrive_head (c : Conn) (text : Text) (texts : List Text) :
    (pbufAlloc c.mem (text :: texts)).2 = some c.mem.length ∧
      ∃ b, deref (arrive c (text :: texts)).mem c.mem.length = some b ∧ b.payload = text :=
  ⟨rfl, pbufAlloc_head c.mem text texts⟩

/-- In the branch for a further segment with nothing pending, the serial is
what the memory at the payload reads as. -/
theorem step_reached (c : Conn) (text : Text) (texts : List Text) (after : Text)
    (answers : Nat → Answer) (hes : c.es = some ⟨.received, none⟩) :
    (step tcpServerRecv c (.recv (text :: texts) .ok after answers)).map Conn.globals =
      checkSerial c.globals (text ++ (after ++ [0])) := by
  obtain ⟨halloc, b, hb, hpayload⟩ := arrive_head c text texts
  have hglobals : (arrive c (text :: texts)).globals = c.globals := rfl
  rw [step_recv hes, halloc]
  simp only [tcpServerRecv, ne_eq, not_true_eq_false, if_false, if_true, hb, Option.bind_some,
    hpayload, hglobals, Option.map_map]
  cases checkSerial c.globals (text ++ (after ++ [0])) <;> rfl

/-- In every other branch the globals stay. -/
theorem step_not_reached {payloads : List Text} {err : ErrT}
    (h : step tcpServerRecv c (.recv payloads err after answers) = some t)
    (hes : c.es ≠ some ⟨.received, none⟩) : t.globals = c.globals := by
  cases hget : c.es with
  | none =>
    rw [step_over hget] at h
    cases h
    rfl
  | some es =>
    rw [step_recv hget] at h
    refine tcpServerRecv_globals (c := arrive c payloads) h fun hreach => hes ?_
    obtain ⟨-, hstate, hp, -⟩ := hreach
    obtain ⟨state, p⟩ := es
    rw [hget, ← hstate, ← hp]

theorem toInt_eq_iff {v : Int} {serial : Nat} (hserial : IsPositiveInt serial) :
    (BitVec.ofInt 32 v).toInt = serial ↔ v % 2 ^ 32 = serial := by
  obtain ⟨hpos, hle⟩ := hserial
  rw [BitVec.toInt_ofInt, Int.bmod_def]
  split <;> omega

theorem extracts_iff (c : Conn) (text : Text) (texts : List Text) (after : Text)
    (answers : Nat → Answer) {serial : Nat} (hserial : IsPositiveInt serial) :
    Extracts c (.recv (text :: texts) .ok after answers) serial ↔
      c.es = some ⟨.received, none⟩ ∧ denoted (text ++ (after ++ [0])) % 2 ^ 32 = serial := by
  have hvalue := toInt_eq_iff (v := denoted (text ++ (after ++ [0]))) hserial
  constructor
  · intro h
    obtain ⟨t, ht, hrecv, hflag, -⟩ := h ⟨0, false, false, []⟩
    have hes : c.es = some ⟨.received, none⟩ := by
      by_contra hne
      rw [step_not_reached ht hne] at hflag
      cases hflag
    have hcheck := step_reached { c with globals := ⟨0, false, false, []⟩ } text texts after
      answers hes
    rw [ht, Option.map_some, checkSerial_denoted] at hcheck
    split at hcheck
    · rw [Option.some.inj hcheck] at hflag
      cases hflag
    · obtain ⟨packet, -, hg⟩ := Option.map_eq_some_iff.mp hcheck.symm
      rw [← hg] at hrecv
      exact ⟨hes, hvalue.mp hrecv⟩
  · rintro ⟨hes, hden⟩ g
    have hint := hvalue.mpr hden
    have hpos : ¬ (BitVec.ofInt 32 (denoted (text ++ (after ++ [0])))).toInt ≤ 0 := by
      rw [hint]
      have := hserial.1
      omega
    have hgen := httpPacketGen_eq tcpEchoClient (by decide) (by decide)
      (BitVec.ofInt 32 (denoted (text ++ (after ++ [0]))))
    have hcheck := step_reached { c with globals := g } text texts after answers hes
    rw [checkSerial_denoted, if_neg hpos, hgen, Option.map_some] at hcheck
    obtain ⟨t, ht, hg⟩ := Option.map_eq_some_iff.mp hcheck
    refine ⟨t, ht, ?_⟩
    rw [hg]
    exact ⟨hint, rfl, rfl, hgen⟩

end Segment

theorem extracted_iff (c : Conn) (l : Label) : Extracted c l ↔ ReachesSerial c l := by
  cases l with
  | recv payloads err after answers =>
    cases err with
    | ok =>
      refine imp_congr_right fun hserial => ?_
      cases payloads with
      | nil => exact absurd hserial.1 (by decide)
      | cons text texts => exact extracts_iff c text texts after answers hserial
    | mem | other => exact Iff.rfl
  | sent answers | poll answers | error => exact Iff.rfl

end PopcornFirmware.Standalone.SerialExtraction
