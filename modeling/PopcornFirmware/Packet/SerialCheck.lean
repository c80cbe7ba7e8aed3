import PopcornFirmware.Packet.Receive

namespace PopcornFirmware.Packet.SerialCheck

open PopcornFirmware.Lib.CText PopcornFirmware.Packet.Str2int PopcornFirmware.Packet.Receive

/-- The size of serial_check in both callbacks. -/
abbrev serialCheckSize : Nat := 100

/-- The frame of a callback from serial_check on: the array and the bytes
above it. -/
structure Frame where
  serialCheck : Text
  above : Text
  size : serialCheck.length = serialCheckSize

def Frame.memory (f : Frame) : Text := f.serialCheck ++ f.above

/-- A store of bytes from the start of serial_check on, in the array and above
it alike. -/
def Frame.write (f : Frame) (bytes : Text) : Frame where
  serialCheck := (bytes ++ f.memory.drop bytes.length).take serialCheckSize
  above := (bytes ++ f.memory.drop bytes.length).drop serialCheckSize
  size := by
    have hsize := f.size
    simp only [Frame.memory, List.length_take, List.length_append, List.length_drop]
    omega

/-- What "Serial no: %s \\r\\n" makes of a string of n bytes. -/
def serialText (str : Text) (n : Nat) : Text := lit "Serial no: " ++ str.take n ++ lit " \r\n"

/-- The statement that formats the payload into serial_check. -/
def formatSerial (payload : Text) (f : Frame) : Option Frame :=
  (strlen payload).map fun n => f.write (serialText payload n ++ [0])

def tcpServerRecvFormat : Text → Frame → Option Frame := formatSerial

def tcpEchoclientRecvFormat : Text → Frame → Option Frame := formatSerial

/-- The text and its NUL are at most 100 bytes, no byte outside serial_check
changes, and the string that starts there ends in it. -/
def Fits (format : Text → Frame → Option Frame) (payload : Text) : Prop :=
  ∃ n, strlen payload = some n ∧ (serialText payload n ++ [0]).length ≤ serialCheckSize ∧
    ∀ f, ∃ f', format payload f = some f' ∧ f'.above = f.above ∧
      ∃ k, strlen f'.memory = some k ∧ k < serialCheckSize

variable {f : Frame} {bytes payload : Text} {n : Nat}

theorem Frame.memory_write (f : Frame) (bytes : Text) :
    (f.write bytes).memory = bytes ++ f.memory.drop bytes.length :=
  List.take_append_drop serialCheckSize _

theorem Frame.write_above (h : bytes.length ≤ serialCheckSize) :
    (f.write bytes).above = f.above := by
  have hrest : (f.memory.drop bytes.length).drop (serialCheckSize - bytes.length) = f.above := by
    rw [List.drop_drop, Nat.add_sub_cancel' h]
    exact List.drop_left' f.size
  rw [Frame.write, List.drop_append, List.drop_eq_nil_of_le h, List.nil_append, hrest]

/-- A longer text changes some byte above the array. -/
theorem Frame.exists_overrun (h : serialCheckSize < bytes.length) :
    ∃ f : Frame, (f.write bytes).above ≠ f.above := by
  refine ⟨⟨List.replicate serialCheckSize 0, [bytes[serialCheckSize] + 1], by simp⟩, fun heq => ?_⟩
  have hbyte := congrArg (·[0]?) heq
  simp [Frame.write, List.getElem?_append_left h, h] at hbyte

theorem serialText_length (hn : n ≤ payload.length) :
    (serialText payload n ++ [0]).length = n + 15 := by
  rw [List.length_append, List.length_singleton, serialText, serialCheck_length hn]

theorem serialText_ne_zero (h : strlen payload = some n) : ∀ c ∈ serialText payload n, c ≠ 0 := by
  intro c hc
  rw [serialText, List.mem_append, List.mem_append] at hc
  obtain (hc | hc) | hc := hc
  · revert c
    decide
  · exact ne_zero_of_mem_take h c hc
  · revert c
    decide

/-- The text fits when a NUL is among the first 86 bytes that are read. -/
theorem fits_iff : Fits formatSerial payload ↔ ∃ n, strlen payload = some n ∧ n < 86 := by
  refine exists_congr fun n => and_congr_right fun hn => ?_
  have hlen : (serialText payload n ++ [0]).length = n + 15 :=
    serialText_length (strlen_lt payload hn).le
  constructor
  · rintro ⟨hfit, -⟩
    unfold serialCheckSize at hfit
    omega
  · intro hlt
    have hfit : (serialText payload n ++ [0]).length ≤ serialCheckSize := by
      unfold serialCheckSize
      omega
    refine ⟨hfit, fun f => ⟨f.write (serialText payload n ++ [0]), ?_, Frame.write_above hfit,
      (serialText payload n).length, ?_, ?_⟩⟩
    · rw [formatSerial, hn, Option.map_some]
    · rw [Frame.memory_write, List.append_assoc]
      exact strlen_append_zero _ _ (serialText_ne_zero hn)
    · rw [List.length_append, List.length_singleton] at hfit
      omega

/-- With the first NUL further on, the statement changes a byte above the array
in some frame. -/
theorem overruns (hn : strlen payload = some n) (hlong : 86 ≤ n) :
    ∃ f f', formatSerial payload f = some f' ∧ f'.above ≠ f.above := by
  have hlen : (serialText payload n ++ [0]).length = n + 15 :=
    serialText_length (strlen_lt payload hn).le
  have hover : serialCheckSize < (serialText payload n ++ [0]).length := by
    unfold serialCheckSize
    omega
  obtain ⟨f, hf⟩ := Frame.exists_overrun hover
  exact ⟨f, _, by rw [formatSerial, hn, Option.map_some], hf⟩

/-- The receive paths have a defined outcome for the texts that fit. -/
theorem tcpServerRecv_isSome :
    (tcpServerRecv payload).isSome ↔ Fits tcpServerRecvFormat payload := by
  refine Iff.trans ?_ fits_iff.symm
  constructor
  · intro h
    obtain ⟨⟨o, read⟩, hpath⟩ := Option.isSome_iff_exists.mp h
    simp only [tcpServerRecv, checkedRecv, Option.bind_eq_bind, Option.bind_eq_some_iff] at hpath
    obtain ⟨n, hn, text, htext, -⟩ := hpath
    have hfit := (sprintf_eq_some.mp htext).1
    rw [serialCheck_length (strlen_lt payload hn).le] at hfit
    exact ⟨n, hn, by omega⟩
  · rintro ⟨n, hn, hlt⟩
    have hlen := serialCheck_length (strlen_lt payload hn).le
    have hprint := sprintf_of_lt (hlen.trans_lt (by omega : n + 14 < 100))
    obtain ⟨r, hr⟩ := Option.isSome_iff_exists.mp
      (scan_isSome_of_not_runsOn (not_runsOn_of_strlen hn))
    simp only [tcpServerRecv, checkedRecv, Option.bind_eq_bind, hn, hprint, str2int, bytesRead, hr,
      Option.map_some, Option.bind_some]
    rfl

/-- The text of a segment and of the memory behind it fits into serial_check in
either callback exactly when one of its first 86 bytes is a NUL. -/
theorem serialCheck_fits (payload after : Text) :
    (Fits tcpServerRecvFormat (payload ++ after) ↔
      ∃ n, strlen (payload ++ after) = some n ∧ n < 86) ∧
    (Fits tcpEchoclientRecvFormat (payload ++ after) ↔
      ∃ n, strlen (payload ++ after) = some n ∧ n < 86) :=
  ⟨fits_iff, fits_iff⟩

def tcpMss : Nat := 1460

/-- A segment of 86 characters with a NUL in the memory behind it. -/
theorem serialCheck_overrun :
    (¬ ∀ payload after, payload.length ≤ tcpMss →
      Fits tcpServerRecvFormat (payload ++ after) ∧
        Fits tcpEchoclientRecvFormat (payload ++ after)) ∧
    (∃ f f', tcpServerRecvFormat (List.replicate 86 (ch 'a') ++ [0]) f = some f' ∧
      f'.above ≠ f.above) ∧
    (∃ f f', tcpEchoclientRecvFormat (List.replicate 86 (ch 'a') ++ [0]) f = some f' ∧
      f'.above ≠ f.above) := by
  have hn : strlen (List.replicate 86 (ch 'a') ++ [0]) = some 86 := by decide
  refine ⟨fun h => ?_, overruns hn (le_refl 86), overruns hn (le_refl 86)⟩
  have hfits := (h (List.replicate 86 (ch 'a')) [0] (by decide)).1
  obtain ⟨n, hn', hlt⟩ := fits_iff.mp hfits
  rw [hn] at hn'
  cases hn'
  omega

end PopcornFirmware.Packet.SerialCheck
