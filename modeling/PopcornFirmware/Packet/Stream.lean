import PopcornFirmware.Lib.Delimited
import PopcornFirmware.Packet.Gen
import PopcornFirmware.Packet.ReadObject
import PopcornFirmware.Packet.Str2int

namespace PopcornFirmware.Packet.Stream

open PopcornFirmware.Lib.CText PopcornFirmware.Lib.Delimited
open PopcornFirmware.Packet.Gen PopcornFirmware.Packet.ReadObject PopcornFirmware.Packet.Str2int
open PopcornFirmware.Packet.Tree

def eof : Text := lit "EOF\r\n"

def ItemText (t : Text) : Prop := ∀ c ∈ t, IsDigit c ∨ c = ch '.' ∨ c = ch '-'

instance : DecidablePred ItemText := fun _ => inferInstanceAs (Decidable (∀ c ∈ _, _))

/-- A text is one JSON object with the four members of a packet, and str2int
returns the serial from the text of the second one, whatever byte that is not
a digit follows it. -/
def IsPacket (numTokens : Nat) (body : Text) (serial : BitVec 32) : Prop :=
  ∃ mac history time data, readObject numTokens body =
      some [(lit "iot_mac_addr", mac), (lit "iot_request_history_id", history),
        (lit "check_time", time), (lit "check_data", data)] ∧
    ∀ c rest, ¬ IsDigit c → str2int (history ++ c :: rest) = some serial

/-- A piece of the stream is the packet of the serial and the delimiter. -/
def DecodesTo (numTokens : Nat) (piece : Text) (serial : BitVec 32) : Prop :=
  ∃ body, piece = body ++ eof ∧ IsPacket numTokens body serial

def Numeric (t : Text) : Prop := ∀ c ∈ t, IsDigit c ∨ c = ch '.' ∨ c = ch '-' ∨ c = ch ':'

theorem Numeric.append {t u : Text} (ht : Numeric t) (hu : Numeric u) : Numeric (t ++ u) :=
  fun c hc => (List.mem_append.mp hc).elim (ht c) (hu c)

theorem Numeric.cons {c : UInt8} {t : Text} (hc : c = ch '.' ∨ c = ch '-' ∨ c = ch ':')
    (ht : Numeric t) : Numeric (c :: t) := by
  intro d hd
  obtain rfl | hd := List.mem_cons.mp hd
  · exact Or.inr hc
  · exact ht d hd

theorem Numeric.plain {t : Text} (ht : Numeric t) : Plain t := by
  intro c hc
  obtain hdigit | rfl | rfl | rfl := ht c hc
  · have hrange := (isDigit_iff c).mp hdigit
    refine ⟨?_, ?_, ?_⟩ <;> rintro rfl <;> revert hrange <;> decide
  · decide
  · decide
  · decide

def Ends (c : UInt8) : Prop := c = 0 ∨ c = ch '\n'

theorem Numeric.not_mem {t : Text} (ht : Numeric t) {c : UInt8} (hc : Ends c) : c ∉ t := by
  intro hmem
  obtain rfl | rfl := hc <;> exact absurd (ht _ hmem) (by decide)

theorem ItemText.numeric {t : Text} (ht : ItemText t) : Numeric t := by
  intro c hc
  obtain hdigit | hdot | hminus := ht c hc
  · exact Or.inl hdigit
  · exact Or.inr (Or.inl hdot)
  · exact Or.inr (Or.inr (Or.inl hminus))

theorem decimal_numeric (n : Nat) : Numeric (decimal n) :=
  fun c hc => Or.inl (decimal_digits n c hc)

theorem fmtInt_numeric (z : Int) : Numeric (fmtInt z) := by
  unfold fmtInt
  split
  · exact Numeric.cons (by simp) (decimal_numeric _)
  · exact decimal_numeric _

theorem fmtPrec_numeric (p : Nat) (z : Int) : Numeric (fmtPrec p z) := by
  have hpad : Numeric (List.replicate (p - (decimal z.natAbs).length) (ch '0') ++
      decimal z.natAbs) := by
    refine Numeric.append ?_ (decimal_numeric _)
    intro c hc
    rw [List.eq_of_mem_replicate hc]
    exact Or.inl (by decide)
  simp only [fmtPrec]
  split
  · exact Numeric.cons (by simp) hpad
  · exact hpad

theorem timeText_numeric (env : Env) : Numeric (timeText env) := by
  have hsep : ∀ {t u : Text} {c : UInt8}, Numeric t → (c = ch '.' ∨ c = ch '-' ∨ c = ch ':') →
      Numeric u → Numeric (t ++ c :: u) := fun ht hc hu => ht.append (Numeric.cons hc hu)
  unfold timeText
  refine hsep (fmtPrec_numeric _ _) (by simp) ?_
  refine hsep (fmtPrec_numeric _ _) (by simp) ?_
  refine hsep (fmtPrec_numeric _ _) (by simp) ?_
  refine hsep (fmtPrec_numeric _ _) (by simp) ?_
  exact hsep (fmtPrec_numeric _ _) (by simp) (fmtPrec_numeric _ _)

def itemObject (id text : Text) : Json :=
  .obj (.cons (lit "iot_item_id") (.str id) (.cons (lit "data") (.str text) .nil))

def packetMembers (env : Env) (recvSerial : BitVec 32) : Members :=
  .cons (lit "iot_mac_addr") (.str macText)
    (.cons (lit "iot_request_history_id") (.str (fmtInt recvSerial.toInt))
      (.cons (lit "check_time") (.str (timeText env))
        (.cons (lit "check_data")
          (.arr (.cons (itemObject (lit "5") env.iotItem1)
            (.cons (itemObject (lit "6") env.iotItem2) .nil))) .nil)))

theorem braced_eq_render (env : Env) (s : BitVec 32) :
    braced macAddr (requestSerialNo s) (checkTime env) (checkData env) =
      (Json.obj (packetMembers env s)).render := by
  have hmac : lit "\"iot_mac_addr\":\"" = quoted (lit "iot_mac_addr") ++ [ch ':', ch '"'] := rfl
  have hserial : lit "\"iot_request_history_id\":\"" =
      quoted (lit "iot_request_history_id") ++ [ch ':', ch '"'] := rfl
  have htime : lit "\"check_time\":\"" = quoted (lit "check_time") ++ [ch ':', ch '"'] := rfl
  have hdata : lit "\"check_data\":[\x7b\"iot_item_id\":\"5\",\"data\":\"" =
      quoted (lit "check_data") ++ (ch ':' :: ch '[' :: ch '\x7b' ::
        (quoted (lit "iot_item_id") ++ (ch ':' :: (quoted (lit "5") ++ (ch ',' ::
          (quoted (lit "data") ++ [ch ':', ch '"'])))))) := rfl
  have hnext : lit "\"\x7d,\x7b\"iot_item_id\":\"6\",\"data\":\"" =
      ch '"' :: ch '\x7d' :: ch ',' :: ch '\x7b' ::
        (quoted (lit "iot_item_id") ++ (ch ':' :: (quoted (lit "6") ++ (ch ',' ::
          (quoted (lit "data") ++ [ch ':', ch '"']))))) := rfl
  have hend : lit "\"\x7d]" = [ch '"', ch '\x7d', ch ']'] := rfl
  have hquote : lit "\"" = [ch '"'] := rfl
  have hopen : lit "\x7b" = [ch '\x7b'] := rfl
  have hclose : lit "\x7d" = [ch '\x7d'] := rfl
  have hcomma : lit "," = [ch ','] := rfl
  simp only [braced, macAddr, requestSerialNo, checkTime, checkData, hmac, hserial, htime, hdata,
    hnext, hend, hquote, hopen, hclose, hcomma, packetMembers, itemObject, Json.render,
    Members.render, Elems.render, quoted]
  simp only [List.append_assoc, List.cons_append, List.nil_append]

theorem packetMembers_wf {env : Env} (hitem1 : ItemText env.iotItem1)
    (hitem2 : ItemText env.iotItem2) (s : BitVec 32) : (packetMembers env s).WF := by
  have hobj : ∀ id text, Plain id → ItemText text → (itemObject id text).WF :=
    fun id text hid htext => ⟨by decide, hid, by decide, htext.numeric.plain, trivial⟩
  have hmac : Plain macText := by decide
  exact ⟨by decide, hmac, by decide, (fmtInt_numeric _).plain, by decide,
    (timeText_numeric env).plain, by decide,
    ⟨hobj _ _ (by decide) hitem1, hobj _ _ (by decide) hitem2, trivial⟩, trivial⟩

theorem not_mem_braced {env : Env} (hitem1 : ItemText env.iotItem1)
    (hitem2 : ItemText env.iotItem2) (s : BitVec 32) {c : UInt8} (hc : Ends c) :
    c ∉ braced macAddr (requestSerialNo s) (checkTime env) (checkData env) := by
  have hserial := (fmtInt_numeric s.toInt).not_mem hc
  have htime := (timeText_numeric env).not_mem hc
  have h1 := hitem1.numeric.not_mem hc
  have h2 := hitem2.numeric.not_mem hc
  simp only [braced, macAddr, requestSerialNo, checkTime, checkData, List.mem_append, not_or]
  refine ⟨⟨⟨⟨⟨⟨⟨⟨?_, ?_, ?_, ?_⟩, ?_⟩, ?_, hserial, ?_⟩, ?_⟩, ?_, htime, ?_⟩, ?_⟩,
    ?_, h1, ?_, h2, ?_⟩, ?_⟩ <;> obtain rfl | rfl := hc <;> decide

theorem packetMembers_toks_length (env : Env) (s : BitVec 32) :
    ((Json.obj (packetMembers env s)).toks 0).length = 19 := by
  simp [packetMembers, itemObject, Json.toks, Members.toks, Elems.toks]

theorem readObject_packet {env : Env} (hitem1 : ItemText env.iotItem1)
    (hitem2 : ItemText env.iotItem2) {numTokens : Nat} (hcap : 19 ≤ numTokens) (s : BitVec 32) :
    readObject numTokens (braced macAddr (requestSerialNo s) (checkTime env) (checkData env)) =
      some (packetMembers env s).texts := by
  rw [braced_eq_render]
  exact readObject_render _ (packetMembers_wf hitem1 hitem2 s) numTokens
    (by rw [packetMembers_toks_length]; exact hcap)

theorem packet_decodesTo {env : Env} (hitem1 : ItemText env.iotItem1)
    (hitem2 : ItemText env.iotItem2) {numTokens : Nat} (hcap : 19 ≤ numTokens) (s : BitVec 32) :
    DecodesTo numTokens
      (braced macAddr (requestSerialNo s) (checkTime env) (checkData env) ++ eof) s := by
  have hread := readObject_packet hitem1 hitem2 hcap s
  exact ⟨_, rfl, _, _, _, _, hread, fun c rest hc => str2int_fmtInt s c rest hc⟩

/-- Cutting a stream of packets behind every EOF line gives its serials back. -/
theorem packetStream_decodes (env : Env) (hclock : env.ClockInRange)
    (hitem1 : ItemText env.iotItem1) (hitem2 : ItemText env.iotItem2)
    (hfit : (checkData env).length < 150) (numTokens : Nat) (hcap : 19 ≤ numTokens)
    (serials : List (BitVec 32)) :
    ∃ packets, serials.mapM (jsonPacketGen env) = some packets ∧
      (cutAfter eof packets.flatten).length = serials.length ∧
      List.Forall₂ (DecodesTo numTokens) (cutAfter eof packets.flatten) serials := by
  let body := fun s => braced macAddr (requestSerialNo s) (checkTime env) (checkData env)
  have hgen : jsonPacketGen env = fun s => pure (body s ++ eof) :=
    funext fun s => jsonPacketGen_eq hclock hfit s
  have hcut : cutAfter eof ((serials.map body).map (· ++ eof)).flatten =
      (serials.map body).map (· ++ eof) := by
    refine cutAfter_flatten (d := lit "EOF\r") (c := ch '\n') _ (by decide) ?_
    intro b hb
    obtain ⟨s, -, rfl⟩ := List.mem_map.mp hb
    exact not_mem_braced hitem1 hitem2 s (Or.inr rfl)
  refine ⟨(serials.map body).map (· ++ eof), ?_, ?_, ?_⟩
  · rw [hgen, List.mapM_pure, List.map_map]
    rfl
  · rw [hcut, List.length_map, List.length_map]
  · rw [hcut, List.map_map, List.forall₂_map_left_iff]
    exact List.forall₂_same.mpr fun s _ => packet_decodesTo hitem1 hitem2 hcap s

theorem programEnv_itemText : ItemText programEnv.iotItem1 ∧ ItemText programEnv.iotItem2 := by
  decide

theorem programEnv_fits : (checkData programEnv).length < 150 := by
  decide

theorem packet_no_nul {s : BitVec 32} {text : Text} (h : jsonPacketGen programEnv s = some text) :
    ∀ c ∈ text, c ≠ 0 := by
  rw [jsonPacketGen_eq programEnv_clockInRange programEnv_fits s] at h
  cases h
  rintro c hc rfl
  obtain hc | hc := List.mem_append.mp hc
  · exact not_mem_braced programEnv_itemText.1 programEnv_itemText.2 s (Or.inl rfl) hc
  · exact absurd hc (by decide)

theorem packetStream_decodes_program :
    ∃ packets, [5, BitVec.intMin 32, -17].mapM (jsonPacketGen programEnv) = some packets ∧
      (cutAfter eof packets.flatten).length = 3 ∧
      List.Forall₂ (DecodesTo 19) (cutAfter eof packets.flatten) [5, BitVec.intMin 32, -17] :=
  packetStream_decodes programEnv programEnv_clockInRange programEnv_itemText.1
    programEnv_itemText.2 programEnv_fits 19 (by decide) [5, BitVec.intMin 32, -17]

end PopcornFirmware.Packet.Stream
