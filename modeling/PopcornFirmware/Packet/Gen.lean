import PopcornFirmware.Lib.CText

namespace PopcornFirmware.Packet.Gen

open PopcornFirmware.Lib.CText

/-- The globals that json_Packet_Gen prints besides recv_serial. An item is
given by its %f text. -/
structure Env where
  rtcYear : Int
  rtcMonth : Int
  rtcDay : Int
  rtcHour : Int
  rtcMinute : Int
  rtcSecond : Int
  iotItem1 : Text
  iotItem2 : Text

/-- The values the globals are initialised with. -/
def programEnv : Env where
  rtcYear := 2017
  rtcMonth := 7
  rtcDay := 10
  rtcHour := 10
  rtcMinute := 15
  rtcSecond := 7
  iotItem1 := lit "11.100000"
  iotItem2 := lit "12.100000"

def macAddr0 : Nat := 0xA0
def macAddr1 : Nat := 0xCA
def macAddr2 : Nat := 0x11
def macAddr3 : Nat := 0x1A
def macAddr4 : Nat := 0x17
def macAddr5 : Nat := 0xFF

/-- The text of "%02X:%02X:%02X:%02X:%02X:%02X". -/
def macText : Text :=
  fmtHex2 macAddr0 ++ ch ':' :: (fmtHex2 macAddr1 ++ ch ':' :: (fmtHex2 macAddr2 ++
    ch ':' :: (fmtHex2 macAddr3 ++ ch ':' :: (fmtHex2 macAddr4 ++ ch ':' :: fmtHex2 macAddr5))))

/-- The text of "%.4d-%.2d-%.2d:%.2d:%.2d:%.2d". -/
def timeText (env : Env) : Text :=
  fmtPrec 4 env.rtcYear ++ ch '-' :: (fmtPrec 2 env.rtcMonth ++ ch '-' ::
    (fmtPrec 2 env.rtcDay ++ ch ':' :: (fmtPrec 2 env.rtcHour ++ ch ':' ::
      (fmtPrec 2 env.rtcMinute ++ ch ':' :: fmtPrec 2 env.rtcSecond))))

def requestSerialNo (recvSerial : BitVec 32) : Text :=
  lit "\"iot_request_history_id\":\"" ++ (fmtInt recvSerial.toInt ++ lit "\"")

def checkTime (env : Env) : Text :=
  lit "\"check_time\":\"" ++ (timeText env ++ lit "\"")

/-- The text of "{%s,%s,%s,%s}". -/
def braced (mac serial time data : Text) : Text :=
  lit "\x7b" ++ mac ++ lit "," ++ serial ++ lit "," ++ time ++ lit "," ++ data ++ lit "\x7d"

section Working

def macAddr : Text := lit "\"iot_mac_addr\":\"" ++ (macText ++ lit "\"")

def checkData (env : Env) : Text :=
  lit "\"check_data\":[\x7b\"iot_item_id\":\"5\",\"data\":\"" ++ (env.iotItem1 ++
    (lit "\"\x7d,\x7b\"iot_item_id\":\"6\",\"data\":\"" ++ (env.iotItem2 ++ lit "\"\x7d]")))

/-- json_Packet_Gen up to json_packet. -/
def jsonPacket (env : Env) (recvSerial : BitVec 32) : Option Text := do
  let mac ← sprintf 40 macAddr
  let serial ← sprintf 40 (requestSerialNo recvSerial)
  let time ← sprintf 40 (checkTime env)
  let data ← sprintf 150 (checkData env)
  sprintf 300 (braced mac serial time data)

/-- json_Packet_Gen: what it leaves in post_packet. The length that it takes
of json_packet is not used. -/
def jsonPacketGen (env : Env) (recvSerial : BitVec 32) : Option Text := do
  let packet ← jsonPacket env recvSerial
  sprintf 450 (packet ++ lit "EOF\r\n")

end Working

section Http

/-- What differs between the two projects that send HTTP. -/
structure Variant where
  -- sizeof(post_packet)
  postPacketSize : Nat
  -- the text between the header lines Content-Type and Content-Length
  separator : Text

def tcpEchoClient : Variant := ⟨300, []⟩

def udptcpEchoServerNetconn : Variant := ⟨450, lit "\r\n"⟩

/-- The format string ends in a closing brace here. -/
def httpMacAddr : Text := lit "\"iot_mac_addr\":\"" ++ (macText ++ lit "\"\x7d")

def httpCheckData (env : Env) : Text :=
  lit "\"check_data\":[\x7b\"iot_item_id\":\"A001\",\"data\":\"" ++ (env.iotItem1 ++ lit "\"\x7d]")

def httpJsonPacket (env : Env) (recvSerial : BitVec 32) : Option Text := do
  let mac ← sprintf 40 httpMacAddr
  let serial ← sprintf 40 (requestSerialNo recvSerial)
  let time ← sprintf 40 (checkTime env)
  let data ← sprintf 100 (httpCheckData env)
  sprintf 300 (braced mac serial time data)

def postHeader (v : Variant) (contentLength : Nat) : Text :=
  lit "POST HTTP/1.1\r\nHost: 192.168.25.36::25261\r\nContent-Type: application/json; charset=utf-8" ++
    (v.separator ++ (lit "Content-Length: " ++ (decimal contentLength ++ lit "\r\n")))

/-- json_Packet_Gen of the HTTP projects: what it leaves in post_packet. -/
def httpPacketGen (v : Variant) (env : Env) (recvSerial : BitVec 32) : Option Text := do
  let packet ← httpJsonPacket env recvSerial
  let header ← sprintf 150 (postHeader v packet.length)
  sprintf v.postPacketSize (header ++ (lit "\r\n " ++ (packet ++ lit "\r\n\r\n")))

end Http

theorem fmtInt_length (s : BitVec 32) : (fmtInt s.toInt).length ≤ 11 := by
  have hlo := BitVec.le_toInt s
  have hhi := BitVec.toInt_lt (x := s)
  have habs : s.toInt.natAbs < 10 ^ 10 := by omega
  have hdec := decimal_length (by norm_num : 0 < 10) habs
  unfold fmtInt
  split
  · rw [List.length_cons]
    omega
  · omega

theorem fmtPrec_length {p : Nat} (hp : 0 < p) {z : Int} (h0 : 0 ≤ z) (hz : z < 10 ^ p) :
    (fmtPrec p z).length = p := by
  have hneg : ¬ z < 0 := by omega
  have habs : z.natAbs < 10 ^ p := by
    rw [← Int.natAbs_of_nonneg h0] at hz
    exact_mod_cast hz
  have hdec := decimal_length hp habs
  simp only [fmtPrec, if_neg hneg, List.length_append, List.length_replicate]
  omega

theorem requestSerialNo_length (s : BitVec 32) : (requestSerialNo s).length < 40 := by
  have hs := fmtInt_length s
  have hkey : (lit "\"iot_request_history_id\":\"").length = 26 := rfl
  have hend : (lit "\"").length = 1 := rfl
  simp only [requestSerialNo, List.length_append, hkey, hend]
  omega

/-- The clock stays within the digits that the format of check_time gives it. -/
structure Env.ClockInRange (env : Env) : Prop where
  year : 0 ≤ env.rtcYear ∧ env.rtcYear < 10 ^ 4
  month : 0 ≤ env.rtcMonth ∧ env.rtcMonth < 10 ^ 2
  day : 0 ≤ env.rtcDay ∧ env.rtcDay < 10 ^ 2
  hour : 0 ≤ env.rtcHour ∧ env.rtcHour < 10 ^ 2
  minute : 0 ≤ env.rtcMinute ∧ env.rtcMinute < 10 ^ 2
  second : 0 ≤ env.rtcSecond ∧ env.rtcSecond < 10 ^ 2

theorem programEnv_clockInRange : programEnv.ClockInRange := by
  constructor <;> decide

theorem checkTime_length {env : Env} (h : env.ClockInRange) : (checkTime env).length = 34 := by
  have hy := fmtPrec_length (by norm_num) h.year.1 h.year.2
  have hmo := fmtPrec_length (by norm_num) h.month.1 h.month.2
  have hd := fmtPrec_length (by norm_num) h.day.1 h.day.2
  have hh := fmtPrec_length (by norm_num) h.hour.1 h.hour.2
  have hmi := fmtPrec_length (by norm_num) h.minute.1 h.minute.2
  have hs := fmtPrec_length (by norm_num) h.second.1 h.second.2
  have hkey : (lit "\"check_time\":\"").length = 14 := rfl
  have hend : (lit "\"").length = 1 := rfl
  simp only [checkTime, timeText, List.length_append, List.length_cons, hy, hmo, hd, hh, hmi, hs,
    hkey, hend]

theorem braced_length (mac serial time data : Text) :
    (braced mac serial time data).length =
      mac.length + serial.length + time.length + data.length + 5 := by
  have hopen : (lit "\x7b").length = 1 := rfl
  have hclose : (lit "\x7d").length = 1 := rfl
  have hcomma : (lit ",").length = 1 := rfl
  simp only [braced, List.length_append, hopen, hclose, hcomma]
  omega

/-- With the clock in range only the item texts can overrun an array. -/
theorem jsonPacket_eq {env : Env} (hclock : env.ClockInRange)
    (hitems : (checkData env).length < 150) (s : BitVec 32) :
    jsonPacket env s =
      some (braced macAddr (requestSerialNo s) (checkTime env) (checkData env)) := by
  have hserial := requestSerialNo_length s
  have htime := checkTime_length hclock
  have hmac : macAddr.length = 34 := rfl
  have hlen : (braced macAddr (requestSerialNo s) (checkTime env) (checkData env)).length <
      300 := by
    rw [braced_length]
    omega
  simp [jsonPacket, sprintf_of_lt (by omega : macAddr.length < 40), sprintf_of_lt hserial,
    sprintf_of_lt (by omega : (checkTime env).length < 40), sprintf_of_lt hitems,
    sprintf_of_lt hlen]

theorem jsonPacketGen_eq {env : Env} (hclock : env.ClockInRange)
    (hitems : (checkData env).length < 150) (s : BitVec 32) :
    jsonPacketGen env s =
      some (braced macAddr (requestSerialNo s) (checkTime env) (checkData env) ++
        lit "EOF\r\n") := by
  have hserial := requestSerialNo_length s
  have htime := checkTime_length hclock
  have hmac : macAddr.length = 34 := rfl
  have heof : (lit "EOF\r\n").length = 5 := rfl
  have hlen : (braced macAddr (requestSerialNo s) (checkTime env) (checkData env) ++
      lit "EOF\r\n").length < 450 := by
    rw [List.length_append, braced_length]
    omega
  simp [jsonPacketGen, jsonPacket_eq hclock hitems s, sprintf_of_lt hlen]

end PopcornFirmware.Packet.Gen
