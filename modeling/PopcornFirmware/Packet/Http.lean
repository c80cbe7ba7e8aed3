import PopcornFirmware.Packet.Stream

namespace PopcornFirmware.Packet.Http

open PopcornFirmware.Lib.CText PopcornFirmware.Packet.Gen PopcornFirmware.Packet.Jsmn
open PopcornFirmware.Packet.JsmnRender PopcornFirmware.Packet.Stream PopcornFirmware.Packet.Tree

/-- The lines of a message up to the first empty one, without the CRLF that
ends each, and the body behind the empty line. The first argument holds what
has been read of the current line. -/
def splitHead : Text → Text → Option (List Text × Text)
  | _, [] => none
  | line, c :: cs =>
    if c = ch '\n' ∧ line.getLast? = some (ch '\r') then
      if line.dropLast = [] then some ([], cs)
      else (splitHead [] cs).map fun r => (line.dropLast :: r.1, r.2)
    else splitHead (line ++ [c]) cs

/-- A complete HTTP POST message whose body is the packet of a serial. -/
structure IsPost (msg : Text) (serial : BitVec 32) (requestLine : Text) (headers : List Text)
    (body : Text) : Prop where
  split : splitHead [] msg = some (requestLine :: headers, body)
  method : lit "POST " <+: requestLine
  host : ∃ v, lit "Host:" ++ v ∈ headers
  contentType : ∃ v, lit "Content-Type:" ++ v ∈ headers
  contentLength : ∃ k, lit "Content-Length:" ++
    (List.replicate k (ch ' ') ++ decimal body.length) ∈ headers
  packet : ∃ numTokens, IsPacket numTokens body serial

def WellFormed (msg : Text) (serial : BitVec 32) : Prop :=
  ∃ requestLine headers body, IsPost msg serial requestLine headers body

theorem splitHead_body (line l rest : Text) (hl : ch '\n' ∉ l) :
    splitHead line (l ++ rest) = splitHead (line ++ l) rest := by
  induction l generalizing line with
  | nil => simp
  | cons c l ih =>
    have hc : ¬ (c = ch '\n' ∧ line.getLast? = some (ch '\r')) := fun h => hl (by simp [h.1])
    have hl' : ch '\n' ∉ l := fun h => hl (by simp [h])
    rw [List.cons_append, splitHead, if_neg hc, ih _ hl', List.append_assoc]
    rfl

theorem splitHead_line {l : Text} (rest : Text) (hl : ch '\n' ∉ l) (hne : l ≠ []) :
    splitHead [] (l ++ (lit "\r\n" ++ rest)) =
      (splitHead [] rest).map fun r => (l :: r.1, r.2) := by
  have hcrlf : lit "\r\n" = [ch '\r', ch '\n'] := rfl
  have hl' : ch '\n' ∉ l ++ [ch '\r'] := by
    simp only [List.mem_append, List.mem_singleton, not_or]
    exact ⟨hl, by decide⟩
  have hsplit : l ++ (lit "\r\n" ++ rest) = (l ++ [ch '\r']) ++ ch '\n' :: rest := by
    simp [hcrlf]
  rw [hsplit, splitHead_body [] _ _ hl', List.nil_append, splitHead, if_pos (by simp)]
  simp [hne]

theorem splitHead_blank (rest : Text) :
    splitHead [] (lit "\r\n" ++ rest) = some ([], rest) := by
  have hcr : ¬ (ch '\r' = ch '\n' ∧ ([] : Text).getLast? = some (ch '\r')) := by simp
  change splitHead [] (ch '\r' :: ch '\n' :: rest) = _
  rw [splitHead, if_neg hcr, splitHead, if_pos (by simp)]
  simp

/-- The text of json_packet in both HTTP projects. -/
def httpJson (s : BitVec 32) : Text :=
  braced httpMacAddr (requestSerialNo s) (checkTime programEnv) (httpCheckData programEnv)

def httpBody (s : BitVec 32) : Text := ch ' ' :: (httpJson s ++ lit "\r\n\r\n")

theorem httpMacAddr_length : httpMacAddr.length = 35 := rfl

theorem httpCheckData_length : (httpCheckData programEnv).length = 56 := by decide

theorem httpJson_length (s : BitVec 32) :
    (httpJson s).length = 130 + (requestSerialNo s).length := by
  have htime := checkTime_length programEnv_clockInRange
  rw [httpJson, braced_length, httpMacAddr_length, httpCheckData_length]
  omega

theorem httpJsonPacket_eq (s : BitVec 32) : httpJsonPacket programEnv s = some (httpJson s) := by
  have hserial := requestSerialNo_length s
  have htime := checkTime_length programEnv_clockInRange
  have hlen := httpJson_length s
  have hmac : httpMacAddr.length < 40 := by
    rw [httpMacAddr_length]
    omega
  have hdata : (httpCheckData programEnv).length < 100 := by
    rw [httpCheckData_length]
    omega
  have hfit : (httpJson s).length < 300 := by omega
  simp [httpJsonPacket, sprintf_of_lt hmac, sprintf_of_lt hserial,
    sprintf_of_lt (by omega : (checkTime programEnv).length < 40), sprintf_of_lt hdata]
  exact sprintf_of_lt hfit

def postStart : Text :=
  lit "POST HTTP/1.1" ++ (lit "\r\n" ++ (lit "Host: 192.168.25.36::25261" ++ (lit "\r\n" ++
    lit "Content-Type: application/json; charset=utf-8")))

theorem postHeader_eq (v : Variant) (n : Nat) :
    postHeader v n =
      postStart ++ (v.separator ++ (lit "Content-Length: " ++ (decimal n ++ lit "\r\n"))) := by
  have hstart : lit "POST HTTP/1.1\r\nHost: 192.168.25.36::25261\r\nContent-Type: application/json; charset=utf-8" =
      postStart := by decide +kernel
  rw [postHeader, hstart]

theorem postHeader_length {v : Variant} (hsep : v.separator.length ≤ 2) (s : BitVec 32) :
    (postHeader v (httpJson s).length).length ≤ 111 := by
  have hserial := requestSerialNo_length s
  have hjson := httpJson_length s
  have hdec : (decimal (httpJson s).length).length ≤ 3 :=
    decimal_length (by norm_num) (by omega)
  have hstart : postStart.length = 88 := by decide
  have hname : (lit "Content-Length: ").length = 16 := rfl
  have hcrlf : (lit "\r\n").length = 2 := rfl
  simp only [postHeader_eq, List.length_append, hstart, hname, hcrlf]
  omega

theorem httpPacket_length {v : Variant} (hsep : v.separator.length ≤ 2) (s : BitVec 32) :
    (postHeader v (httpJson s).length ++ (lit "\r\n" ++ httpBody s)).length < 300 := by
  have hserial := requestSerialNo_length s
  have hjson := httpJson_length s
  have hheader := postHeader_length hsep s
  have hcrlf : (lit "\r\n").length = 2 := rfl
  have hend : (lit "\r\n\r\n").length = 4 := rfl
  simp only [httpBody, List.length_append, List.length_cons, hcrlf, hend]
  omega

/-- Neither project overruns an array, whatever the serial is. -/
theorem httpPacketGen_eq (v : Variant) (hsep : v.separator.length ≤ 2)
    (hsize : 300 ≤ v.postPacketSize) (s : BitVec 32) :
    httpPacketGen v programEnv s =
      some (postHeader v (httpJson s).length ++ (lit "\r\n" ++ httpBody s)) := by
  have hheader := postHeader_length hsep s
  have hpacket := httpPacket_length hsep s
  have hbody : lit "\r\n " ++ (httpJson s ++ lit "\r\n\r\n") = lit "\r\n" ++ httpBody s := rfl
  simp only [httpPacketGen, httpJsonPacket_eq, Option.bind_eq_bind, Option.bind_some,
    sprintf_of_lt (by omega : (postHeader v (httpJson s).length).length < 150), hbody]
  exact sprintf_of_lt (by omega)

theorem httpJson_no_nul (s : BitVec 32) : (0 : UInt8) ∉ httpJson s := by
  have hserial := (fmtInt_numeric s.toInt).not_mem (Or.inl rfl)
  simp only [httpJson, braced, requestSerialNo, List.mem_append, not_or]
  refine ⟨⟨⟨⟨⟨⟨⟨⟨?_, ?_⟩, ?_⟩, ?_, hserial, ?_⟩, ?_⟩, ?_⟩, ?_⟩, ?_⟩, ?_⟩ <;> decide

theorem httpPacket_no_nul {v : Variant} (hsep : v.separator.length ≤ 2)
    (hnul : (0 : UInt8) ∉ v.separator) (hsize : 300 ≤ v.postPacketSize) {s : BitVec 32}
    {text : Text} (h : httpPacketGen v programEnv s = some text) : ∀ c ∈ text, c ≠ 0 := by
  rw [httpPacketGen_eq v hsep hsize s] at h
  cases h
  have hjson := httpJson_no_nul s
  have hlen := (decimal_numeric (httpJson s).length).not_mem (Or.inl rfl)
  rintro c hc rfl
  revert hc
  simp only [postHeader_eq, httpBody, List.mem_append, List.mem_cons, not_or, imp_false]
  exact ⟨⟨by decide, hnul, by decide, hlen, by decide⟩, by decide, by decide, hjson, by decide⟩

theorem decimal_injective {m n : Nat} (h : decimal m = decimal n) : m = n := by
  have hm := foldl_decimal (R := Nat) m
  rw [h, foldl_decimal] at hm
  exact hm.symm

theorem decimal_no_newline (n : Nat) : ch '\n' ∉ decimal n :=
  (decimal_numeric n).not_mem (Or.inr rfl)

theorem ne_contentLength {t line : Text} (h : line.take 9 ≠ lit "Content-L") :
    lit "Content-Length:" ++ t ≠ line := by
  rintro rfl
  exact h rfl

section TcpEchoClient

/-- The header line that the missing line break makes of two. -/
def joinedLine (n : Nat) : Text :=
  lit "Content-Type: application/json; charset=utf-8Content-Length: " ++ decimal n

theorem splitHead_tcpEchoClient (n : Nat) (body : Text) :
    splitHead [] (postHeader tcpEchoClient n ++ (lit "\r\n" ++ body)) =
      some ([lit "POST HTTP/1.1", lit "Host: 192.168.25.36::25261", joinedLine n], body) := by
  have hjoin : lit "Content-Type: application/json; charset=utf-8Content-Length: " =
      lit "Content-Type: application/json; charset=utf-8" ++ lit "Content-Length: " := by decide
  have hmsg : postHeader tcpEchoClient n ++ (lit "\r\n" ++ body) =
      lit "POST HTTP/1.1" ++ (lit "\r\n" ++ (lit "Host: 192.168.25.36::25261" ++ (lit "\r\n" ++
        (joinedLine n ++ (lit "\r\n" ++ (lit "\r\n" ++ body)))))) := by
    simp only [postHeader_eq, postStart, joinedLine, hjoin, tcpEchoClient, List.append_assoc,
      List.nil_append]
  have hline : ch '\n' ∉ joinedLine n := by
    simp only [joinedLine, List.mem_append, not_or]
    exact ⟨by decide, decimal_no_newline n⟩
  rw [hmsg, splitHead_line _ (by decide) (by decide), splitHead_line _ (by decide) (by decide),
    splitHead_line _ hline (by simp [joinedLine, lit]), splitHead_blank]
  rfl

/-- The message of tcp_echo_client has no header Content-Length. -/
theorem tcpEchoClient_not_wellFormed (n : Nat) (body : Text) (s : BitVec 32) :
    ¬ WellFormed (postHeader tcpEchoClient n ++ (lit "\r\n" ++ body)) s := by
  rintro ⟨requestLine, headers, body', hpost⟩
  have hsplit := hpost.split
  rw [splitHead_tcpEchoClient] at hsplit
  obtain ⟨k, hk⟩ := hpost.contentLength
  simp only [Option.some.injEq, Prod.mk.injEq, List.cons.injEq] at hsplit
  obtain ⟨⟨-, rfl⟩, rfl⟩ := hsplit
  simp only [List.mem_cons, List.not_mem_nil, or_false] at hk
  obtain hhost | hjoined := hk
  · exact ne_contentLength (by decide) hhost
  · have htake : (joinedLine n).take 9 = lit "Content-T" := rfl
    exact ne_contentLength (by rw [htake]; decide) hjoined

end TcpEchoClient

section UdptcpEchoServerNetconn

theorem splitHead_udptcp (n : Nat) (body : Text) :
    splitHead [] (postHeader udptcpEchoServerNetconn n ++ (lit "\r\n" ++ body)) =
      some ([lit "POST HTTP/1.1", lit "Host: 192.168.25.36::25261",
        lit "Content-Type: application/json; charset=utf-8",
        lit "Content-Length: " ++ decimal n], body) := by
  have hmsg : postHeader udptcpEchoServerNetconn n ++ (lit "\r\n" ++ body) =
      lit "POST HTTP/1.1" ++ (lit "\r\n" ++ (lit "Host: 192.168.25.36::25261" ++ (lit "\r\n" ++
        (lit "Content-Type: application/json; charset=utf-8" ++ (lit "\r\n" ++
          ((lit "Content-Length: " ++ decimal n) ++ (lit "\r\n" ++ (lit "\r\n" ++ body)))))))) := by
    simp only [postHeader_eq, postStart, udptcpEchoServerNetconn, List.append_assoc]
  have hline : ch '\n' ∉ lit "Content-Length: " ++ decimal n := by
    simp only [List.mem_append, not_or]
    exact ⟨by decide, decimal_no_newline n⟩
  rw [hmsg, splitHead_line _ (by decide) (by decide), splitHead_line _ (by decide) (by decide),
    splitHead_line _ (by decide) (by decide), splitHead_line _ hline (by simp [lit]),
    splitHead_blank]
  rfl

theorem contentLength_eq {k m n : Nat}
    (h : lit "Content-Length:" ++ (List.replicate k (ch ' ') ++ decimal m) =
      lit "Content-Length: " ++ decimal n) : m = n := by
  have hdigits : ∀ j, (decimal j).filter (fun c => IsDigit c) = decimal j := by
    intro j
    rw [List.filter_eq_self]
    intro c hc
    simpa using decimal_digits j c hc
  have hblank : (List.replicate k (ch ' ')).filter (fun c => IsDigit c) = [] := by
    rw [List.filter_eq_nil_iff]
    intro c hc
    rw [List.eq_of_mem_replicate hc]
    decide
  have hname : (lit "Content-Length:").filter (fun c => IsDigit c) = [] := by decide
  have hname' : (lit "Content-Length: ").filter (fun c => IsDigit c) = [] := by decide
  have hfilter := congrArg (List.filter fun c => decide (IsDigit c)) h
  simp only [List.filter_append, hdigits, hblank, hname, hname', List.nil_append] at hfilter
  exact decimal_injective hfilter

/-- In the message of udptcp_echo_server_netconn the header Content-Length
leaves out the blank before the object and the two line breaks behind it. -/
theorem udptcp_not_wellFormed (s : BitVec 32) :
    ¬ WellFormed (postHeader udptcpEchoServerNetconn (httpJson s).length ++
      (lit "\r\n" ++ httpBody s)) s := by
  rintro ⟨requestLine, headers, body', hpost⟩
  have hsplit := hpost.split
  rw [splitHead_udptcp] at hsplit
  obtain ⟨k, hk⟩ := hpost.contentLength
  simp only [Option.some.injEq, Prod.mk.injEq, List.cons.injEq] at hsplit
  obtain ⟨⟨-, rfl⟩, rfl⟩ := hsplit
  simp only [List.mem_cons, List.not_mem_nil, or_false] at hk
  obtain hhost | htype | hlength := hk
  · exact ne_contentLength (by decide) hhost
  · exact ne_contentLength (by decide) htype
  · have hend : (lit "\r\n\r\n").length = 4 := rfl
    have hlen := contentLength_eq hlength
    simp only [httpBody, List.length_cons, List.length_append, hend] at hlen
    omega

end UdptcpEchoServerNetconn

section Body

theorem closed_bumpAt {sup : Option Nat} {T : List Tok} (hT : Closed T) :
    Closed (bumpAt sup T) := by
  have hlast := lastOpen_bumpAt sup T
  rw [lastIdx_eq_none.mpr hT] at hlast
  exact lastIdx_eq_none.mp hlast

theorem resume_comma_closed (numTokens pos : Nat) (sup : Option Nat) {T : List Tok} (n : Nat)
    (rest : Text) (hT : Closed T) :
    resume numTokens ⟨pos, sup, T, n⟩ (ch ',' :: rest) =
      resume numTokens ⟨pos + 1, sup, T, n⟩ rest := by
  have hnone : lastIdx (fun t => t.isContainer && t.isOpen) T = none := by
    rw [lastIdx_eq_none]
    intro t ht
    rw [hT t ht, Bool.and_false]
  have hcomma : comma ⟨pos, sup, T, n⟩ = ⟨pos, sup, T, n⟩ := by
    cases sup with
    | none => rfl
    | some s => simp [comma, hnone]
  have hbyte : parseByte numTokens ⟨pos, sup, T, n⟩ (ch ',') rest = .ok ⟨pos, sup, T, n⟩ := by
    rw [parseByte, if_neg (by decide), if_neg (by decide), if_neg (by decide), if_neg (by decide),
      if_neg (by decide), if_neg (by decide), if_neg (by decide), if_pos rfl, hcomma]
  exact resume_byte (by decide) hbyte rfl

theorem resume_close_closed (numTokens pos : Nat) (sup : Option Nat) {T : List Tok} (n : Nat)
    (rest : Text) (hT : Closed T) :
    resume numTokens ⟨pos, sup, T, n⟩ (ch '\x7d' :: rest) = .error .inval := by
  have hbyte : parseByte numTokens ⟨pos, sup, T, n⟩ (ch '\x7d') rest = .error .inval := by
    rw [parseByte, if_neg (by decide), if_neg (by decide), if_pos rfl]
    simp [closeBracket, lastIdx_eq_none.mpr hT]
  rw [resume, parseLoop, if_neg (Nat.lt_irrefl _), if_neg (by decide), hbyte]
  rfl

theorem resume_member_closed {v : Json} {key : Text} (hkey : Plain key) (hv : v.WF)
    (numTokens pos : Nat) (sup : Option Nat) {T : List Tok} (n : Nat) (hT : Closed T)
    (hsup : SupBound sup T) (hcap : T.length + (memberToks pos key v).length ≤ numTokens) :
    ∃ sup' T', Closed T' ∧ SupBound sup' T' ∧
      T'.length = T.length + (memberToks pos key v).length ∧
      ∀ rest, Stops rest →
        resume numTokens ⟨pos, sup, T, n⟩ (quoted key ++ ch ':' :: (v.render ++ rest)) =
          resume numTokens ⟨pos + key.length + 3 + v.render.length, sup', T',
            n + (memberToks pos key v).length⟩ rest := by
  simp only [memberToks, List.length_cons] at hcap ⊢
  let k : Tok := ⟨.string, pos + 1, pos + 1 + key.length, 0⟩
  have hk : Closed [k] := by
    intro t ht
    rw [List.mem_singleton.mp ht]
    simp [k, Tok.isOpen]
    omega
  have hTk : Closed (bumpAt sup T ++ [k]) := closed_append (closed_bumpAt hT) hk
  have hbound : SupBound (some (bumpAt sup T).length) (bumpAt sup T ++ [k]) := supBound_mid _ [] _
  refine ⟨supAfter v (some (bumpAt sup T).length) (bumpAt sup T ++ [k]),
    bumpAt (some (bumpAt sup T).length) (bumpAt sup T ++ [k]) ++ v.toks (pos + key.length + 3),
    closed_append (closed_bumpAt hTk) (Json.toks_closed v _), ?_, ?_, ?_⟩
  · intro i hi
    unfold supAfter at hi
    split at hi
    · rw [lastIdx_eq_none.mpr hTk] at hi
      cases hi
    · cases hi
      simp
      omega
  · simp
    omega
  · intro rest hrest
    have hstr := resume_str numTokens pos sup T n key (ch ':' :: (v.render ++ rest)) hkey
      (by omega) hsup
    have hcolon := resume_colon numTokens (pos + key.length + 2) sup (bumpAt sup T) k (n + 1)
      (v.render ++ rest)
    have hval := Json.resume_render v hv numTokens (pos + key.length + 3)
      (some (bumpAt sup T).length) (bumpAt sup T ++ [k]) (n + 1) rest (by simp; omega) hbound hrest
    have hn : n + 1 + (v.toks (pos + key.length + 3)).length =
        n + ((v.toks (pos + key.length + 3)).length + 1) := by omega
    rw [hn] at hval
    rw [hstr, hcolon, hval]

theorem Members.resume_closed (ms : Members) (hms : ms.WF) (numTokens pos : Nat)
    (sup : Option Nat) {T : List Tok} (n : Nat) (rest : Text) (hT : Closed T)
    (hsup : SupBound sup T) (hcap : T.length + (ms.toks pos).length ≤ numTokens) :
    ∃ pos' sup' T' n', Closed T' ∧
      resume numTokens ⟨pos, sup, T, n⟩ (ms.render ++ ch '\x7d' :: rest) =
        resume numTokens ⟨pos', sup', T', n'⟩ (ch '\x7d' :: rest) := by
  match ms with
  | .nil => exact ⟨pos, sup, T, n, hT, rfl⟩
  | .cons key v .nil =>
    obtain ⟨hkey, hv, -⟩ := hms
    obtain ⟨sup', T', hT', -, -, hmember⟩ :=
      resume_member_closed hkey hv numTokens pos sup n hT hsup
        (by simpa [Members.toks, memberToks] using hcap)
    refine ⟨pos + key.length + 3 + v.render.length, sup', T',
      n + (memberToks pos key v).length, hT', ?_⟩
    simpa [Members.render] using hmember (ch '\x7d' :: rest) rfl
  | .cons key v (.cons key' w ms) =>
    obtain ⟨hkey, hv, hms⟩ := hms
    have htoks : (Members.cons key v (.cons key' w ms)).toks pos = memberToks pos key v ++
        (Members.cons key' w ms).toks (pos + key.length + v.render.length + 4) := rfl
    rw [htoks, List.length_append] at hcap
    obtain ⟨sup', T', hT', hsup', hlen, hmember⟩ :=
      resume_member_closed hkey hv numTokens pos sup n hT hsup (by omega)
    have h := hmember (ch ',' :: ((Members.cons key' w ms).render ++ ch '\x7d' :: rest)) rfl
    have hpos : pos + key.length + 3 + v.render.length + 1 =
        pos + key.length + v.render.length + 4 := by omega
    rw [resume_comma_closed _ _ _ _ _ hT', hpos] at h
    obtain ⟨pos'', sup'', T'', n'', hT'', hrec⟩ := Members.resume_closed (.cons key' w ms) hms
      numTokens (pos + key.length + v.render.length + 4) sup' (n + (memberToks pos key v).length)
      rest hT' hsup' (by omega)
    refine ⟨pos'', sup'', T'', n'', hT'', ?_⟩
    rw [← hrec, ← h, Members.render_cons key key' v w ms]
    simp

/-- The members that follow the brace after the MAC address. -/
def trailingMembers (s : BitVec 32) : Members :=
  .cons (lit "iot_request_history_id") (.str (fmtInt s.toInt))
    (.cons (lit "check_time") (.str (timeText programEnv))
      (.cons (lit "check_data")
        (.arr (.cons (itemObject (lit "A001") programEnv.iotItem1) .nil)) .nil))

def macObject : Json := .obj (.cons (lit "iot_mac_addr") (.str macText) .nil)

theorem httpJson_eq (s : BitVec 32) : httpJson s =
    macObject.render ++ ch ',' :: ((trailingMembers s).render ++ [ch '\x7d']) := by
  have hmac : lit "\x7b" ++ httpMacAddr = macObject.render := by decide
  have hserial : lit "\"iot_request_history_id\":\"" =
      quoted (lit "iot_request_history_id") ++ [ch ':', ch '"'] := rfl
  have htime : lit "\"check_time\":\"" = quoted (lit "check_time") ++ [ch ':', ch '"'] := rfl
  have hdata : httpCheckData programEnv = quoted (lit "check_data") ++ ch ':' ::
      (Json.arr (.cons (itemObject (lit "A001") programEnv.iotItem1) .nil)).render := by decide
  have hquote : lit "\"" = [ch '"'] := rfl
  have hclose : lit "\x7d" = [ch '\x7d'] := rfl
  have hcomma : lit "," = [ch ','] := rfl
  simp only [httpJson, braced, hmac, requestSerialNo, checkTime, hserial, htime, hdata, hquote,
    hclose, hcomma, trailingMembers, Members.render, quoted, Json.render.eq_2]
  simp only [List.append_assoc, List.cons_append, List.nil_append]

theorem trailingMembers_wf (s : BitVec 32) : (trailingMembers s).WF := by
  have hitem : Plain programEnv.iotItem1 := by decide
  exact ⟨by decide, (fmtInt_numeric _).plain, by decide, (timeText_numeric _).plain, by decide,
    ⟨⟨by decide, (by decide : Plain (lit "A001")), by decide, hitem, trivial⟩, trivial⟩, trivial⟩

/-- The brace after the MAC address ends the object, so that jsmn_parse finds
the brace at the end of the body without a partner. -/
theorem jsmnParse_httpBody (s : BitVec 32) {numTokens : Nat} (hcap : 14 ≤ numTokens) :
    jsmnParse numTokens jsmnInit (httpBody s) = .error .inval := by
  have hblank : ∀ rest, resume numTokens ⟨0, none, [], 0⟩ (ch ' ' :: rest) =
      resume numTokens ⟨1, none, [], 0⟩ rest := fun rest => resume_byte (by decide) rfl rfl
  have hmac : ∀ rest, Stops rest → resume numTokens ⟨1, none, [], 0⟩ (macObject.render ++ rest) =
      resume numTokens ⟨1 + macObject.render.length, none, macObject.toks 1, 3⟩ rest :=
    fun rest hrest => Json.resume_render macObject
      ⟨by decide, (by decide : Plain macText), trivial⟩ numTokens 1 none [] 0 rest
      (le_trans (by decide) hcap) (fun i hi => by cases hi) hrest
  have hclosed := Json.toks_closed macObject 1
  obtain ⟨pos, sup, T, n, hT, hflat⟩ := Members.resume_closed (trailingMembers s)
    (trailingMembers_wf s) numTokens (1 + macObject.render.length + 1) none 3 (lit "\r\n\r\n")
    hclosed (fun i hi => by cases hi) (le_trans (by
      simp [trailingMembers, Members.toks, Json.toks, Elems.toks, itemObject, macObject]) hcap)
  have hbody : httpBody s = ch ' ' :: (macObject.render ++ ch ',' ::
      ((trailingMembers s).render ++ ch '\x7d' :: lit "\r\n\r\n")) := by
    simp [httpBody, httpJson_eq]
  have hloop : parseLoop numTokens 0 ⟨0, none, [], 0⟩ (httpBody s) = .error .inval := by
    change resume numTokens ⟨0, none, [], 0⟩ (httpBody s) = _
    rw [hbody, hblank, hmac (ch ',' :: _) rfl, resume_comma_closed _ _ _ _ _ hclosed, hflat,
      resume_close_closed _ _ _ _ _ hT]
  change (parseLoop numTokens 0 ⟨0, none, [], 0⟩ (httpBody s)).bind _ = _
  rw [hloop]
  rfl

end Body

/-- Whatever the serial is, neither HTTP project produces a well-formed message. -/
theorem httpPacketGen_not_wellFormed (s : BitVec 32) :
    (∃ packet, httpPacketGen tcpEchoClient programEnv s = some packet ∧ ¬ WellFormed packet s) ∧
      ∃ packet, httpPacketGen udptcpEchoServerNetconn programEnv s = some packet ∧
        ¬ WellFormed packet s := by
  refine ⟨⟨_, httpPacketGen_eq tcpEchoClient (by decide) (by decide) s, ?_⟩,
    ⟨_, httpPacketGen_eq udptcpEchoServerNetconn (by decide) (by decide) s, ?_⟩⟩
  · exact tcpEchoClient_not_wellFormed _ _ s
  · exact udptcp_not_wellFormed s

theorem serial_five_not_wellFormed :
    ∃ packet, httpPacketGen tcpEchoClient programEnv 5 = some packet ∧ ¬ WellFormed packet 5 :=
  ⟨_, httpPacketGen_eq tcpEchoClient (by decide) (by decide) 5, tcpEchoClient_not_wellFormed _ _ 5⟩

end PopcornFirmware.Packet.Http
