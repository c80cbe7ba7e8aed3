import PopcornFirmware.Packet.Stream

namespace PopcornFirmware.Packet.JsonParser

open PopcornFirmware.Lib.CText PopcornFirmware.Packet.Gen PopcornFirmware.Packet.Jsmn
open PopcornFirmware.Packet.JsmnRender PopcornFirmware.Packet.ReadObject
open PopcornFirmware.Packet.Stream PopcornFirmware.Packet.Tree

def json1MacAddr : Text := lit "iot_mac_addr"

def json2ReqSerial : Text := lit "request_serial_no"

def json3ChkTime : Text := lit "check_time"

def json4ChkData : Text := lit "check_data"

/-- The branches of the key loop. -/
inductive Branch where
  | macAddr
  | reqSerial
  | chkTime
  | chkData
  | unexpected
  deriving DecidableEq

/-- What the key loop does with the memory. -/
inductive Access where
  -- t[i] is compared with the names and takes a branch
  | key (i : Nat) (branch : Branch)
  -- t[i] is read as the value of check_data
  | value (i : Nat)
  -- the sprintf to where string points, which nothing has set
  | sprintfString
  deriving DecidableEq

def Access.branch : Access → Option Branch
  | .key _ b => some b
  | _ => none

def jsoneq (json : Text) (tok : Tok) (s : Text) : Bool :=
  tok.type = .string && tok.stop - tok.start = s.length && tokText json tok = s

def branchOf (str : Text) (tok : Tok) : Branch :=
  if jsoneq str tok json1MacAddr then .macAddr
  else if jsoneq str tok json2ReqSerial then .reqSerial
  else if jsoneq str tok json3ChkTime then .chkTime
  else if jsoneq str tok json4ChkData then .chkData
  else .unexpected

/-- The body of the key loop, and what it adds to i; none when it reads behind
the end of the array. The addresses of the elements of check_data are taken
but not read. -/
def keyStep (str : Text) (t : List Tok) (i : Nat) : Option (List Access × Nat) :=
  t[i]?.bind fun tok =>
    match branchOf str tok with
    | .macAddr => some ([.key i .macAddr, .sprintfString], 1)
    | .reqSerial => some ([.key i .reqSerial], 1)
    | .chkTime => some ([.key i .chkTime], 1)
    | .chkData => t[i + 1]?.map fun v =>
        ([.key i .chkData, .value (i + 1)], if v.type = .array then v.size + 1 else 0)
    | .unexpected => some ([.key i .unexpected], 0)

/-- The key loop from i on. -/
def keyLoop (str : Text) (t : List Tok) (r i : Nat) : Option (List Access) :=
  if i < r then
    (keyStep str t i).bind fun (accesses, n) =>
      (keyLoop str t r (i + n + 1)).map (accesses ++ ·)
  else some []
termination_by r - i

/-- json_Parser with the number of tokens that it tells jsmn_parse: what it
returns, and what the key loop does. The tokens found stand at the beginning
of the array t. -/
def parseInto (numTokens : Nat) (t : List Tok) (p : Parser) (str : Text) :
    Option (Nat × List Access) :=
  (strlen str).bind fun len =>
    match jsmnParse numTokens p (str.take len) with
    | .error _ => some (1, [])
    | .ok p' =>
      let t' := p'.tokens ++ t.drop p'.tokens.length
      if p'.count < 1 then some (1, [])
      else t'[0]?.bind fun root =>
        if root.type = .object then (keyLoop str t' p'.count 1).map (0, ·) else some (1, [])

/-- sizeof of a pointer, and of jsmntok_t with its four words. -/
def sizeofPtr : Nat := 4

def sizeofTok : Nat := 16

/-- t is a parameter, so sizeof(t) is the size of a pointer. -/
def jsonParser : List Tok → Parser → Text → Option (Nat × List Access) :=
  parseInto (sizeofPtr / sizeofTok)

/-- The parser returns 0 on the packet of the serial and takes each of the
four members by its own branch, and nothing else for a key. -/
def Agrees (parser : List Tok → Parser → Text → Option (Nat × List Access)) (env : Env)
    (serial : BitVec 32) : Prop :=
  ∃ text, jsonPacket env serial = some text ∧
    ∀ (t : List Tok) (rest : Text), t.length = 128 →
      ∃ accesses, parser t jsmnInit (text ++ 0 :: rest) = some (0, accesses) ∧
        accesses.filterMap Access.branch = [.macAddr, .reqSerial, .chkTime, .chkData]

theorem eq_braced {env : Env} {serial : BitVec 32} {text : Text}
    (h : jsonPacket env serial = some text) :
    text = braced macAddr (requestSerialNo serial) (checkTime env) (checkData env) := by
  simp only [jsonPacket, Option.bind_eq_bind, Option.bind_eq_some_iff] at h
  obtain ⟨mac, hmac, no, hno, time, htime, data, hdata, hpacket⟩ := h
  rw [(sprintf_eq_some.mp hpacket).2, (sprintf_eq_some.mp hmac).2, (sprintf_eq_some.mp hno).2,
    (sprintf_eq_some.mp htime).2, (sprintf_eq_some.mp hdata).2]

/-- No object has room in an array of no tokens. -/
theorem jsmnParse_no_room (js : Text) :
    jsmnParse 0 jsmnInit (ch '\x7b' :: js) = .error .nomem := rfl

/-- json_Parser takes every text that opens an object for a wrong one. -/
theorem jsonParser_object (t : List Tok) (tail : Text) {n : Nat}
    (hlen : strlen (ch '\x7b' :: tail) = some n) :
    jsonParser t jsmnInit (ch '\x7b' :: tail) = some (1, []) := by
  have hne : ch '\x7b' ≠ 0 := by decide
  simp only [strlen, if_neg hne, Option.map_eq_some_iff] at hlen
  obtain ⟨k, hk, rfl⟩ := hlen
  have hsize : sizeofPtr / sizeofTok = 0 := rfl
  simp [jsonParser, parseInto, hsize, strlen, hne, hk, jsmnParse_no_room]

theorem jsonParser_packet {env : Env} {serial : BitVec 32} {text : Text}
    (h : jsonPacket env serial = some text) (t : List Tok) (rest : Text) :
    jsonParser t jsmnInit (text ++ 0 :: rest) = some (1, []) := by
  obtain rfl := eq_braced h
  have hsome : (strlen (braced macAddr (requestSerialNo serial) (checkTime env) (checkData env) ++
      0 :: rest)).isSome := (strlen_isSome _).mpr (by simp)
  obtain ⟨n, hn⟩ := Option.isSome_iff_exists.mp hsome
  exact jsonParser_object t _ hn

theorem disagrees_of_rejected {parser : List Tok → Parser → Text → Option (Nat × List Access)}
    {env : Env} {serial : BitVec 32}
    (h : ∀ text, jsonPacket env serial = some text → ∀ (t : List Tok) (rest : Text),
      parser t jsmnInit (text ++ 0 :: rest) = some (1, [])) : ¬ Agrees parser env serial := by
  rintro ⟨text, htext, hparse⟩
  obtain ⟨accesses, hres, -⟩ := hparse (List.replicate 128 ⟨.undefined, 0, 0, 0⟩) [] (by simp)
  rw [h text htext] at hres
  cases hres

/-- Whatever the serial, the clock and the items are, json_Parser does not
read the packet back. -/
theorem jsonParser_disagrees (env : Env) (serial : BitVec 32) : ¬ Agrees jsonParser env serial :=
  disagrees_of_rejected fun _ htext => jsonParser_packet htext

theorem jsonParser_rejects_five : ¬ ∀ serial, Agrees jsonParser programEnv serial := by
  intro h
  exact disagrees_of_rejected (fun _ htext => jsonParser_packet htext) (h 5)

section Names

variable {js k : Text} {tok : Tok} {off : Nat} {v : Json} {ms : Members}

theorem jsoneq_key (htype : tok.type = .string) (hlen : tok.stop - tok.start = k.length)
    (htext : tokText js tok = k) (s : Text) : jsoneq js tok s = decide (k = s) := by
  by_cases hk : k = s
  · subst hk
    simp [jsoneq, htype, hlen, htext]
  · simp [jsoneq, htext, hk]

/-- The branch of a key depends on its name alone. -/
theorem branchOf_key (h : At js off (Members.cons k v ms).render) :
    branchOf js ⟨.string, off + 1, off + 1 + k.length, 1⟩ =
      if k = json1MacAddr then .macAddr
      else if k = json2ReqSerial then .reqSerial
      else if k = json3ChkTime then .chkTime
      else if k = json4ChkData then .chkData
      else .unexpected := by
  let tok : Tok := ⟨.string, off + 1, off + 1 + k.length, 1⟩
  have heq : ∀ s, jsoneq js tok s = decide (k = s) :=
    jsoneq_key rfl (by simp [tok]) (tokText_key h)
  change branchOf js tok = _
  simp only [branchOf, heq, decide_eq_true_eq]

end Names

theorem keyLoop_step {str : Text} {t : List Tok} {r i n : Nat} {accesses out : List Access}
    (hi : i < r) (hstep : keyStep str t i = some (accesses, n))
    (h : keyLoop str t r i = some out) :
    ∃ tail, keyLoop str t r (i + n + 1) = some tail ∧ out = accesses ++ tail := by
  rw [keyLoop, if_pos hi, hstep] at h
  obtain ⟨tail, htail, rfl⟩ := Option.map_eq_some_iff.mp h
  exact ⟨tail, htail, rfl⟩

/-- With room for all tokens the loop would know the address by its name but
not the serial: json_Packet_Gen does not write request_serial_no. -/
theorem keyLoop_packet (env : Env) (s : BitVec 32) (rest : Text) (more : List Tok)
    {out : List Access}
    (h : keyLoop ((Json.obj (packetMembers env s)).render ++ rest)
      ((Json.obj (packetMembers env s)).toks 0 ++ more) 19 1 = some out) :
    ∃ tail, out = .key 1 .macAddr :: .sprintfString :: .key 3 .unexpected :: tail := by
  have hat : At ((Json.obj (packetMembers env s)).render ++ rest) 1
      (packetMembers env s).render :=
    ⟨[ch '{'], ch '}' :: rest, by simp [Json.render], rfl⟩
  obtain ⟨-, hnone | hat3⟩ := at_member hat
  · cases hnone
  · have hmac := branchOf_key hat
    have hhistory := branchOf_key hat3
    rw [if_pos (by decide)] at hmac
    rw [if_neg (by decide), if_neg (by decide), if_neg (by decide), if_neg (by decide)] at hhistory
    have hstep1 : keyStep ((Json.obj (packetMembers env s)).render ++ rest)
        ((Json.obj (packetMembers env s)).toks 0 ++ more) 1 =
          some ([.key 1 .macAddr, .sprintfString], 1) := by
      have hget : ((Json.obj (packetMembers env s)).toks 0 ++ more)[1]? =
          some ⟨.string, (1 : Nat) + 1, (1 : Nat) + 1 + (lit "iot_mac_addr").length, 1⟩ := rfl
      rw [keyStep, hget, Option.bind_some, hmac]
    have hstep3 : keyStep ((Json.obj (packetMembers env s)).render ++ rest)
        ((Json.obj (packetMembers env s)).toks 0 ++ more) 3 =
          some ([.key 3 .unexpected], 0) := by
      have hget : ((Json.obj (packetMembers env s)).toks 0 ++ more)[3]? =
          some ⟨.string, (1 + (lit "iot_mac_addr").length + (Json.str macText).render.length + 4 :
            Nat) + 1, (1 + (lit "iot_mac_addr").length + (Json.str macText).render.length + 4 :
            Nat) + 1 + (lit "iot_request_history_id").length, 1⟩ := rfl
      rw [keyStep, hget, Option.bind_some, hhistory]
    obtain ⟨tail1, htail1, rfl⟩ := keyLoop_step (by decide) hstep1 h
    obtain ⟨tail3, -, rfl⟩ := keyLoop_step (by decide) hstep3 htail1
    exact ⟨tail3, rfl⟩

theorem parseInto_packet {env : Env} (hitem1 : ItemText env.iotItem1)
    (hitem2 : ItemText env.iotItem2) {numTokens : Nat} (hcap : 19 ≤ numTokens)
    (s : BitVec 32) (t : List Tok) (rest : Text) :
    parseInto numTokens t jsmnInit
        (braced macAddr (requestSerialNo s) (checkTime env) (checkData env) ++ 0 :: rest) =
      (keyLoop ((Json.obj (packetMembers env s)).render ++ 0 :: rest)
        ((Json.obj (packetMembers env s)).toks 0 ++ t.drop 19) 19 1).map (0, ·) := by
  have hnul : ∀ c ∈ braced macAddr (requestSerialNo s) (checkTime env) (checkData env),
      c ≠ 0 := by
    rintro c hc rfl
    exact not_mem_braced hitem1 hitem2 s (Or.inl rfl) hc
  have htoks := packetMembers_toks_length env s
  have hjsmn := jsmnParse_render (.obj (packetMembers env s))
    (packetMembers_wf hitem1 hitem2 s) numTokens (by rw [htoks]; exact hcap)
  have hroot : ((Json.obj (packetMembers env s)).toks 0 ++ t.drop 19)[0]? =
        some ⟨.object, (0 : Nat), (0 : Nat) + (packetMembers env s).render.length + 2, 4⟩ := rfl
  rw [parseInto, strlen_append_zero _ _ hnul, Option.bind_some, List.take_left, braced_eq_render,
    hjsmn]
  simp only [htoks, hroot, Option.bind_some]
  rfl

/-- So a capacity of 128 tokens alone would not mend it. -/
theorem parseInto_disagrees {env : Env} (hitem1 : ItemText env.iotItem1)
    (hitem2 : ItemText env.iotItem2) (serial : BitVec 32) :
    ¬ Agrees (parseInto 128) env serial := by
  rintro ⟨text, htext, hparse⟩
  obtain ⟨out, hres, hbranches⟩ := hparse (List.replicate 128 ⟨.undefined, 0, 0, 0⟩) [] (by simp)
  rw [eq_braced htext, parseInto_packet hitem1 hitem2 (by decide)] at hres
  obtain ⟨out', hloop, heq⟩ := Option.map_eq_some_iff.mp hres
  cases heq
  obtain ⟨tail, rfl⟩ := keyLoop_packet env serial _ _ hloop
  cases hbranches

end PopcornFirmware.Packet.JsonParser
