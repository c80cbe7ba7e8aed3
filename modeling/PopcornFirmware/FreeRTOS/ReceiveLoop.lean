import PopcornFirmware.Packet.Str2int

namespace PopcornFirmware.FreeRTOS.ReceiveLoop

open PopcornFirmware.Lib.CText PopcornFirmware.Packet.Str2int

/-- A pbuf of a netbuf: its len bytes and the memory behind them. -/
structure Fragment where
  payload : Text
  after : Text

/-- A netbuf from its data pointer ptr on. -/
structure Netbuf where
  ptr : Fragment
  next : List Fragment

def Netbuf.fragments (buf : Netbuf) : List Fragment := buf.ptr :: buf.next

def netbufData (buf : Netbuf) : Text × Nat :=
  (buf.ptr.payload ++ buf.ptr.after, buf.ptr.payload.length)

/-- The result is -1 without a next part, 1 when ptr has moved to the last part
and 0 when it has moved to a part before it. -/
def netbufNext (buf : Netbuf) : Int × Netbuf :=
  match buf.next with
  | [] => (-1, buf)
  | f :: fs => (if fs.isEmpty then 1 else 0, ⟨f, fs⟩)

/-- What tcpecho_thread does on an accepted connection. -/
inductive Event where
  -- netconn_write(newconn, data, len, NETCONN_COPY)
  | write (data : Text)
  -- recv_serial = str2int(data)
  | store (recvSerial : BitVec 32)
  -- the statements under recv_serial >= 0
  | accept (recvSerial : BitVec 32)
  | netbufDelete
  | netconnClose
  | netconnDelete
  deriving DecidableEq

/-- One round of the do loop, without its test. -/
def handleFragment (buf : Netbuf) : Option (List Event) :=
  let (data, len) := netbufData buf
  (str2int data).map fun recvSerial =>
    .write (data.take len) :: .store recvSerial ::
      if 0 ≤ recvSerial.toInt then [.accept recvSerial] else []

/-- The do loop over the parts of a netbuf. -/
def fragmentLoop (buf : Netbuf) : Option (List Event) :=
  (handleFragment buf).bind fun here =>
    if _ : 0 ≤ (netbufNext buf).1 then
      (fragmentLoop (netbufNext buf).2).map fun there => here ++ there
    else some here
termination_by buf.next.length
decreasing_by
  cases buf with
  | mk ptr next =>
    cases next with
    | nil => simp [netbufNext] at *
    | cons f fs => simp [netbufNext]

/-- The loop over the netbufs that netconn_recv returns before NULL, and the
end of the connection. -/
def recvLoop : List Netbuf → Option (List Event)
  | [] => some [.netconnClose, .netconnDelete]
  | buf :: bufs =>
    (fragmentLoop buf).bind fun here =>
      (recvLoop bufs).map fun there => here ++ .netbufDelete :: there

/-- The serials of the requests that were handed to a sender. -/
def accepted (events : List Event) : List (BitVec 32) :=
  events.filterMap fun
    | .accept recvSerial => some recvSerial
    | _ => none

theorem accepted_append (es fs : List Event) : accepted (es ++ fs) = accepted es ++ accepted fs :=
  List.filterMap_append

theorem fragmentLoop_cons (f g : Fragment) (fs : List Fragment) :
    fragmentLoop ⟨f, g :: fs⟩ =
      (handleFragment ⟨f, g :: fs⟩).bind fun here =>
        (fragmentLoop ⟨g, fs⟩).map fun there => here ++ there := by
  have hnext : 0 ≤ (netbufNext ⟨f, g :: fs⟩).1 := by
    simp only [netbufNext]
    split <;> decide
  rw [fragmentLoop]
  simp [hnext]
  rfl

theorem fragmentLoop_single (f : Fragment) : fragmentLoop ⟨f, []⟩ = handleFragment ⟨f, []⟩ := by
  rw [fragmentLoop]
  simp [netbufNext]

/-- A request of a peer: an optional sign, a decimal number and a separator. -/
structure Request where
  sign : Text
  number : Text
  separator : Text
  sign_ok : sign.length ≤ 1 ∧ ∀ c ∈ sign, IsSign c
  number_ok : number ≠ [] ∧ ∀ c ∈ number, IsDigit c
  separator_ok : separator ≠ [] ∧ ∀ c ∈ separator, ¬ IsDigit c

namespace Request

def text (r : Request) : Text := r.sign ++ r.number ++ r.separator

/-- The number with its sign, modulo 2^32. -/
def value (r : Request) : BitVec 32 := digits r.number * signs r.sign

theorem str2int_text (r : Request) (rest : Text) : str2int (r.text ++ rest) = some r.value := by
  obtain ⟨hne, hsep⟩ := r.separator_ok
  cases hs : r.separator with
  | nil => exact absurd hs hne
  | cons c cs =>
    have hc : ¬ IsDigit c := hsep c (by simp [hs])
    have hscan := scan_eq r.sign r.number (cs ++ rest) c r.sign_ok.2 r.number_ok.2 hc
      (fun hnil => absurd hnil r.number_ok.1)
    have htext : r.text ++ rest = r.sign ++ (r.number ++ c :: (cs ++ rest)) := by
      simp [text, hs]
    rw [str2int, htext, hscan, Option.map_some]
    rfl

end Request

/-- The serials that a list of requests asks a report for. -/
def wanted (requests : List Request) : List (BitVec 32) :=
  (requests.map Request.value).filter fun s => 0 ≤ s.toInt

theorem wanted_append (rs qs : List Request) : wanted (rs ++ qs) = wanted rs ++ wanted qs := by
  simp [wanted]

def StartsWith (f : Fragment) (r : Request) : Prop := r.text <+: f.payload

theorem handleFragment_startsWith {f : Fragment} {r : Request} (h : StartsWith f r)
    (fs : List Fragment) : ∃ events, handleFragment ⟨f, fs⟩ = some events ∧
      accepted events = wanted [r] := by
  obtain ⟨more, hmore⟩ := h
  have hread : str2int (f.payload ++ f.after) = some r.value := by
    rw [← hmore, List.append_assoc]
    exact r.str2int_text _
  have hone : handleFragment ⟨f, fs⟩ = some (.write f.payload :: .store r.value ::
      if 0 ≤ r.value.toInt then [.accept r.value] else []) := by
    simp [handleFragment, netbufData, hread]
  refine ⟨_, hone, ?_⟩
  by_cases hpos : 0 ≤ r.value.toInt
  · simp [accepted, wanted, hpos]
  · simp [accepted, wanted, hpos]

theorem fragmentLoop_startsWith (f : Fragment) (fs : List Fragment) (requests : List Request)
    (h : List.Forall₂ StartsWith (f :: fs) requests) :
    ∃ events, fragmentLoop ⟨f, fs⟩ = some events ∧ accepted events = wanted requests := by
  induction fs generalizing f requests with
  | nil =>
    obtain _ | ⟨hf, hnil⟩ := h
    cases hnil
    obtain ⟨events, hev, hacc⟩ := handleFragment_startsWith hf []
    exact ⟨events, by rw [fragmentLoop_single, hev], hacc⟩
  | cons g fs ih =>
    obtain _ | ⟨hf, hfs⟩ := h
    obtain ⟨here, hhere, hacc⟩ := handleFragment_startsWith hf (g :: fs)
    obtain ⟨there, hthere, hrest⟩ := ih g _ hfs
    refine ⟨here ++ there, ?_, ?_⟩
    · rw [fragmentLoop_cons, hhere, Option.bind_some, hthere, Option.map_some]
    · rw [accepted_append, hacc, hrest, ← wanted_append, List.singleton_append]

/-- When every fragment begins with a whole request, the loop accepts exactly
the first requests of the fragments whose value is not negative, however the
fragments are grouped into netbufs. -/
theorem recvLoop_startsWith (bufs : List Netbuf) (requests : List Request)
    (h : List.Forall₂ StartsWith (bufs.flatMap Netbuf.fragments) requests) :
    (recvLoop bufs).map accepted = some (wanted requests) := by
  induction bufs generalizing requests with
  | nil =>
    cases h
    rfl
  | cons buf bufs ih =>
    rw [List.flatMap_cons] at h
    have hhere := List.forall₂_take_append requests buf.fragments _ h.flip
    have hthere := List.forall₂_drop_append requests buf.fragments _ h.flip
    obtain ⟨here, hev, hacc⟩ := fragmentLoop_startsWith buf.ptr buf.next _ hhere.flip
    have hrec := ih _ hthere.flip
    obtain ⟨there, hrest, hwanted⟩ := Option.map_eq_some_iff.mp hrec
    have hdelete : accepted (.netbufDelete :: there) = accepted there := rfl
    rw [recvLoop, hev, Option.bind_some, hrest, Option.map_some, Option.map_some, accepted_append,
      hdelete, hacc, hwanted, ← wanted_append, List.take_append_drop]

def twelve : Request :=
  ⟨[], lit "12", lit "\n", by simp, by decide, by decide⟩

def seven : Request :=
  ⟨[], lit "7", lit "\n", by simp, by decide, by decide⟩

theorem recvLoop_startsWith_two :
    (recvLoop [⟨⟨lit "12\n", lit "345"⟩, []⟩, ⟨⟨lit "7\n", []⟩, []⟩]).map accepted =
      some (wanted [twelve, seven]) :=
  recvLoop_startsWith _ [twelve, seven]
    (.cons ⟨[], rfl⟩ (.cons ⟨[], rfl⟩ .nil))

/-- Both requests in one fragment: the second one is not looked at. -/
theorem recvLoop_depends_on_cut :
    (([⟨⟨lit "12\n7\n", []⟩, []⟩] : List Netbuf).flatMap Netbuf.fragments).flatMap
        Fragment.payload = [twelve, seven].flatMap Request.text ∧
      (([⟨⟨lit "12\n", []⟩, [⟨lit "7\n", []⟩]⟩] : List Netbuf).flatMap
        Netbuf.fragments).flatMap Fragment.payload = [twelve, seven].flatMap Request.text ∧
      (recvLoop [⟨⟨lit "12\n7\n", []⟩, []⟩]).map accepted = some [12] ∧
      (recvLoop [⟨⟨lit "12\n", []⟩, [⟨lit "7\n", []⟩]⟩]).map accepted = some [12, 7] := by
  refine ⟨by decide, by decide, ?_, ?_⟩
  · simp only [recvLoop, fragmentLoop_single]
    decide
  · simp only [recvLoop, fragmentLoop_single, fragmentLoop_cons]
    decide

end PopcornFirmware.FreeRTOS.ReceiveLoop
