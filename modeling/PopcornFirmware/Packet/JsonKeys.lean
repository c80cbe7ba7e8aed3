import PopcornFirmware.Packet.JsmnForest
import PopcornFirmware.Packet.JsonParser

namespace PopcornFirmware.Packet.JsonKeys

open PopcornFirmware.Lib.CText PopcornFirmware.Lib.Preorder PopcornFirmware.Packet.Jsmn
open PopcornFirmware.Packet.JsmnForest PopcornFirmware.Packet.JsonParser

section Accepted

/-- jsmn_parse succeeds with this capacity, and the first token is an object. -/
def IsObject (numTokens : Nat) (str : Text) : Prop :=
  ∃ n p root, strlen str = some n ∧ jsmnParse numTokens jsmnInit (str.take n) = .ok p ∧
    p.tokens[0]? = some root ∧ root.type = .object

/-- json_Parser tells by its return value whether the text is an object that the
caller's array has room for. -/
def TellsObject (t : List Tok) (str : Text) : Prop :=
  (IsObject t.length str → (jsonParser t jsmnInit str).map Prod.fst = some 0) ∧
    (¬ IsObject t.length str → (jsonParser t jsmnInit str).map Prod.fst = some 1)

/-- In an array of no tokens, jsmn_parse finds none. -/
theorem jsmnParse_zero {js : Text} {p : Parser} (h : jsmnParse 0 jsmnInit js = .ok p) :
    p.count = 0 := by
  obtain ⟨roots, path, hb⟩ := jsmnParse_built h
  have hroom := hb.room
  rw [hb.count]
  omega

theorem jsonParser_returns_one (t : List Tok) (text rest : Text) :
    jsonParser t jsmnInit (text ++ 0 :: rest) = some (1, []) := by
  have hsome : (strlen (text ++ 0 :: rest)).isSome := (strlen_isSome _).mpr (by simp)
  obtain ⟨n, hn⟩ := Option.isSome_iff_exists.mp hsome
  have hsize : sizeofPtr / sizeofTok = 0 := rfl
  rw [jsonParser, parseInto, hn, hsize, Option.bind_some]
  cases hparse : jsmnParse 0 jsmnInit ((text ++ 0 :: rest).take n) with
  | error e => rfl
  | ok p =>
    have hcount := jsmnParse_zero hparse
    simp [hcount]

/-- json_Parser is right about exactly the texts that it has to reject: it takes
the size of its pointer for that of the array. -/
theorem jsonParser_tells_iff (t : List Tok) (text rest : Text) :
    TellsObject t (text ++ 0 :: rest) ↔ ¬ IsObject t.length (text ++ 0 :: rest) := by
  have hone := jsonParser_returns_one t text rest
  constructor
  · intro h hobj
    have hzero := h.1 hobj
    rw [hone] at hzero
    cases hzero
  · intro hnot
    exact ⟨fun hobj => absurd hobj hnot, fun _ => by rw [hone]; rfl⟩

/-- The empty object and an array of one token. -/
theorem jsonParser_empty_object : ¬ ∀ (t : List Tok) (text rest : Text),
    TellsObject t (text ++ 0 :: rest) := by
  intro h
  have hobj : IsObject 1 (lit "{}" ++ 0 :: []) :=
    ⟨2, ⟨2, none, [⟨.object, 0, 2, 0⟩], 1⟩, ⟨.object, 0, 2, 0⟩, by decide, by decide, rfl, rfl⟩
  have hzero := (h [⟨.undefined, 0, 0, 0⟩] (lit "{}") []).1 hobj
  rw [jsonParser_returns_one] at hzero
  cases hzero

end Accepted

section Keys

/-- The children of the first token. -/
def RootKeys (ts : List Tok) (ks : List Nat) : Prop :=
  ∃ root e path, ts[0]? = some root ∧ ks.length = root.size ∧ e ≤ ts.length ∧
    Forest (sizes ts) 1 e ks path

/-- The token an access reads. -/
def index : Access → Option Nat
  | .key i _ | .value i => some i
  | .sprintfString => none

def comparedKey : Access → Option Nat
  | .key i _ => some i
  | _ => none

/-- Only tokens that have been parsed are read, the keys alone are compared, and
nothing is written through the pointer that is not set. -/
structure OnKeys (r : Nat) (ks : List Nat) (accesses : List Access) : Prop where
  reads : ∀ i ∈ accesses.filterMap index, i < r
  keys : accesses.filterMap comparedKey = ks
  writes : Access.sprintfString ∉ accesses

/-- The key loop runs on the keys of the root object. -/
def StaysOnKeys (numTokens : Nat) (t : List Tok) (str : Text) (ts : List Tok) (ks : List Nat) :
    Prop :=
  ∃ accesses, parseInto numTokens t jsmnInit str = some (0, accesses) ∧
    OnKeys ts.length ks accesses

/-- How many tokens behind a key its branch passes over. -/
def passedOver (str : Text) (ts : List Tok) (k : Nat) : Nat :=
  match ts[k]?.map (branchOf str) with
  | some .macAddr | some .reqSerial | some .chkTime => 1
  | some .chkData =>
    match ts[k + 1]? with
    | some v => if v.type = .array then v.size + 1 else 0
    | none => 0
  | some .unexpected | none => 0

/-- What the loop needs of one key. -/
def Named (str : Text) (ts : List Tok) (k : Nat) : Prop :=
  ts[k]?.map (branchOf str) ≠ some .macAddr ∧
    (ts[k]?.map (branchOf str) = some .chkData → k + 1 < ts.length)

/-- No key is iot_mac_addr, a value follows check_data, and from each key to the
next, or to the end, there are as many tokens as its branch passes over. -/
structure Fits (str : Text) (ts : List Tok) (ks : List Nat) : Prop where
  empty : ks = [] → ts.length ≤ 1
  named : ∀ k ∈ ks, Named str ts k
  gaps : ks.IsChain fun k k' => k + passedOver str ts k + 1 = k'
  last : ∀ k, ks.getLast? = some k → ts.length ≤ k + passedOver str ts k + 1

variable {str : Text} {ts rest : List Tok} {r i k n : Nat} {ks : List Nat}
  {accesses tail : List Access} {branch : Branch}

theorem onKeys_nil : OnKeys r ks [] ↔ ks = [] := by
  constructor
  · intro h
    exact h.keys.symm
  · rintro rfl
    exact ⟨by simp, rfl, by simp⟩

theorem onKeys_cons (a : Access) : OnKeys r ks (a :: accesses) ↔
    (∀ i ∈ index a, i < r) ∧ a ≠ .sprintfString ∧
      ∃ ks', ks = (comparedKey a).toList ++ ks' ∧ OnKeys r ks' accesses := by
  have hindex : (a :: accesses).filterMap index = (index a).toList ++ accesses.filterMap index := by
    cases a <;> rfl
  have hkey : (a :: accesses).filterMap comparedKey =
      (comparedKey a).toList ++ accesses.filterMap comparedKey := by
    cases a <;> rfl
  constructor
  · rintro ⟨hreads, hkeys, hwrites⟩
    rw [hindex, List.forall_mem_append] at hreads
    obtain ⟨hne, hrest⟩ := List.ne_and_not_mem_of_not_mem_cons hwrites
    exact ⟨by simpa using hreads.1, hne.symm, _, (hkey.symm.trans hkeys).symm,
      hreads.2, rfl, hrest⟩
  · rintro ⟨hread, hne, ks', rfl, hreads, rfl, hwrites⟩
    refine ⟨?_, hkey, List.not_mem_cons_of_ne_of_not_mem hne.symm hwrites⟩
    rw [hindex, List.forall_mem_append]
    exact ⟨by simpa using hread, hreads⟩

theorem onKeys_key (hi : i < r) :
    OnKeys r ks (.key i branch :: accesses) ↔ ∃ ks', ks = i :: ks' ∧ OnKeys r ks' accesses := by
  simp [onKeys_cons, index, comparedKey, hi]

theorem onKeys_value : OnKeys r ks (.value i :: accesses) ↔ i < r ∧ OnKeys r ks accesses := by
  simp [onKeys_cons, index, comparedKey]

/-- The loop from one index on keeps to these keys. -/
def LoopOnKeys (str : Text) (ts rest : List Tok) (i : Nat) (ks : List Nat) : Prop :=
  ∃ accesses, keyLoop str (ts ++ rest) ts.length i = some accesses ∧ OnKeys ts.length ks accesses

theorem getElem?_found (hi : i < ts.length) : (ts ++ rest)[i]? = some ts[i] := by
  rw [List.getElem?_append_left hi, List.getElem?_eq_getElem hi]

theorem loopOnKeys_of_le (hi : ts.length ≤ i) : LoopOnKeys str ts rest i ks ↔ ks = [] := by
  have hloop : keyLoop str (ts ++ rest) ts.length i = some [] := by
    rw [keyLoop, if_neg (by omega)]
  constructor
  · rintro ⟨accesses, h, hkeys⟩
    cases hloop.symm.trans h
    exact onKeys_nil.mp hkeys
  · intro hks
    exact ⟨[], hloop, onKeys_nil.mpr hks⟩

theorem loopOnKeys_of_lt (hi : i < ts.length) : LoopOnKeys str ts rest i ks ↔
    ∃ accesses n tail, keyStep str (ts ++ rest) i = some (accesses, n) ∧
      keyLoop str (ts ++ rest) ts.length (i + n + 1) = some tail ∧
      OnKeys ts.length ks (accesses ++ tail) := by
  constructor
  · rintro ⟨all, h, hkeys⟩
    rw [keyLoop, if_pos hi] at h
    obtain ⟨⟨accesses, n⟩, hstep, hrest⟩ := Option.bind_eq_some_iff.mp h
    obtain ⟨tail, htail, rfl⟩ := Option.map_eq_some_iff.mp hrest
    exact ⟨accesses, n, tail, hstep, htail, hkeys⟩
  · rintro ⟨accesses, n, tail, hstep, htail, hkeys⟩
    refine ⟨accesses ++ tail, ?_, hkeys⟩
    rw [keyLoop, if_pos hi, hstep, Option.bind_some]
    exact congrArg (Option.map (accesses ++ ·)) htail

/-- The body compares the token it stands at before all else. -/
theorem keyStep_key (h : keyStep str ts i = some (accesses, n)) :
    ∃ branch more, accesses = .key i branch :: more := by
  obtain ⟨tok, -, h⟩ := Option.bind_eq_some_iff.mp h
  split at h
  case h_4 =>
    obtain ⟨v, -, heq⟩ := Option.map_eq_some_iff.mp h
    cases heq
    exact ⟨_, _, rfl⟩
  all_goals
    cases h
    exact ⟨_, _, rfl⟩

theorem keyStep_named (rest : List Tok) (hi : i < ts.length) (h : Named str ts i) :
    ∃ branch more, keyStep str (ts ++ rest) i =
        some (.key i branch :: more, passedOver str ts i) ∧
      ∀ ks tail, OnKeys ts.length ks (more ++ tail) ↔ OnKeys ts.length ks tail := by
  have hget : ts[i]? = some ts[i] := List.getElem?_eq_getElem hi
  obtain ⟨hmac, hdata⟩ := h
  rw [hget, Option.map_some] at hmac hdata
  rw [keyStep, passedOver, getElem?_found hi, hget, Option.bind_some, Option.map_some]
  cases hb : branchOf str ts[i] with
  | macAddr => exact absurd (congrArg some hb) hmac
  | reqSerial => exact ⟨_, [], rfl, fun ks tail => Iff.rfl⟩
  | chkTime => exact ⟨_, [], rfl, fun ks tail => Iff.rfl⟩
  | unexpected => exact ⟨_, [], rfl, fun ks tail => Iff.rfl⟩
  | chkData =>
    have hlt := hdata (congrArg some hb)
    refine ⟨.chkData, [.value (i + 1)], ?_, fun ks tail => ?_⟩
    · rw [getElem?_found hlt, List.getElem?_eq_getElem hlt]
      rfl
    · exact onKeys_value.trans (and_iff_right hlt)

theorem keyStep_not_named (hi : i < ts.length) (h : ¬ Named str ts i)
    (hstep : keyStep str (ts ++ rest) i = some (accesses, n)) :
    ¬ OnKeys ts.length ks (accesses ++ tail) := by
  intro hkeys
  have hget : ts[i]? = some ts[i] := List.getElem?_eq_getElem hi
  apply h
  rw [Named, hget, Option.map_some]
  rw [keyStep, getElem?_found hi, Option.bind_some] at hstep
  cases hb : branchOf str ts[i] with
  | macAddr =>
    rw [hb] at hstep
    cases hstep
    exact absurd (List.mem_cons_of_mem _ List.mem_cons_self) hkeys.writes
  | reqSerial | chkTime | unexpected => exact ⟨by simp, by simp⟩
  | chkData =>
    rw [hb] at hstep
    obtain ⟨v, -, heq⟩ := Option.map_eq_some_iff.mp hstep
    cases heq
    exact ⟨by simp, fun _ => hkeys.reads (i + 1) (by simp [index])⟩

theorem loopOnKeys_nil : LoopOnKeys str ts rest i [] ↔ ts.length ≤ i := by
  constructor
  · intro h
    by_contra hlt
    obtain ⟨accesses, n, tail, hstep, -, hkeys⟩ := (loopOnKeys_of_lt (by omega)).mp h
    obtain ⟨branch, more, rfl⟩ := keyStep_key hstep
    obtain ⟨ks', hks, -⟩ := (onKeys_key (by omega)).mp hkeys
    cases hks
  · intro hle
    exact (loopOnKeys_of_le hle).mpr rfl

/-- One round of the loop. -/
theorem loopOnKeys_cons (hk : k < ts.length) :
    LoopOnKeys str ts rest i (k :: ks) ↔
      i = k ∧ Named str ts k ∧ LoopOnKeys str ts rest (k + passedOver str ts k + 1) ks := by
  constructor
  · intro h
    have hi : i < ts.length := by
      by_contra hle
      cases (loopOnKeys_of_le (by omega)).mp h
    obtain ⟨accesses, n, tail, hstep, htail, hkeys⟩ := (loopOnKeys_of_lt hi).mp h
    by_cases hnamed : Named str ts i
    · obtain ⟨branch, more, hstep', hmore⟩ := keyStep_named rest hi hnamed
      cases hstep.symm.trans hstep'
      obtain ⟨ks', hks, hrest⟩ := (onKeys_key hi).mp hkeys
      cases hks
      exact ⟨rfl, hnamed, tail, htail, (hmore _ _).mp hrest⟩
    · exact absurd hkeys (keyStep_not_named hi hnamed hstep)
  · rintro ⟨rfl, hnamed, tail, htail, hrest⟩
    obtain ⟨branch, more, hstep, hmore⟩ := keyStep_named rest hk hnamed
    refine (loopOnKeys_of_lt hk).mpr ⟨_, _, tail, hstep, htail, ?_⟩
    exact (onKeys_key hk).mpr ⟨ks, rfl, (hmore _ _).mpr hrest⟩

/-- All rounds: the keys are met one after the other and none is left behind. -/
theorem loopOnKeys_iff (hks : ∀ k ∈ ks, k < ts.length) :
    LoopOnKeys str ts rest i ks ↔
      (∀ k, ks.head? = some k → i = k) ∧ (ks = [] → ts.length ≤ i) ∧
      (∀ k ∈ ks, Named str ts k) ∧
      (ks.IsChain fun k k' => k + passedOver str ts k + 1 = k') ∧
      ∀ k, ks.getLast? = some k → ts.length ≤ k + passedOver str ts k + 1 := by
  induction ks generalizing i with
  | nil => simp [loopOnKeys_nil]
  | cons k ks ih =>
    rw [loopOnKeys_cons (hks k List.mem_cons_self),
      ih fun k' hk' => hks k' (List.mem_cons_of_mem k hk')]
    cases ks with
    | nil => simp
    | cons k' ks => simp [List.isChain_cons_cons, List.getLast?_cons_cons]; tauto

theorem RootKeys.unique {ks' : List Nat} (h : RootKeys ts ks) (h' : RootKeys ts ks') :
    ks' = ks := by
  obtain ⟨root, e, path, hroot, hlen, -, hforest⟩ := h
  obtain ⟨root', e', path', hroot', hlen', -, hforest'⟩ := h'
  cases hroot.symm.trans hroot'
  exact (hforest'.unique hforest (hlen'.trans hlen.symm)).1

theorem exists_rootKeys {numTokens : Nat} {js : Text} {p : Parser} {root : Tok}
    (h : jsmnParse numTokens jsmnInit js = .ok p) (hroot : p.tokens[0]? = some root) :
    ∃ ks, RootKeys p.tokens ks := by
  obtain ⟨roots, path, hb⟩ := jsmnParse_built h
  have hlt : 0 < p.tokens.length := (List.getElem?_eq_some_iff.mp hroot).1
  cases roots with
  | nil =>
    have hend := hb.forest.end_eq
    omega
  | cons r roots =>
    obtain ⟨j, cs, path', hj, hsize, hforest⟩ := hb.forest.root
    rw [sizes, List.getElem?_map, hroot, Option.map_some] at hsize
    exact ⟨cs, root, j, path', hroot, (Option.some.inj hsize).symm, hj, hforest⟩

theorem parseInto_object {numTokens n : Nat} {p : Parser} {root : Tok} (t : List Tok)
    (hlen : strlen str = some n) (h : jsmnParse numTokens jsmnInit (str.take n) = .ok p)
    (hroot : p.tokens[0]? = some root) (hobject : root.type = .object) :
    parseInto numTokens t jsmnInit str =
      (keyLoop str (p.tokens ++ t.drop p.tokens.length) p.tokens.length 1).map (0, ·) := by
  obtain ⟨roots, path, hb⟩ := jsmnParse_built h
  have hlt : 0 < p.tokens.length := (List.getElem?_eq_some_iff.mp hroot).1
  rw [parseInto, hlen, Option.bind_some, h]
  dsimp only
  rw [if_neg (by rw [hb.count]; omega), List.getElem?_append_left hlt, hroot, Option.bind_some,
    if_pos hobject, hb.count]

theorem staysOnKeys_iff {numTokens n : Nat} {p : Parser} {root : Tok} (t : List Tok)
    (hlen : strlen str = some n) (h : jsmnParse numTokens jsmnInit (str.take n) = .ok p)
    (hroot : p.tokens[0]? = some root) (hobject : root.type = .object)
    (hks : RootKeys p.tokens ks) :
    StaysOnKeys numTokens t str p.tokens ks ↔ Fits str p.tokens ks := by
  have hparse := parseInto_object t hlen h hroot hobject
  obtain ⟨-, e, path, -, -, he, hforest⟩ := hks
  have hloop : StaysOnKeys numTokens t str p.tokens ks ↔
      LoopOnKeys str p.tokens (t.drop p.tokens.length) 1 ks := by
    constructor
    · rintro ⟨accesses, hrun, hkeys⟩
      obtain ⟨accesses', hrun', heq⟩ := Option.map_eq_some_iff.mp (hparse.symm.trans hrun)
      cases heq
      exact ⟨accesses, hrun', hkeys⟩
    · rintro ⟨accesses, hrun, hkeys⟩
      exact ⟨accesses, by rw [hparse, hrun, Option.map_some], hkeys⟩
  have hhead : ∀ k, ks.head? = some k → 1 = k := by
    intro k hk
    obtain ⟨ks', rfl⟩ := List.head?_eq_some_iff.mp hk
    exact hforest.head.symm
  rw [hloop, loopOnKeys_iff fun k hk => (hforest.roots_lt k hk).trans_le he]
  constructor
  · rintro ⟨-, hempty, hnamed, hgaps, hlast⟩
    exact ⟨hempty, hnamed, hgaps, hlast⟩
  · rintro ⟨hempty, hnamed, hgaps, hlast⟩
    exact ⟨hhead, hempty, hnamed, hgaps, hlast⟩

/-- Of every text that jsmn_parse takes for an object, with any capacity and array,
the tokens are a forest in which the object has its keys, and the key loop stays on
these exactly when they fit what its branches pass over. -/
theorem jsonParser_staysOnKeys_iff {numTokens n : Nat} {str : Text} {p : Parser} {root : Tok}
    (t : List Tok) (hlen : strlen str = some n)
    (h : jsmnParse numTokens jsmnInit (str.take n) = .ok p)
    (hroot : p.tokens[0]? = some root) (hobject : root.type = .object) :
    ∃ ks, RootKeys p.tokens ks ∧ (∀ ks', RootKeys p.tokens ks' → ks' = ks) ∧
      (StaysOnKeys numTokens t str p.tokens ks ↔ Fits str p.tokens ks) := by
  obtain ⟨ks, hks⟩ := exists_rootKeys h hroot
  exact ⟨ks, hks, fun ks' hks' => hks.unique hks', staysOnKeys_iff t hlen h hroot hobject hks⟩

/-- check_data with an array of one string. -/
def flatMember : Text := lit "\x7b\"check_data\":[\"a\"]\x7d"

def flatParser : Parser :=
  ⟨20, none, [⟨.object, 0, 20, 1⟩, ⟨.string, 2, 12, 1⟩, ⟨.array, 14, 19, 1⟩, ⟨.string, 16, 17, 0⟩], 4⟩

theorem jsonParser_staysOnKeys_flat :
    ∃ ks, RootKeys flatParser.tokens ks ∧ (∀ ks', RootKeys flatParser.tokens ks' → ks' = ks) ∧
      (StaysOnKeys 128 [] (flatMember ++ [0]) flatParser.tokens ks ↔
        Fits (flatMember ++ [0]) flatParser.tokens ks) :=
  jsonParser_staysOnKeys_iff [] (n := 20) (by decide) (by decide) rfl rfl

example : Fits (flatMember ++ [0]) flatParser.tokens [1] where
  empty := by simp
  named := List.forall_mem_singleton.mpr ⟨by decide, by decide⟩
  gaps := by simp
  last := by
    rintro k ⟨⟩
    decide

/-- An unknown member. -/
def unknownMember : Text := lit "\x7b\"x\":1\x7d"

def unknownParser : Parser :=
  ⟨7, none, [⟨.object, 0, 7, 1⟩, ⟨.string, 2, 3, 1⟩, ⟨.primitive, 5, 6, 0⟩], 3⟩

/-- The value of the unknown member is compared with the names as well. -/
theorem jsonParser_staysOnKeys_unknown :
    ¬ ∀ (numTokens n : Nat) (t : List Tok) (str : Text) (p : Parser) (root : Tok) (ks : List Nat),
      strlen str = some n → jsmnParse numTokens jsmnInit (str.take n) = .ok p →
      p.tokens[0]? = some root → root.type = .object → RootKeys p.tokens ks →
      StaysOnKeys numTokens t str p.tokens ks := by
  intro h
  have hkeys : RootKeys unknownParser.tokens [1] :=
    ⟨⟨.object, 0, 7, 1⟩, 3, [1, 2], rfl, rfl, by decide,
      .last rfl (.singleton rfl)⟩
  have hlen : strlen (unknownMember ++ [0]) = some 7 := by decide
  have hparse : jsmnParse 128 jsmnInit ((unknownMember ++ [0]).take 7) = .ok unknownParser := by
    decide
  have hstays := h 128 7 [] _ _ _ _ hlen hparse rfl rfl hkeys
  have hfits := (staysOnKeys_iff [] hlen hparse rfl rfl hkeys).mp hstays
  exact absurd (hfits.last 1 rfl) (by decide)

end Keys

end PopcornFirmware.Packet.JsonKeys
