import PopcornFirmware.Lib.CText

namespace PopcornFirmware.Packet.Jsmn

open PopcornFirmware.Lib.CText

/-- The values of jsmntype_t. -/
inductive Kind where
  | undefined
  | object
  | array
  | string
  | primitive
  deriving DecidableEq, Repr

/-- The values of jsmnerr. -/
inductive Err where
  | nomem
  | inval
  | part
  deriving DecidableEq, Repr

structure Tok where
  type : Kind
  start : Int
  stop : Int
  size : Nat
  deriving DecidableEq, Repr

/-- The fields of jsmn_parser, the tokens allocated so far (toknext of them)
and the local count of jsmn_parse. -/
structure Parser where
  pos : Nat
  toksuper : Option Nat
  tokens : List Tok
  count : Nat
  deriving DecidableEq, Repr

def jsmnInit : Parser := ⟨0, none, [], 0⟩

/-- A started object or array whose closing bracket is still to come. -/
def Tok.isOpen (t : Tok) : Bool := t.start ≠ -1 && t.stop = -1

def Tok.isContainer (t : Tok) : Bool := t.type = .array || t.type = .object

/-- The result of a loop that runs down from the last token to the first one
that passes the test. -/
def lastIdx (test : Tok → Bool) : List Tok → Option Nat
  | [] => none
  | t :: ts =>
    match lastIdx test ts with
    | some i => some (i + 1)
    | none => if test t then some 0 else none

/-- jsmn_alloc_token followed by the assignments of its caller. -/
def jsmnAllocToken (numTokens : Nat) (p : Parser) (tok : Tok) : Except Err Parser :=
  if p.tokens.length ≥ numTokens then .error .nomem
  else .ok { p with tokens := p.tokens ++ [tok] }

/-- The statement tokens[toksuper].size++ with its guard. -/
def bumpSuper (p : Parser) : Parser :=
  match p.toksuper with
  | none => p
  | some i => { p with tokens := p.tokens.modify i fun t => { t with size := t.size + 1 } }

def isSimpleEscape (c : UInt8) : Bool :=
  c = ch '"' || c = ch '/' || c = ch '\\' || c = ch 'b' || c = ch 'f' || c = ch 'r' ||
    c = ch 'n' || c = ch 't'

def isHex (c : UInt8) : Bool :=
  (48 ≤ c && c ≤ 57) || (65 ≤ c && c ≤ 70) || (97 ≤ c && c ≤ 102)

def endsPrimitive (c : UInt8) : Bool :=
  c = ch ':' || c = ch '\t' || c = ch '\r' || c = ch '\n' || c = ch ' ' || c = ch ',' ||
    c = ch ']' || c = ch '}'

/-- Where the loop of jsmn_parse_string stands: at a plain byte, behind a
backslash, or inside a \\u escape with that many hex digits after this one. -/
inductive Mode where
  | plain
  | escape
  | hex (k : Nat)

/-- The loop of jsmn_parse_string from the byte at pos on, to the position of
the closing quote. -/
def stringLoop : Mode → Nat → Text → Except Err Nat
  -- a backslash that is the last byte is passed over, and the text ends here too
  | _, _, [] => .error .part
  | .plain, pos, c :: js =>
    if c = 0 then .error .part
    else if c = ch '"' then .ok pos
    else if c = ch '\\' then stringLoop .escape (pos + 1) js
    else stringLoop .plain (pos + 1) js
  | .escape, pos, c :: js =>
    if isSimpleEscape c then stringLoop .plain (pos + 1) js
    else if c = ch 'u' then stringLoop (.hex 3) (pos + 1) js
    else .error .inval
  | .hex k, pos, c :: js =>
    if c = 0 then .error .part
    else if isHex c then stringLoop (if k = 0 then .plain else .hex (k - 1)) (pos + 1) js
    else .error .inval

/-- The loop of jsmn_parse_primitive, to the position of the byte that ends
the primitive. -/
def primitiveLoop : Nat → Text → Except Err Nat
  | pos, [] => .ok pos
  | pos, c :: js =>
    if c = 0 then .ok pos
    else if endsPrimitive c then .ok pos
    else if c < 32 || c ≥ 127 then .error .inval
    else primitiveLoop (pos + 1) js

/-- js is the text after the opening quote at parser->pos. -/
def jsmnParseString (numTokens : Nat) (p : Parser) (js : Text) : Except Err Parser := do
  let pos ← stringLoop .plain (p.pos + 1) js
  let p' ← jsmnAllocToken numTokens p ⟨.string, p.pos + 1, pos, 0⟩
  return { p' with pos := pos }

/-- js is the text from parser->pos on. -/
def jsmnParsePrimitive (numTokens : Nat) (p : Parser) (js : Text) : Except Err Parser := do
  let pos ← primitiveLoop p.pos js
  let p' ← jsmnAllocToken numTokens p ⟨.primitive, p.pos, pos, 0⟩
  return { p' with pos := pos - 1 }

/-- The cases for an opening bracket. -/
def openBracket (numTokens : Nat) (p : Parser) (type : Kind) : Except Err Parser := do
  let p' ← jsmnAllocToken numTokens p ⟨type, p.pos, -1, 0⟩
  return { bumpSuper p' with toksuper := some p.tokens.length, count := p.count + 1 }

/-- The cases for a closing bracket: close the last open token, then let the
last token that is still open before it be the superior one. -/
def closeBracket (p : Parser) (type : Kind) : Except Err Parser :=
  match lastIdx Tok.isOpen p.tokens with
  | none => .error .inval
  | some i =>
    if (p.tokens[i]?).map Tok.type ≠ some type then .error .inval
    else
      let tokens := p.tokens.modify i fun t => { t with stop := p.pos + 1 }
      .ok { p with tokens := tokens, toksuper := lastIdx Tok.isOpen (tokens.take (i + 1)) }

/-- The case for a comma. -/
def comma (p : Parser) : Parser :=
  match p.toksuper with
  | none => p
  | some s =>
    if (p.tokens[s]?).any Tok.isContainer then p
    else
      match lastIdx (fun t => t.isContainer && t.isOpen) p.tokens with
      | none => p
      | some i => { p with toksuper := some i }

/-- The switch of jsmn_parse on the byte at parser->pos; js is the text after
it. -/
def parseByte (numTokens : Nat) (p : Parser) (c : UInt8) (js : Text) : Except Err Parser :=
  if c = ch '\x7b' then openBracket numTokens p .object
  else if c = ch '[' then openBracket numTokens p .array
  else if c = ch '\x7d' then closeBracket p .object
  else if c = ch ']' then closeBracket p .array
  else if c = ch '"' then do
    let p' ← jsmnParseString numTokens p js
    return bumpSuper { p' with count := p'.count + 1 }
  else if c = ch '\t' || c = ch '\r' || c = ch '\n' || c = ch ' ' then .ok p
  else if c = ch ':' then
    -- toknext - 1 as an int, so -1 before the first token
    .ok { p with toksuper := if p.tokens = [] then none else some (p.tokens.length - 1) }
  else if c = ch ',' then .ok (comma p)
  else do
    let p' ← jsmnParsePrimitive numTokens p (c :: js)
    return bumpSuper { p' with count := p'.count + 1 }

/-- The loop of jsmn_parse over the text from position i on. Positions below
parser->pos have been consumed by the string or primitive before them. -/
def parseLoop (numTokens : Nat) : Nat → Parser → Text → Except Err Parser
  | _, p, [] => .ok p
  | i, p, c :: js =>
    if i < p.pos then parseLoop numTokens (i + 1) p js
    else if c = 0 then .ok p
    else do
      let p' ← parseByte numTokens p c js
      parseLoop numTokens (i + 1) { p' with pos := p'.pos + 1 } js

/-- jsmn_parse into an array of numTokens tokens; js has exactly len bytes. -/
def jsmnParse (numTokens : Nat) (p : Parser) (js : Text) : Except Err Parser := do
  let p' ← parseLoop numTokens 0 { p with count := p.tokens.length } js
  if p'.tokens.any Tok.isOpen then .error .part else .ok p'

theorem lastIdx_append (test : Tok → Bool) (xs ys : List Tok) :
    lastIdx test (xs ++ ys) =
      match lastIdx test ys with
      | some i => some (xs.length + i)
      | none => lastIdx test xs := by
  induction xs with
  | nil => cases h : lastIdx test ys <;> simp [lastIdx, h]
  | cons x xs ih =>
    simp only [List.cons_append, lastIdx, ih]
    cases lastIdx test ys with
    | none => rfl
    | some i => simp; omega

theorem lastIdx_eq_none {test : Tok → Bool} {xs : List Tok} :
    lastIdx test xs = none ↔ ∀ t ∈ xs, test t = false := by
  induction xs with
  | nil => simp [lastIdx]
  | cons x xs ih =>
    cases hx : lastIdx test xs with
    | none =>
      have hxs := ih.mp hx
      simp only [lastIdx, hx, List.mem_cons, forall_eq_or_imp]
      cases h : test x with
      | false => simpa using hxs
      | true => simp
    | some i =>
      have hne : ¬ ∀ t ∈ xs, test t = false := fun h => by simp [ih.mpr h] at hx
      simp only [lastIdx, hx, List.mem_cons, forall_eq_or_imp, hne, and_false]
      simp

theorem lastIdx_append_right {test : Tok → Bool} {xs ys : List Tok}
    (h : ∀ t ∈ ys, test t = false) : lastIdx test (xs ++ ys) = lastIdx test xs := by
  rw [lastIdx_append, lastIdx_eq_none.mpr h]

theorem lastIdx_modify {test : Tok → Bool} {f : Tok → Tok} (hf : ∀ t, test (f t) = test t)
    (xs : List Tok) (i : Nat) : lastIdx test (xs.modify i f) = lastIdx test xs := by
  induction xs generalizing i with
  | nil => simp
  | cons x xs ih =>
    cases i with
    | zero => simp [lastIdx, hf]
    | succ i => simp [lastIdx, ih]

end PopcornFirmware.Packet.Jsmn
