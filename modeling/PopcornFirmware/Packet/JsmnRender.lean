import PopcornFirmware.Packet.Tree

namespace PopcornFirmware.Packet.JsmnRender

open PopcornFirmware.Lib.CText PopcornFirmware.Packet.Jsmn PopcornFirmware.Packet.Tree

/-- Continue the loop of jsmn_parse at the parser's own position. -/
def resume (numTokens : Nat) (p : Parser) (js : Text) : Except Err Parser :=
  parseLoop numTokens p.pos p js

theorem parseLoop_skip (numTokens i : Nat) (p : Parser) (xs rest : Text)
    (h : i + xs.length ≤ p.pos) :
    parseLoop numTokens i p (xs ++ rest) = parseLoop numTokens (i + xs.length) p rest := by
  induction xs generalizing i with
  | nil => rfl
  | cons x xs ih =>
    simp only [List.length_cons] at h ⊢
    have hlt : i < p.pos := by omega
    have hi : i + (xs.length + 1) = (i + 1) + xs.length := by omega
    rw [List.cons_append, parseLoop, if_pos hlt, ih (i + 1) (by omega), hi]

/-- One round of the loop: the byte at parser->pos and the bytes xs that the
string or primitive starting there takes with it. -/
theorem resume_step {numTokens : Nat} {p p' : Parser} {c : UInt8} {xs rest : Text} (hc : c ≠ 0)
    (h : parseByte numTokens p c (xs ++ rest) = .ok p') (hpos : p'.pos = p.pos + xs.length) :
    resume numTokens p (c :: (xs ++ rest)) =
      resume numTokens { p' with pos := p'.pos + 1 } rest := by
  have hskip := parseLoop_skip numTokens (p.pos + 1) { p' with pos := p'.pos + 1 } xs rest
    (by simp only; omega)
  have hi : p.pos + 1 + xs.length = p'.pos + 1 := by omega
  rw [resume, parseLoop, if_neg (Nat.lt_irrefl _), if_neg hc, h]
  change parseLoop numTokens (p.pos + 1) { p' with pos := p'.pos + 1 } (xs ++ rest) = _
  rw [hskip, hi]
  rfl

theorem resume_byte {numTokens : Nat} {p p' : Parser} {c : UInt8} {rest : Text} (hc : c ≠ 0)
    (h : parseByte numTokens p c rest = .ok p') (hpos : p'.pos = p.pos) :
    resume numTokens p (c :: rest) = resume numTokens { p' with pos := p.pos + 1 } rest := by
  have hs := @resume_step numTokens p p' c [] rest hc h (by simpa using hpos)
  rwa [hpos] at hs

theorem stringLoop_plain (t rest : Text) (h : Plain t) (pos : Nat) :
    stringLoop .plain pos (t ++ ch '"' :: rest) = .ok (pos + t.length) := by
  induction t generalizing pos with
  | nil => simp [stringLoop, ch]
  | cons c t ih =>
    obtain ⟨h0, hq, hb⟩ := h c (by simp)
    have ht : Plain t := fun d hd => h d (by simp [hd])
    have hp : pos + 1 + t.length = pos + (c :: t).length := by
      simp only [List.length_cons]
      omega
    simp only [List.cons_append, stringLoop, if_neg h0, if_neg hq, if_neg hb]
    rw [ih ht, hp]

/-- What may follow an unquoted value. -/
def Stops : Text → Prop
  | [] => True
  | c :: _ => endsPrimitive c = true

theorem primitiveLoop_bare (t rest : Text)
    (h : ∀ c ∈ t, 32 < c ∧ c < 127 ∧ endsPrimitive c = false) (hr : Stops rest) (pos : Nat) :
    primitiveLoop pos (t ++ rest) = .ok (pos + t.length) := by
  induction t generalizing pos with
  | nil =>
    cases rest with
    | nil => rfl
    | cons c rest =>
      have hc : endsPrimitive c = true := hr
      by_cases h0 : c = 0 <;> simp [primitiveLoop, hc, h0]
  | cons c t ih =>
    obtain ⟨hlo, hhi, he⟩ := h c (by simp)
    have ht : ∀ d ∈ t, 32 < d ∧ d < 127 ∧ endsPrimitive d = false := fun d hd => h d (by simp [hd])
    have h0 : c ≠ 0 := by
      rintro rfl
      exact absurd hlo (by decide)
    have hlo' : ¬ c < 32 := UInt8.lt_asymm hlo
    have hhi' : ¬ 127 ≤ c := UInt8.not_le.mpr hhi
    have hp : pos + 1 + t.length = pos + (c :: t).length := by
      simp only [List.length_cons]
      omega
    simp [primitiveLoop, h0, he, hlo', hhi', ih ht, hp]

/-- The tokens after size++ on the superior one. -/
def bumpAt : Option Nat → List Tok → List Tok
  | none, T => T
  | some i, T => T.modify i fun t => { t with size := t.size + 1 }

theorem bumpSuper_eq (pos : Nat) (sup : Option Nat) (T : List Tok) (n : Nat) :
    bumpSuper ⟨pos, sup, T, n⟩ = ⟨pos, sup, bumpAt sup T, n⟩ := by
  cases sup <;> rfl

@[simp] theorem bumpAt_length (sup : Option Nat) (T : List Tok) :
    (bumpAt sup T).length = T.length := by
  cases sup <;> simp [bumpAt]

def SupBound (sup : Option Nat) (T : List Tok) : Prop := ∀ i, sup = some i → i < T.length

theorem bumpAt_append {sup : Option Nat} {T U : List Tok} (h : SupBound sup T) :
    bumpAt sup (T ++ U) = bumpAt sup T ++ U := by
  cases sup with
  | none => rfl
  | some i =>
    have hi := h i rfl
    apply List.ext_getElem?
    intro j
    simp only [bumpAt, List.getElem?_modify, List.getElem?_append, List.length_modify]
    grind

theorem lastOpen_bumpAt (sup : Option Nat) (T : List Tok) :
    lastIdx Tok.isOpen (bumpAt sup T) = lastIdx Tok.isOpen T := by
  cases sup with
  | none => rfl
  | some i => exact lastIdx_modify (f := fun t => { t with size := t.size + 1 }) (fun _ => rfl) T i

/-- The superior token once a value has been read: its own enclosing bracket
when the value had brackets, else the one before. -/
def supAfter (v : Json) (sup : Option Nat) (T : List Tok) : Option Nat :=
  if v.isContainer then lastIdx Tok.isOpen T else sup

theorem resume_str (numTokens pos : Nat) (sup : Option Nat) (T : List Tok) (n : Nat)
    (t rest : Text) (ht : Plain t) (hcap : T.length < numTokens) (hsup : SupBound sup T) :
    resume numTokens ⟨pos, sup, T, n⟩ (quoted t ++ rest) =
      resume numTokens ⟨pos + t.length + 2, sup,
        bumpAt sup T ++ [⟨.string, pos + 1, pos + 1 + t.length, 0⟩], n + 1⟩ rest := by
  have hloop := stringLoop_plain t rest ht (pos + 1)
  have hquote : quoted t ++ rest = ch '"' :: ((t ++ [ch '"']) ++ rest) := by
    simp [quoted]
  have hbyte : parseByte numTokens ⟨pos, sup, T, n⟩ (ch '"') ((t ++ [ch '"']) ++ rest) =
      .ok ⟨pos + 1 + t.length, sup,
        bumpAt sup T ++ [⟨.string, pos + 1, pos + 1 + t.length, 0⟩], n + 1⟩ := by
    have hstr : jsmnParseString numTokens ⟨pos, sup, T, n⟩ ((t ++ [ch '"']) ++ rest) =
        .ok ⟨pos + 1 + t.length, sup,
          T ++ [⟨.string, pos + 1, pos + 1 + t.length, 0⟩], n⟩ := by
      have hlt : ¬ numTokens ≤ T.length := by omega
      rw [List.append_assoc, List.singleton_append]
      simp [jsmnParseString, hloop, jsmnAllocToken, hlt, bind, Except.bind, pure, Except.pure]
    rw [parseByte, if_neg (by decide), if_neg (by decide), if_neg (by decide), if_neg (by decide),
      if_pos rfl, hstr]
    change Except.ok (bumpSuper ⟨_, sup, _, _⟩) = _
    rw [bumpSuper_eq, bumpAt_append hsup]
  have h := resume_step (by decide) hbyte (by simp; omega)
  have hpos : pos + 1 + t.length + 1 = pos + t.length + 2 := by omega
  rw [hquote, h, hpos]

theorem resume_prim (numTokens pos : Nat) (sup : Option Nat) (T : List Tok) (n : Nat)
    (t rest : Text) (ht : Bare t) (hcap : T.length < numTokens) (hsup : SupBound sup T)
    (hrest : Stops rest) :
    resume numTokens ⟨pos, sup, T, n⟩ (t ++ rest) =
      resume numTokens ⟨pos + t.length, sup,
        bumpAt sup T ++ [⟨.primitive, pos, pos + t.length, 0⟩], n + 1⟩ rest := by
  obtain ⟨hne, hb⟩ := ht
  have hends : ∀ c ∈ t, 32 < c ∧ c < 127 ∧ endsPrimitive c = false := by
    intro c hc
    obtain ⟨hlo, hhi, h1, h2, h3, h4, -⟩ := hb c hc
    refine ⟨hlo, hhi, ?_⟩
    have hws : c ≠ ch '\t' ∧ c ≠ ch '\r' ∧ c ≠ ch '\n' ∧ c ≠ ch ' ' := by
      refine ⟨?_, ?_, ?_, ?_⟩ <;> rintro rfl <;> exact absurd hlo (by decide)
    simp [endsPrimitive, h1, h2, h3, h4, hws]
  cases t with
  | nil => exact absurd rfl hne
  | cons c t =>
    have hloop := primitiveLoop_bare (c :: t) rest hends hrest pos
    obtain ⟨hlo, -, h1, h2, h3, h4, h5, h6, h7⟩ := hb c (by simp)
    have hws : c ≠ ch '\t' ∧ c ≠ ch '\r' ∧ c ≠ ch '\n' ∧ c ≠ ch ' ' := by
      refine ⟨?_, ?_, ?_, ?_⟩ <;> rintro rfl <;> exact absurd hlo (by decide)
    have h0 : c ≠ 0 := by
      rintro rfl
      exact absurd hlo (by decide)
    have hbyte : parseByte numTokens ⟨pos, sup, T, n⟩ c (t ++ rest) =
        .ok ⟨pos + t.length, sup,
          bumpAt sup T ++ [⟨.primitive, pos, pos + (c :: t).length, 0⟩], n + 1⟩ := by
      have hprim : jsmnParsePrimitive numTokens ⟨pos, sup, T, n⟩ (c :: (t ++ rest)) =
          .ok ⟨pos + t.length, sup,
            T ++ [⟨.primitive, pos, pos + (c :: t).length, 0⟩], n⟩ := by
        have hlt : ¬ numTokens ≤ T.length := by omega
        rw [← List.cons_append, jsmnParsePrimitive, hloop]
        simp [jsmnAllocToken, hlt, bind, Except.bind, pure, Except.pure]
      simp only [parseByte, h1, h2, h3, h4, h5, h6, h7, hws, if_false, hprim, decide_false,
        Bool.or_self, Bool.false_eq_true]
      change Except.ok (bumpSuper ⟨_, sup, _, _⟩) = _
      rw [bumpSuper_eq, bumpAt_append hsup]
    exact resume_step h0 hbyte rfl

def Closed (U : List Tok) : Prop := ∀ t ∈ U, t.isOpen = false

theorem bumpAt_mid (b U : List Tok) (type : Kind) (start stop : Int) (k : Nat) :
    bumpAt (some b.length) (b ++ ⟨type, start, stop, k⟩ :: U) =
      b ++ ⟨type, start, stop, k + 1⟩ :: U := by
  apply List.ext_getElem?
  intro j
  simp only [bumpAt, List.getElem?_modify, List.getElem?_append]
  grind

theorem lastOpen_mid (b : List Tok) (type : Kind) (o k : Nat) {U : List Tok} (hU : Closed U) :
    lastIdx Tok.isOpen (b ++ ⟨type, o, -1, k⟩ :: U) = some b.length := by
  rw [lastIdx_append]
  have h : lastIdx Tok.isOpen (⟨type, o, -1, k⟩ :: U) = some 0 := by
    have ho : (o : Int) ≠ -1 := by omega
    simp [lastIdx, lastIdx_eq_none.mpr hU, Tok.isOpen, ho]
  rw [h]
  rfl

theorem lastIdx_and {test test' : Tok → Bool} {T : List Tok} {s : Nat} {t : Tok}
    (h : lastIdx test' T = some s) (hs : T[s]? = some t) (ht : test t = true) :
    lastIdx (fun t => test t && test' t) T = some s := by
  induction T generalizing s with
  | nil => simp [lastIdx] at h
  | cons x T ih =>
    cases hx : lastIdx test' T with
    | some i =>
      simp only [lastIdx, hx, Option.some.injEq] at h
      subst h
      rw [List.getElem?_cons_succ] at hs
      simp [lastIdx, ih hx hs]
    | none =>
      have hnone : lastIdx (fun t => test t && test' t) T = none :=
        lastIdx_eq_none.mpr fun t ht => by simp [lastIdx_eq_none.mp hx t ht]
      simp only [lastIdx, hx] at h
      split at h
      · simp only [Option.some.injEq] at h
        subst h
        simp only [List.getElem?_cons_zero, Option.some.injEq] at hs
        subst hs
        simp [lastIdx, *]
      · simp at h

theorem resume_open (numTokens pos n : Nat) (rest : Text) {sup : Option Nat} {T : List Tok}
    {c : UInt8} {type : Kind} (hc : c = ch '\x7b' ∧ type = .object ∨ c = ch '[' ∧ type = .array)
    (hcap : T.length < numTokens) (hsup : SupBound sup T) :
    resume numTokens ⟨pos, sup, T, n⟩ (c :: rest) =
      resume numTokens
        ⟨pos + 1, some T.length, bumpAt sup T ++ [⟨type, pos, -1, 0⟩], n + 1⟩ rest := by
  have hlt : ¬ numTokens ≤ T.length := by omega
  have hopen : openBracket numTokens ⟨pos, sup, T, n⟩ type =
      .ok ⟨pos, some T.length, bumpAt sup T ++ [⟨type, pos, -1, 0⟩], n + 1⟩ := by
    simp [openBracket, jsmnAllocToken, hlt, bind, Except.bind, pure, Except.pure, bumpSuper_eq,
      bumpAt_append hsup]
  have h0 : c ≠ 0 := by
    obtain ⟨rfl, -⟩ | ⟨rfl, -⟩ := hc <;> decide
  have hbyte : parseByte numTokens ⟨pos, sup, T, n⟩ c rest =
      .ok ⟨pos, some T.length, bumpAt sup T ++ [⟨type, pos, -1, 0⟩], n + 1⟩ := by
    obtain ⟨rfl, rfl⟩ | ⟨rfl, rfl⟩ := hc
    · rw [parseByte, if_pos rfl, hopen]
    · rw [parseByte, if_neg (by decide), if_pos rfl, hopen]
  exact resume_byte h0 hbyte rfl

theorem resume_close (numTokens pos o k n : Nat) (sup : Option Nat) (b : List Tok) (rest : Text)
    {U : List Tok} {c : UInt8} {type : Kind}
    (hc : c = ch '\x7d' ∧ type = .object ∨ c = ch ']' ∧ type = .array) (hU : Closed U) :
    resume numTokens ⟨pos, sup, b ++ ⟨type, o, -1, k⟩ :: U, n⟩ (c :: rest) =
      resume numTokens
        ⟨pos + 1, lastIdx Tok.isOpen b, b ++ ⟨type, o, pos + 1, k⟩ :: U, n⟩ rest := by
  have hmod : (b ++ ⟨type, o, -1, k⟩ :: U).modify b.length
      (fun t => { t with stop := (pos : Int) + 1 }) = b ++ ⟨type, o, pos + 1, k⟩ :: U := by
    apply List.ext_getElem?
    intro j
    simp only [List.getElem?_modify, List.getElem?_append]
    grind
  have htake : (b ++ ⟨type, (o : Int), (pos : Int) + 1, k⟩ :: U).take (b.length + 1) =
      b ++ [⟨type, o, pos + 1, k⟩] := by
    simp [List.take_append]
  have hlast : lastIdx Tok.isOpen (b ++ [⟨type, (o : Int), (pos : Int) + 1, k⟩]) =
      lastIdx Tok.isOpen b := by
    apply lastIdx_append_right
    intro t ht
    rw [List.mem_singleton.mp ht]
    simp [Tok.isOpen]
    omega
  have hclose : closeBracket ⟨pos, sup, b ++ ⟨type, o, -1, k⟩ :: U, n⟩ type =
      .ok ⟨pos, lastIdx Tok.isOpen b, b ++ ⟨type, o, pos + 1, k⟩ :: U, n⟩ := by
    simp [closeBracket, lastOpen_mid _ _ _ _ hU, hmod, htake, hlast]
  have h0 : c ≠ 0 := by
    obtain ⟨rfl, -⟩ | ⟨rfl, -⟩ := hc <;> decide
  have hbyte : parseByte numTokens ⟨pos, sup, b ++ ⟨type, o, -1, k⟩ :: U, n⟩ c rest =
      .ok ⟨pos, lastIdx Tok.isOpen b, b ++ ⟨type, o, pos + 1, k⟩ :: U, n⟩ := by
    obtain ⟨rfl, rfl⟩ | ⟨rfl, rfl⟩ := hc
    · rw [parseByte, if_neg (by decide), if_neg (by decide), if_pos rfl, hclose]
    · rw [parseByte, if_neg (by decide), if_neg (by decide), if_neg (by decide), if_pos rfl, hclose]
  exact resume_byte h0 hbyte rfl

theorem resume_colon (numTokens pos : Nat) (sup : Option Nat) (T : List Tok) (t : Tok) (n : Nat)
    (rest : Text) :
    resume numTokens ⟨pos, sup, T ++ [t], n⟩ (ch ':' :: rest) =
      resume numTokens ⟨pos + 1, some T.length, T ++ [t], n⟩ rest := by
  have hbyte : parseByte numTokens ⟨pos, sup, T ++ [t], n⟩ (ch ':') rest =
      .ok ⟨pos, some T.length, T ++ [t], n⟩ := by
    rw [parseByte, if_neg (by decide), if_neg (by decide), if_neg (by decide), if_neg (by decide),
      if_neg (by decide), if_neg (by decide), if_pos rfl]
    simp
  exact resume_byte (by decide) hbyte rfl

theorem resume_comma (numTokens pos o k n : Nat) (b : List Tok) (rest : Text) {sup : Option Nat}
    {U : List Tok} {type : Kind} (htype : type = .array ∨ type = .object) (hU : Closed U)
    (hsup : sup = some b.length ∨ ∃ s t, sup = some s ∧
      (b ++ ⟨type, (o : Int), -1, k⟩ :: U)[s]? = some t ∧ t.isContainer = false) :
    resume numTokens ⟨pos, sup, b ++ ⟨type, o, -1, k⟩ :: U, n⟩ (ch ',' :: rest) =
      resume numTokens ⟨pos + 1, some b.length, b ++ ⟨type, o, -1, k⟩ :: U, n⟩ rest := by
  have hbyte : ∀ p, parseByte numTokens p (ch ',') rest = .ok (comma p) := by
    intro p
    rw [parseByte, if_neg (by decide), if_neg (by decide), if_neg (by decide), if_neg (by decide),
      if_neg (by decide), if_neg (by decide), if_neg (by decide), if_pos rfl]
  have hcont : Tok.isContainer ⟨type, o, -1, k⟩ = true := by
    obtain rfl | rfl := htype <;> rfl
  have hmid : (b ++ ⟨type, (o : Int), -1, k⟩ :: U)[b.length]? = some ⟨type, o, -1, k⟩ := by simp
  have hcomma : comma ⟨pos, sup, b ++ ⟨type, o, -1, k⟩ :: U, n⟩ =
      ⟨pos, some b.length, b ++ ⟨type, o, -1, k⟩ :: U, n⟩ := by
    obtain rfl | ⟨s, t, rfl, ht, hnc⟩ := hsup
    · simp [comma, hcont]
    · have hlast := lastIdx_and (lastOpen_mid _ _ _ _ hU) hmid hcont
      simp only [comma, ht, Option.any_some, hnc, hlast, Bool.false_eq_true, if_false]
  have h := hbyte ⟨pos, sup, b ++ ⟨type, o, -1, k⟩ :: U, n⟩
  rw [hcomma] at h
  exact resume_byte (by decide) h rfl

theorem supBound_mid (b U : List Tok) (t : Tok) : SupBound (some b.length) (b ++ t :: U) := by
  intro i hi
  cases hi
  simp

theorem supAfter_mid {b U : List Tok} {type : Kind} {o k : Nat} (v : Json) (hU : Closed U) :
    supAfter v (some b.length) (b ++ ⟨type, o, -1, k⟩ :: U) = some b.length := by
  simp [supAfter, lastOpen_mid _ _ _ _ hU]

theorem closed_append {U V : List Tok} (hU : Closed U) (hV : Closed V) : Closed (U ++ V) :=
  fun t ht => (List.mem_append.mp ht).elim (hU t) (hV t)

/-- A bracketed body: what reading the body does to the freshly opened token
is all that has to be known about it. -/
theorem resume_brackets {numTokens pos : Nat} {sup : Option Nat} {T U : List Tok} {n k : Nat}
    {c c' : UInt8} {type : Kind} {body rest : Text}
    (hc : c = ch '\x7b' ∧ type = .object ∨ c = ch '[' ∧ type = .array)
    (hc' : c' = ch '\x7d' ∧ type = .object ∨ c' = ch ']' ∧ type = .array)
    (hcap : T.length < numTokens) (hsup : SupBound sup T) (hU : Closed U)
    (hbody : ∃ sup', resume numTokens ⟨pos + 1, some (bumpAt sup T).length,
        bumpAt sup T ++ [⟨type, pos, -1, 0⟩], n + 1⟩ (body ++ c' :: rest) =
      resume numTokens ⟨pos + 1 + body.length, sup', bumpAt sup T ++ ⟨type, pos, -1, k⟩ :: U,
        n + 1 + U.length⟩ (c' :: rest)) :
    resume numTokens ⟨pos, sup, T, n⟩ (c :: (body ++ [c']) ++ rest) =
      resume numTokens ⟨pos + (body.length + 2), lastIdx Tok.isOpen T,
        bumpAt sup T ++ ⟨type, pos, pos + body.length + 2, k⟩ :: U, n + (U.length + 1)⟩ rest := by
  obtain ⟨sup', hbody⟩ := hbody
  have ho := resume_open numTokens pos n (body ++ c' :: rest) hc hcap hsup
  have hclose := resume_close numTokens (pos + 1 + body.length) pos k (n + 1 + U.length) sup'
    (bumpAt sup T) rest hc' hU
  have htext : c :: (body ++ [c']) ++ rest = c :: (body ++ c' :: rest) := by simp
  have hstop : ((pos + 1 + body.length : Nat) : Int) + 1 = pos + body.length + 2 := by omega
  have hpos : pos + 1 + body.length + 1 = pos + (body.length + 2) := by omega
  have hn : n + 1 + U.length = n + (U.length + 1) := by omega
  rw [bumpAt_length] at hbody
  rw [lastOpen_bumpAt, hstop, hpos] at hclose
  rw [htext, ho, hbody, hclose, hn]

theorem Elems.render_cons (v w : Json) (es : Elems) :
    (Elems.cons v (.cons w es)).render = v.render ++ ch ',' :: (Elems.cons w es).render := rfl

theorem Elems.toks_cons (off : Nat) (v : Json) (es : Elems) :
    (Elems.cons v es).toks off = v.toks off ++ es.toks (off + v.render.length + 1) := rfl

theorem Members.toks_cons (off : Nat) (k : Text) (v : Json) (ms : Members) :
    (Members.cons k v ms).toks off = ⟨.string, off + 1, off + 1 + k.length, 1⟩ ::
      (v.toks (off + k.length + 3) ++ ms.toks (off + k.length + v.render.length + 4)) := rfl

theorem Members.render_cons (k k' : Text) (v w : Json) (ms : Members) :
    (Members.cons k v (.cons k' w ms)).render =
      quoted k ++ ch ':' :: (v.render ++ ch ',' :: (Members.cons k' w ms).render) := rfl

/-- Reading the text of a value appends its tokens, counts it as a child of
the superior token and stops right behind it. -/
def Reads (numTokens : Nat) (v : Json) : Prop :=
  ∀ (pos : Nat) (sup : Option Nat) (T : List Tok) (n : Nat) (rest : Text),
    T.length + (v.toks pos).length ≤ numTokens → SupBound sup T → Stops rest →
    resume numTokens ⟨pos, sup, T, n⟩ (v.render ++ rest) =
      resume numTokens ⟨pos + v.render.length, supAfter v sup T, bumpAt sup T ++ v.toks pos,
        n + (v.toks pos).length⟩ rest

def memberToks (pos : Nat) (key : Text) (v : Json) : List Tok :=
  ⟨.string, pos + 1, pos + 1 + key.length, 1⟩ :: v.toks (pos + key.length + 3)

theorem memberToks_closed (pos : Nat) (key : Text) (v : Json) : Closed (memberToks pos key v) := by
  intro t ht
  obtain rfl | ht := List.mem_cons.mp ht
  · simp [Tok.isOpen]
    omega
  · exact Json.toks_closed v _ t ht

/-- After a member the superior token is the object again or still the key;
the next comma makes it the object. -/
theorem resume_member {numTokens : Nat} {v : Json} (hv : Reads numTokens v) (pos o k n : Nat)
    (b : List Tok) {U : List Tok} {key : Text} (hkey : Plain key) (hU : Closed U)
    (hcap : b.length + (U.length + 1) + (memberToks pos key v).length ≤ numTokens) :
    ∃ sup, (sup = some b.length ∨ ∃ s t, sup = some s ∧
        (b ++ ⟨.object, (o : Int), -1, k + 1⟩ :: (U ++ memberToks pos key v))[s]? = some t ∧
          t.isContainer = false) ∧
      ∀ rest, Stops rest →
        resume numTokens ⟨pos, some b.length, b ++ ⟨.object, o, -1, k⟩ :: U, n⟩
            (quoted key ++ ch ':' :: (v.render ++ rest)) =
          resume numTokens ⟨pos + key.length + 3 + v.render.length, sup,
            b ++ ⟨.object, o, -1, k + 1⟩ :: (U ++ memberToks pos key v),
            n + (memberToks pos key v).length⟩ rest := by
  simp only [memberToks, List.length_cons] at hcap
  let B := b ++ ⟨.object, (o : Int), -1, k + 1⟩ :: U
  let kt : Tok := ⟨.string, pos + 1, pos + 1 + key.length, 0⟩
  have hlast : lastIdx Tok.isOpen (B ++ [kt]) = some b.length := by
    have hkt : Closed (U ++ [kt]) := by
      refine closed_append hU fun t ht => ?_
      rw [List.mem_singleton.mp ht]
      simp [Tok.isOpen, kt]
      omega
    simpa [B] using lastOpen_mid b .object o (k + 1) hkt
  refine ⟨supAfter v (some B.length) (B ++ [kt]), ?_, fun rest hrest => ?_⟩
  · by_cases hc : v.isContainer = true
    · left
      rw [supAfter, if_pos hc, hlast]
    · right
      refine ⟨B.length, ⟨.string, pos + 1, pos + 1 + key.length, 1⟩, by rw [supAfter, if_neg hc],
        ?_, rfl⟩
      have hassoc : b ++ ⟨.object, (o : Int), -1, k + 1⟩ :: (U ++ memberToks pos key v) =
          B ++ memberToks pos key v := by simp [B]
      rw [hassoc, List.getElem?_append_right (Nat.le_refl _), Nat.sub_self]
      rfl
  · have hk := resume_str numTokens pos (some b.length) (b ++ ⟨.object, o, -1, k⟩ :: U) n key
      (ch ':' :: (v.render ++ rest)) hkey (by simp; omega) (supBound_mid b U _)
    have hcolon := resume_colon numTokens (pos + key.length + 2) (some b.length) B kt (n + 1)
      (v.render ++ rest)
    have hval := hv (pos + key.length + 3) (some B.length) (B ++ [kt]) (n + 1) rest
      (by simp [B]; omega) (supBound_mid B [] kt) hrest
    have hn : n + 1 + (v.toks (pos + key.length + 3)).length =
        n + (memberToks pos key v).length := by
      simp only [memberToks, List.length_cons]
      omega
    rw [bumpAt_mid] at hk hval
    rw [hk.trans (hcolon.trans hval), hn]
    simp [B, memberToks]

mutual

theorem Json.resume_render (v : Json) (hv : v.WF) (numTokens : Nat) : Reads numTokens v := by
  intro pos sup T n rest hcap hsup hrest
  cases v with
  | prim t => exact resume_prim numTokens pos sup T n t rest hv hcap hsup hrest
  | str t =>
    have h := resume_str numTokens pos sup T n t rest hv hcap hsup
    have hpos : pos + t.length + 2 = pos + (quoted t).length := by
      rw [quoted_length]
      omega
    rw [hpos] at h
    exact h
  | arr es =>
    simp only [Json.toks, List.length_cons] at hcap
    have hbody := Elems.resume_render es hv numTokens (pos + 1) (bumpAt sup T) [] pos 0 (n + 1)
      rest (by simp [Closed]) (by simp; omega)
    rw [Nat.zero_add, List.nil_append] at hbody
    have h := resume_brackets (Or.inr ⟨rfl, rfl⟩) (Or.inr ⟨rfl, rfl⟩) (by omega) hsup
      (Elems.toks_closed es (pos + 1)) ⟨_, hbody⟩
    simpa [Json.render, Json.toks, supAfter, Json.isContainer] using h
  | obj ms =>
    simp only [Json.toks, List.length_cons] at hcap
    have hbody := Members.resume_render ms hv numTokens (pos + 1) (bumpAt sup T) [] pos 0 (n + 1)
      rest (by simp [Closed]) (by simp; omega)
    rw [Nat.zero_add, List.nil_append] at hbody
    have h := resume_brackets (Or.inl ⟨rfl, rfl⟩) (Or.inl ⟨rfl, rfl⟩) (by omega) hsup
      (Members.toks_closed ms (pos + 1)) hbody
    simpa [Json.render, Json.toks, supAfter, Json.isContainer] using h

theorem Elems.resume_render (es : Elems) (hes : es.WF) (numTokens pos : Nat) (b U : List Tok)
    (o k n : Nat) (rest : Text) (hU : Closed U)
    (hcap : (b ++ ⟨.array, (o : Int), -1, k⟩ :: U).length + (es.toks pos).length ≤ numTokens) :
    resume numTokens ⟨pos, some b.length, b ++ ⟨.array, o, -1, k⟩ :: U, n⟩
        (es.render ++ ch ']' :: rest) =
      resume numTokens ⟨pos + es.render.length, some b.length,
        b ++ ⟨.array, o, -1, k + es.length⟩ :: (U ++ es.toks pos), n + (es.toks pos).length⟩
        (ch ']' :: rest) := by
  cases es with
  | nil => simp [Elems.render, Elems.toks, Elems.length]
  | cons v es =>
    simp only [Elems.toks, List.length_append] at hcap
    have hv := fun rest' hrest' => Json.resume_render v hes.1 numTokens pos (some b.length)
      (b ++ ⟨.array, o, -1, k⟩ :: U) n rest' (by simp only [List.length_append]; omega)
      (supBound_mid b U _) hrest'
    rw [bumpAt_mid, supAfter_mid v hU, List.append_assoc, List.cons_append] at hv
    have hUv : Closed (U ++ v.toks pos) := closed_append hU (Json.toks_closed v pos)
    have hrec := Elems.resume_render es hes.2 numTokens (pos + v.render.length + 1) b
      (U ++ v.toks pos) o (k + 1) (n + (v.toks pos).length) rest hUv (by simp at hcap ⊢; omega)
    cases es with
    | nil =>
      have h := hv (ch ']' :: rest) rfl
      simpa [Elems.render, Elems.toks, Elems.length] using h
    | cons w es =>
      have h := hv (ch ',' :: ((Elems.cons w es).render ++ ch ']' :: rest)) rfl
      have hcomma := resume_comma numTokens (pos + v.render.length) o (k + 1)
        (n + (v.toks pos).length) b ((Elems.cons w es).render ++ ch ']' :: rest) (Or.inl rfl) hUv
        (Or.inl rfl)
      have hlen : k + 1 + (Elems.cons w es).length = k + (Elems.cons v (.cons w es)).length := by
        simp only [Elems.length]
        omega
      have hpos : pos + v.render.length + 1 + (Elems.cons w es).render.length =
          pos + (Elems.cons v (.cons w es)).render.length := by
        rw [Elems.render_cons v w es, List.length_append, List.length_cons]
        omega
      have htoks : n + (v.toks pos).length +
          ((Elems.cons w es).toks (pos + v.render.length + 1)).length =
          n + ((Elems.cons v (.cons w es)).toks pos).length := by
        rw [Elems.toks_cons pos v (.cons w es), List.length_append]
        omega
      rw [hlen, hpos, htoks, List.append_assoc U, ← Elems.toks_cons pos v (.cons w es)] at hrec
      rw [← hrec, ← hcomma, ← h, Elems.render_cons v w es, List.append_assoc, List.cons_append]

theorem Members.resume_render (ms : Members) (hms : ms.WF) (numTokens pos : Nat) (b U : List Tok)
    (o k n : Nat) (rest : Text) (hU : Closed U)
    (hcap : (b ++ ⟨.object, (o : Int), -1, k⟩ :: U).length + (ms.toks pos).length ≤ numTokens) :
    ∃ sup, resume numTokens ⟨pos, some b.length, b ++ ⟨.object, o, -1, k⟩ :: U, n⟩
        (ms.render ++ ch '\x7d' :: rest) =
      resume numTokens ⟨pos + ms.render.length, sup,
        b ++ ⟨.object, o, -1, k + ms.length⟩ :: (U ++ ms.toks pos), n + (ms.toks pos).length⟩
        (ch '\x7d' :: rest) := by
  cases ms with
  | nil => exact ⟨some b.length, by simp [Members.render, Members.toks, Members.length]⟩
  | cons key v ms =>
    obtain ⟨hkey, hv, hms⟩ := hms
    have htoks : (Members.cons key v ms).toks pos =
        memberToks pos key v ++ ms.toks (pos + key.length + v.render.length + 4) := rfl
    rw [htoks, List.length_append, List.length_append, List.length_cons] at hcap
    obtain ⟨sup, hsup, hmember⟩ := resume_member (Json.resume_render v hv numTokens) pos o k n b
      hkey hU (by omega)
    have hUm := closed_append hU (memberToks_closed pos key v)
    obtain ⟨sup', hrec⟩ := Members.resume_render ms hms numTokens
      (pos + key.length + v.render.length + 4) b (U ++ memberToks pos key v) o (k + 1)
      (n + (memberToks pos key v).length) rest hUm (by simp; omega)
    cases ms with
    | nil =>
      refine ⟨sup, ?_⟩
      have h := hmember (ch '\x7d' :: rest) rfl
      have hpos : pos + key.length + 3 + v.render.length =
          pos + (Members.cons key v .nil).render.length := by
        simp only [Members.render, List.length_append, List.length_cons, quoted_length]
        omega
      rw [hpos] at h
      simpa [Members.render, Members.toks, Members.length, memberToks] using h
    | cons key' w ms =>
      refine ⟨sup', ?_⟩
      have h := hmember (ch ',' :: ((Members.cons key' w ms).render ++ ch '\x7d' :: rest)) rfl
      have hcomma := resume_comma numTokens (pos + key.length + 3 + v.render.length) o (k + 1)
        (n + (memberToks pos key v).length) b
        ((Members.cons key' w ms).render ++ ch '\x7d' :: rest) (Or.inr rfl) hUm hsup
      have hnext : pos + key.length + 3 + v.render.length + 1 =
          pos + key.length + v.render.length + 4 := by omega
      have hlen : k + 1 + (Members.cons key' w ms).length =
          k + (Members.cons key v (.cons key' w ms)).length := by
        simp only [Members.length]
        omega
      have hpos : pos + key.length + v.render.length + 4 +
          (Members.cons key' w ms).render.length =
          pos + (Members.cons key v (.cons key' w ms)).render.length := by
        rw [Members.render_cons key key' v w ms, List.length_append, List.length_cons,
          List.length_append, List.length_cons, quoted_length]
        omega
      have hn : n + (memberToks pos key v).length +
          ((Members.cons key' w ms).toks (pos + key.length + v.render.length + 4)).length =
          n + ((Members.cons key v (.cons key' w ms)).toks pos).length := by
        rw [htoks, List.length_append]
        omega
      rw [hnext] at hcomma
      rw [hlen, hpos, hn, List.append_assoc U, ← htoks] at hrec
      rw [← hrec, ← hcomma, ← h, Members.render_cons key key' v w ms]
      simp

end

end PopcornFirmware.Packet.JsmnRender
