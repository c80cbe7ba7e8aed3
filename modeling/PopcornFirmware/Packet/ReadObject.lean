import PopcornFirmware.Packet.JsmnRender

namespace PopcornFirmware.Packet.ReadObject

open PopcornFirmware.Lib.CText PopcornFirmware.Packet.Jsmn PopcornFirmware.Packet.Tree
open PopcornFirmware.Packet.JsmnRender

/-- Step over that many values in a list of tokens: a token stands for itself
and is followed by its size many values. -/
def skip : Nat → List Tok → Option (List Tok)
  | 0, ts => some ts
  | _ + 1, [] => none
  | n + 1, t :: ts => skip (n + t.size) ts

mutual

theorem Json.skip_toks (v : Json) (off n : Nat) (ts : List Tok) :
    skip (n + 1) (v.toks off ++ ts) = skip n ts := by
  cases v with
  | prim t => simp [Json.toks, skip]
  | str t => simp [Json.toks, skip]
  | arr es =>
    simp only [Json.toks, List.cons_append, skip]
    exact Elems.skip_toks es _ n ts
  | obj ms =>
    simp only [Json.toks, List.cons_append, skip]
    exact Members.skip_toks ms _ n ts

theorem Elems.skip_toks (es : Elems) (off n : Nat) (ts : List Tok) :
    skip (n + es.length) (es.toks off ++ ts) = skip n ts := by
  cases es with
  | nil => simp [Elems.toks, Elems.length]
  | cons v es =>
    simp only [Elems.toks, Elems.length, List.append_assoc]
    rw [← Nat.add_assoc, Json.skip_toks v, Elems.skip_toks es]

theorem Members.skip_toks (ms : Members) (off n : Nat) (ts : List Tok) :
    skip (n + ms.length) (ms.toks off ++ ts) = skip n ts := by
  cases ms with
  | nil => simp [Members.toks, Members.length]
  | cons k v ms =>
    simp only [Members.toks, Members.length, List.cons_append, List.append_assoc]
    rw [← Nat.add_assoc, skip, Json.skip_toks v, Members.skip_toks ms]

end

def tokText (js : Text) (t : Tok) : Text := (js.drop t.start.toNat).take (t.stop - t.start).toNat

/-- The members of an object of the given size: the text of each key and of
its value, none when a key is not a string with exactly one value. -/
def membersOf (js : Text) : Nat → List Tok → Option (List (Text × Text))
  | 0, [] => some []
  | n + 1, k :: v :: ts =>
    if k.type = .string ∧ k.size = 1 then
      (skip v.size ts).bind fun rest =>
        (membersOf js n rest).map fun ms => (tokText js k, tokText js v) :: ms
    else none
  | _, _ => none

/-- Run jsmn_parse on a text and read the tokens as one object. -/
def readObject (numTokens : Nat) (js : Text) : Option (List (Text × Text)) :=
  match jsmnParse numTokens jsmnInit js with
  | .error _ => none
  | .ok p =>
    match p.tokens with
    | [] => none
    | root :: ts => if root.type = .object then membersOf js root.size ts else none

def At (js : Text) (off : Nat) (t : Text) : Prop :=
  ∃ pre post, js = pre ++ (t ++ post) ∧ pre.length = off

theorem At.append {js : Text} {off : Nat} {s t : Text} (h : At js off (s ++ t)) :
    At js off s ∧ At js (off + s.length) t := by
  obtain ⟨pre, post, rfl, rfl⟩ := h
  exact ⟨⟨pre, t ++ post, by simp, rfl⟩, ⟨pre ++ s, post, by simp, by simp⟩⟩

theorem At.cons {js : Text} {off : Nat} {c : UInt8} {t : Text} (h : At js off (c :: t)) :
    At js (off + 1) t := (At.append (s := [c]) h).2

theorem At.quoted {js : Text} {off : Nat} {t : Text} (h : At js off (quoted t)) :
    At js (off + 1) t := (At.append h.cons).1

theorem tokText_of_at {js t : Text} {tok : Tok} {off : Nat} (h : At js off t)
    (hstart : tok.start = off) (hstop : tok.stop = off + t.length) : tokText js tok = t := by
  obtain ⟨pre, post, rfl, rfl⟩ := h
  have hlen : (tok.stop - tok.start).toNat = t.length := by omega
  rw [tokText, hlen, hstart]
  simp

theorem toks_head (v : Json) (off : Nat) {js : Text} (h : At js off v.render) :
    ∃ t ts, v.toks off = t :: ts ∧ tokText js t = v.inner := by
  cases v with
  | prim t => exact ⟨_, _, rfl, tokText_of_at h rfl rfl⟩
  | str t => exact ⟨_, _, rfl, tokText_of_at (At.quoted h) (by simp) (by simp [Json.inner])⟩
  | arr es =>
    refine ⟨_, _, rfl, tokText_of_at h rfl ?_⟩
    simp [Json.inner, Json.render]
    omega
  | obj ms =>
    refine ⟨_, _, rfl, tokText_of_at h rfl ?_⟩
    simp [Json.inner, Json.render]
    omega

/-- The text of the first member, and that of the others behind the comma. -/
theorem at_member {js : Text} {off : Nat} {k : Text} {v : Json} {ms : Members}
    (h : At js off (Members.cons k v ms).render) :
    At js off (quoted k ++ ch ':' :: v.render) ∧
      (ms = .nil ∨ At js (off + k.length + v.render.length + 4) ms.render) := by
  cases ms with
  | nil => exact ⟨h, Or.inl rfl⟩
  | cons k' w ms =>
    have hsplit : (Members.cons k v (.cons k' w ms)).render =
        (quoted k ++ ch ':' :: v.render) ++ ch ',' :: (Members.cons k' w ms).render := by
      simp [Members.render]
    rw [hsplit] at h
    have hoff : off + (quoted k ++ ch ':' :: v.render).length + 1 =
        off + k.length + v.render.length + 4 := by
      simp only [List.length_append, List.length_cons, quoted_length]
      omega
    exact ⟨h.append.1, Or.inr (hoff ▸ h.append.2.cons)⟩

theorem tokText_key {js : Text} {off : Nat} {k : Text} {v : Json} {ms : Members}
    (h : At js off (Members.cons k v ms).render) :
    tokText js ⟨.string, off + 1, off + 1 + k.length, 1⟩ = k :=
  tokText_of_at (at_member h).1.append.1.quoted (by simp) (by simp)

theorem membersOf_toks (ms : Members) (js : Text) (off : Nat) (h : At js off ms.render) :
    membersOf js ms.length (ms.toks off) = some ms.texts := by
  cases ms with
  | nil => rfl
  | cons k v ms =>
    have hkey := tokText_key h
    obtain ⟨hm, hms⟩ := at_member h
    have hval : At js (off + k.length + 3) v.render := by
      have hoff : off + (quoted k).length + 1 = off + k.length + 3 := by
        rw [quoted_length]
        omega
      exact hoff ▸ hm.append.2.cons
    obtain ⟨t, ts, htoks, htext⟩ := toks_head v _ hval
    have hskip := Json.skip_toks v (off + k.length + 3) 0
      (ms.toks (off + k.length + v.render.length + 4))
    rw [htoks] at hskip
    simp only [List.cons_append, skip, Nat.zero_add] at hskip
    have hrec : membersOf js ms.length (ms.toks (off + k.length + v.render.length + 4)) =
        some ms.texts := by
      obtain rfl | hms := hms
      · rfl
      · exact membersOf_toks ms js _ hms
    simp [Members.length, Members.toks, htoks, membersOf, hskip, hrec, Members.texts, hkey, htext]

/-- jsmn_parse accepts the text of every value and finds exactly its tokens. -/
theorem jsmnParse_render (v : Json) (hv : v.WF) (numTokens : Nat)
    (hcap : (v.toks 0).length ≤ numTokens) :
    jsmnParse numTokens jsmnInit v.render =
      .ok ⟨v.render.length, none, v.toks 0, (v.toks 0).length⟩ := by
  have h := Json.resume_render v hv numTokens 0 none [] 0 [] (by simpa using hcap)
    (fun i hi => by cases hi) trivial
  have hsup : supAfter v none [] = none := by
    unfold supAfter
    split <;> rfl
  have hclosed : (v.toks 0).any Tok.isOpen = false := by
    simpa using Json.toks_closed v 0
  rw [List.append_nil, hsup] at h
  simp only [Nat.zero_add, bumpAt, List.nil_append] at h
  change (parseLoop numTokens 0 ⟨0, none, [], 0⟩ v.render).bind _ = _
  change parseLoop numTokens 0 ⟨0, none, [], 0⟩ v.render = _ at h
  rw [h]
  simp [resume, parseLoop, Except.bind, hclosed]

theorem readObject_render (ms : Members) (hms : ms.WF) (numTokens : Nat)
    (hcap : ((Json.obj ms).toks 0).length ≤ numTokens) :
    readObject numTokens (Json.obj ms).render = some ms.texts := by
  have h := jsmnParse_render (.obj ms) hms numTokens hcap
  have hat : At (Json.obj ms).render 1 ms.render :=
    ⟨[ch '\x7b'], [ch '\x7d'], by simp [Json.render], rfl⟩
  simp [readObject, h, Json.toks, membersOf_toks ms _ 1 hat]

end PopcornFirmware.Packet.ReadObject
