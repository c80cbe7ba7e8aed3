import PopcornFirmware.Packet.Jsmn

namespace PopcornFirmware.Packet.Tree

open PopcornFirmware.Lib.CText PopcornFirmware.Packet.Jsmn

mutual

/-- A JSON value; strings and keys hold the bytes between their quotes. -/
inductive Json where
  | prim (t : Text)
  | str (t : Text)
  | arr (es : Elems)
  | obj (ms : Members)

inductive Elems where
  | nil
  | cons (v : Json) (es : Elems)

inductive Members where
  | nil
  | cons (k : Text) (v : Json) (ms : Members)

end

def Elems.length : Elems → Nat
  | .nil => 0
  | .cons _ es => es.length + 1

def Members.length : Members → Nat
  | .nil => 0
  | .cons _ _ ms => ms.length + 1

def quoted (t : Text) : Text := ch '"' :: (t ++ [ch '"'])

mutual

/-- The text of a value without any white space. -/
def Json.render : Json → Text
  | .prim t => t
  | .str t => quoted t
  | .arr es => ch '[' :: (es.render ++ [ch ']'])
  | .obj ms => ch '\x7b' :: (ms.render ++ [ch '\x7d'])

def Elems.render : Elems → Text
  | .nil => []
  | .cons v .nil => v.render
  | .cons v es => v.render ++ ch ',' :: es.render

def Members.render : Members → Text
  | .nil => []
  | .cons k v .nil => quoted k ++ ch ':' :: v.render
  | .cons k v ms => quoted k ++ ch ':' :: (v.render ++ ch ',' :: ms.render)

end

mutual

/-- The tokens of a value whose text starts at the given offset. -/
def Json.toks : Nat → Json → List Tok
  | off, .prim t => [⟨.primitive, off, off + t.length, 0⟩]
  | off, .str t => [⟨.string, off + 1, off + 1 + t.length, 0⟩]
  | off, .arr es => ⟨.array, off, off + es.render.length + 2, es.length⟩ :: es.toks (off + 1)
  | off, .obj ms => ⟨.object, off, off + ms.render.length + 2, ms.length⟩ :: ms.toks (off + 1)

def Elems.toks : Nat → Elems → List Tok
  | _, .nil => []
  | off, .cons v es => v.toks off ++ es.toks (off + v.render.length + 1)

def Members.toks : Nat → Members → List Tok
  | _, .nil => []
  | off, .cons k v ms =>
    ⟨.string, off + 1, off + 1 + k.length, 1⟩ ::
      (v.toks (off + k.length + 3) ++ ms.toks (off + k.length + v.render.length + 4))

end

/-- Bytes that may stand between quotes without being escaped. -/
def Plain (t : Text) : Prop := ∀ c ∈ t, c ≠ 0 ∧ c ≠ ch '"' ∧ c ≠ ch '\\'

instance : DecidablePred Plain := fun _ => inferInstanceAs (Decidable (∀ c ∈ _, _))

/-- Bytes of an unquoted value, none of which opens, closes or separates. -/
def Bare (t : Text) : Prop :=
  t ≠ [] ∧ ∀ c ∈ t, 32 < c ∧ c < 127 ∧
    c ≠ ch ':' ∧ c ≠ ch ',' ∧ c ≠ ch ']' ∧ c ≠ ch '\x7d' ∧ c ≠ ch '[' ∧ c ≠ ch '\x7b' ∧ c ≠ ch '"'

mutual

/-- Every string and primitive of the value is one that can be rendered as it
stands. -/
def Json.WF : Json → Prop
  | .prim t => Bare t
  | .str t => Plain t
  | .arr es => es.WF
  | .obj ms => ms.WF

def Elems.WF : Elems → Prop
  | .nil => True
  | .cons v es => v.WF ∧ es.WF

def Members.WF : Members → Prop
  | .nil => True
  | .cons k v ms => Plain k ∧ v.WF ∧ ms.WF

end

def Json.isContainer : Json → Bool
  | .arr _ | .obj _ => true
  | _ => false

/-- What a value's token spans: a string without its quotes. -/
def Json.inner : Json → Text
  | .str t => t
  | v => v.render

def Members.texts : Members → List (Text × Text)
  | .nil => []
  | .cons k v ms => (k, v.inner) :: ms.texts

mutual

theorem Json.toks_closed (v : Json) (off : Nat) : ∀ t ∈ v.toks off, t.isOpen = false := by
  cases v with
  | prim t => simp [Json.toks, Tok.isOpen]; omega
  | str t => simp [Json.toks, Tok.isOpen]; omega
  | arr es =>
    intro t ht
    obtain rfl | ht := List.mem_cons.mp ht
    · simp [Tok.isOpen]; omega
    · exact Elems.toks_closed es _ t ht
  | obj ms =>
    intro t ht
    obtain rfl | ht := List.mem_cons.mp ht
    · simp [Tok.isOpen]; omega
    · exact Members.toks_closed ms _ t ht

theorem Elems.toks_closed (es : Elems) (off : Nat) : ∀ t ∈ es.toks off, t.isOpen = false := by
  cases es with
  | nil => simp [Elems.toks]
  | cons v es =>
    intro t ht
    obtain ht | ht := List.mem_append.mp ht
    · exact Json.toks_closed v _ t ht
    · exact Elems.toks_closed es _ t ht

theorem Members.toks_closed (ms : Members) (off : Nat) : ∀ t ∈ ms.toks off, t.isOpen = false := by
  cases ms with
  | nil => simp [Members.toks]
  | cons k v ms =>
    intro t ht
    obtain rfl | ht := List.mem_cons.mp ht
    · simp [Tok.isOpen]; omega
    · obtain ht | ht := List.mem_append.mp ht
      · exact Json.toks_closed v _ t ht
      · exact Members.toks_closed ms _ t ht

end

theorem quoted_length (t : Text) : (quoted t).length = t.length + 2 := by
  simp [quoted]

end PopcornFirmware.Packet.Tree
