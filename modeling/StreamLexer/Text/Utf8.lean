/-!
# UTF-8

A character is encoded in a group of one to four bytes. The high bits of the first byte announce
the length of the group; whether the group encodes a character is decided once all of it is known.
Overlong forms, surrogates and values above `U+10FFFF` are refused by the range of the second byte.
-/

set_option autoImplicit false

namespace StreamLexer.Utf8

/-- The length of the group that `lead` announces, by its high bits alone. -/
def groupLength? (lead : UInt8) : Option Nat :=
  let b := lead.toNat
  if b < 0x80 then some 1
  else if b < 0xC0 then none
  else if b < 0xE0 then some 2
  else if b < 0xF0 then some 3
  else if b < 0xF8 then some 4
  else none

/-- The six payload bits of a byte that continues a group. -/
def payload (b : UInt8) : Nat :=
  b.toNat % 0x40

def continues (b : UInt8) : Bool :=
  0x80 ≤ b.toNat && b.toNat ≤ 0xBF

/-- The least and the greatest second byte of a character that starts with `lead`. -/
def secondRange (lead : UInt8) : Nat × Nat :=
  match lead.toNat with
  | 0xE0 => (0xA0, 0xBF)
  | 0xED => (0x80, 0x9F)
  | 0xF0 => (0x90, 0xBF)
  | 0xF4 => (0x80, 0x8F)
  | _ => (0x80, 0xBF)

/-- Whether some character starts with these two bytes. -/
def opens (lead second : UInt8) : Bool :=
  0xC2 ≤ lead.toNat && lead.toNat ≤ 0xF4 &&
    (secondRange lead).1 ≤ second.toNat && second.toNat ≤ (secondRange lead).2

/-- The character that a complete group encodes. An ill-formed group gives the length of its
longest prefix with which some character starts, or one if there is none. -/
def decodeGroup (lead : UInt8) (tail : List UInt8) : Except Nat Char :=
  match tail with
  | [] => if lead.toNat < 0x80 then .ok (Char.ofNat lead.toNat) else .error 1
  | [b] =>
    if opens lead b then .ok (Char.ofNat (lead.toNat % 0x20 * 0x40 + payload b)) else .error 1
  | [b, c] =>
    if !opens lead b then .error 1
    else if !continues c then .error 2
    else .ok (Char.ofNat ((lead.toNat % 0x10 * 0x40 + payload b) * 0x40 + payload c))
  | b :: c :: d :: _ =>
    if !opens lead b then .error 1
    else if !continues c then .error 2
    else if !continues d then .error 3
    else .ok (Char.ofNat
      (((lead.toNat % 0x08 * 0x40 + payload b) * 0x40 + payload c) * 0x40 + payload d))

def decode? (bytes : List UInt8) : Option (List Char) :=
  match bytes with
  | [] => some []
  | lead :: rest =>
    match groupLength? lead with
    | none => none
    | some length =>
      if rest.length < length - 1 then none
      else
        match decodeGroup lead (rest.take (length - 1)) with
        | .error _ => none
        | .ok c => (decode? (rest.drop (length - 1))).map (c :: ·)
termination_by bytes.length
decreasing_by
  simp only [List.length_drop, List.length_cons]
  omega

def encode (text : List Char) : List UInt8 :=
  text.flatMap String.utf8EncodeChar

end StreamLexer.Utf8
