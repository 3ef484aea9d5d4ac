import Marginalia.Text.Basic

/-!
# UTF-8

Texts as octets and back. The decoder is a machine that reads one octet at a time. An ill-formed sequence
is noticed at the first octet that cannot continue it; the octets before that one count as one mistake,
and the machine starts again at the octet that was refused.
-/

namespace Marginalia

/-- A sequence of octets. -/
abbrev Bytes := List UInt8

/-- The octets of a text. -/
def Text.toUtf8 (t : Text) : Bytes := t.flatMap String.utf8EncodeChar

namespace Utf8

/-- A character that has been begun: octets still owed after the next one, bounds of the next octet, and
    the bits read so far. -/
structure Partial where
  owed : Nat
  low : Nat
  high : Nat
  bits : Nat
  deriving DecidableEq, Repr

/-- What one octet at the start of a character gives. -/
inductive First where
  | char (c : Char)
  | begun (p : Partial)
  | refused
  deriving DecidableEq, Repr

/-- The first octet of a character. -/
def first (b : Nat) : First :=
  if b ≤ 0x7f then .char (Char.ofNat b)
  else if 0xc2 ≤ b ∧ b ≤ 0xdf then .begun ⟨0, 0x80, 0xbf, b - 0xc0⟩
  else if b = 0xe0 then .begun ⟨1, 0xa0, 0xbf, 0⟩
  else if b = 0xed then .begun ⟨1, 0x80, 0x9f, 0xd⟩
  else if 0xe1 ≤ b ∧ b ≤ 0xef then .begun ⟨1, 0x80, 0xbf, b - 0xe0⟩
  else if b = 0xf0 then .begun ⟨2, 0x90, 0xbf, 0⟩
  else if 0xf1 ≤ b ∧ b ≤ 0xf3 then .begun ⟨2, 0x80, 0xbf, b - 0xf0⟩
  else if b = 0xf4 then .begun ⟨2, 0x80, 0x8f, 4⟩
  else .refused

/-- The characters of the octets after a begun character; `none` stands for one ill-formed sequence. -/
def decodeFrom : Option Partial → Bytes → List (Option Char)
  | none, [] => []
  | some _, [] => [none]
  | none, b :: bs =>
    match first b.toNat with
    | .char c => some c :: decodeFrom none bs
    | .begun p => decodeFrom (some p) bs
    | .refused => none :: decodeFrom none bs
  | some p, b :: bs =>
    if p.low ≤ b.toNat ∧ b.toNat ≤ p.high then
      let bits := p.bits * 64 + (b.toNat - 0x80)
      match p.owed with
      | 0 => some (Char.ofNat bits) :: decodeFrom none bs
      | owed + 1 => decodeFrom (some ⟨owed, 0x80, 0xbf, bits⟩) bs
    else none ::
      match first b.toNat with
      | .char c => some c :: decodeFrom none bs
      | .begun p => decodeFrom (some p) bs
      | .refused => none :: decodeFrom none bs

end Utf8

/-- The text written by octets, if they are well formed. -/
def Bytes.decode? (bs : Bytes) : Option Text := (Utf8.decodeFrom none bs).mapM id

/-- The text written by octets with U+FFFD for each ill-formed sequence. -/
def Bytes.decodeLossy (bs : Bytes) : Text :=
  (Utf8.decodeFrom none bs).map (·.getD '�')

/-- A text with each carriage return, alone or before a line feed, read as a line feed. -/
def Text.unifyNewlines : Text → Text
  | [] => []
  | '\r' :: '\n' :: t => '\n' :: unifyNewlines t
  | c :: t => (if c = '\r' then '\n' else c) :: unifyNewlines t

end Marginalia
