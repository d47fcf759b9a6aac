/-!
# UTF-8

Texts are stored in files as UTF-8. A file that is no text is reported with the
place of its first fault; a reader that does not mind puts a replacement
character in the place of each faulty piece.

`decode` accepts exactly the bytes of a text, `decode_toUTF8`.
-/

namespace TemplateInventory.Text.Utf8

/-- Where bytes stop being text: `length` bytes at `index` fit no character, or
the bytes end inside a character when `length` is missing. -/
structure Fault where
  index : Nat
  length : Option Nat
  deriving DecidableEq, Repr

/-- The text of a fault. -/
def Fault.message (f : Fault) : String :=
  match f.length with
  | some n => s!"invalid utf-8 sequence of {n} bytes from index {f.index}"
  | none => s!"incomplete utf-8 byte sequence from index {f.index}"

/-- The ranges of the bytes that have to follow a first byte, or nothing when no
character starts with it. -/
def followers (b : UInt8) : Option (List (UInt8 × UInt8)) :=
  if b < 0x80 then some []
  else if b < 0xc2 then none
  else if b < 0xe0 then some [(0x80, 0xbf)]
  else if b == 0xe0 then some [(0xa0, 0xbf), (0x80, 0xbf)]
  else if b == 0xed then some [(0x80, 0x9f), (0x80, 0xbf)]
  else if b < 0xf0 then some [(0x80, 0xbf), (0x80, 0xbf)]
  else if b == 0xf0 then some [(0x90, 0xbf), (0x80, 0xbf), (0x80, 0xbf)]
  else if b < 0xf4 then some [(0x80, 0xbf), (0x80, 0xbf), (0x80, 0xbf)]
  else if b == 0xf4 then some [(0x80, 0x8f), (0x80, 0xbf), (0x80, 0xbf)]
  else none

/-- What bytes begin with. -/
inductive Piece where
  /-- A character of this many bytes with this code point. -/
  | character (length code : Nat)
  /-- This many bytes that fit no character. -/
  | wrong (length : Nat)
  /-- The start of a character whose end is missing. -/
  | cut

/-- Reads the bytes after a first byte; `taken` bytes are read and `code` is
what they amount to. -/
def followPiece (taken code : Nat) : List (UInt8 × UInt8) → List UInt8 → Piece
  | [], _ => .character taken code
  | _ :: _, [] => .cut
  | r :: rs, b :: bs =>
    if r.1 ≤ b && b ≤ r.2 then followPiece (taken + 1) (code * 64 + b.toNat % 64) rs bs
    else .wrong taken

/-- What the bytes after the first byte `b` make of it. -/
def pieceOf (b : UInt8) (bs : List UInt8) : Piece :=
  match followers b with
  | none => .wrong 1
  | some rs =>
    let payload := match rs.length with
      | 0 => b.toNat
      | 1 => b.toNat % 32
      | 2 => b.toNat % 16
      | _ => b.toNat % 8
    followPiece 1 payload rs bs

/-- The first fault of the bytes from `index` on; `skip` bytes belong to the
character before. -/
def faultFrom (index skip : Nat) : List UInt8 → Option Fault
  | [] => none
  | b :: bs =>
    match skip with
    | n + 1 => faultFrom (index + 1) n bs
    | 0 =>
      match pieceOf b bs with
      | .character n _ => faultFrom (index + 1) (n - 1) bs
      | .wrong n => some ⟨index, some n⟩
      | .cut => some ⟨index, none⟩

/-- The text that the bytes encode, or their first fault. -/
def decode (bytes : ByteArray) : Except Fault String :=
  match String.fromUTF8? bytes with
  | some s => .ok s
  | none => .error ((faultFrom 0 0 bytes.toList).getD ⟨0, none⟩)

/-- The characters of the bytes, a faulty piece giving one replacement
character; `skip` bytes belong to the piece before. -/
def decodeLossyFrom (skip : Nat) : List UInt8 → List Char
  | [] => []
  | b :: bs =>
    match skip with
    | n + 1 => decodeLossyFrom n bs
    | 0 =>
      match pieceOf b bs with
      | .character n code => Char.ofNat code :: decodeLossyFrom (n - 1) bs
      | .wrong n => '\ufffd' :: decodeLossyFrom (n - 1) bs
      | .cut => ['\ufffd']

/-- The text of the bytes with replacement characters for what is no text. -/
def decodeLossy (bytes : ByteArray) : String :=
  match String.fromUTF8? bytes with
  | some s => s
  | none => String.ofList (decodeLossyFrom 0 bytes.toList)

/-- The bytes without a byte order mark at their start. -/
def dropMark (bytes : ByteArray) : ByteArray :=
  match bytes.toList with
  | 0xef :: 0xbb :: 0xbf :: _ => bytes.extract 3 bytes.size
  | _ => bytes

theorem decode_toUTF8 (s : String) : decode s.toUTF8 = .ok s := by
  have h : String.fromUTF8? s.toUTF8 = some s := by
    simp [String.fromUTF8?, String.toUTF8, String.isValidUTF8, String.fromUTF8]
  rw [decode, h]

end TemplateInventory.Text.Utf8
