import Lalr.Text.Lines

/-!
# Lalr.Text.Utf8

Bytes as text.  Bytes are decoded one after the other; between two of them a character may be
unfinished.  A file is decoded in blocks, so what precedes a malformed block can be read before the
fault shows.
-/

namespace Lalr.Text.Utf8

/-- A character whose first bytes have been read: their value, the number of bytes that are missing,
and the range that the next one must be in. -/
structure Unfinished where
  value : Nat
  missing : Nat
  low : Nat
  high : Nat
deriving DecidableEq, Repr

/-- A position between two bytes: inside a character or not. -/
abbrev Position := Option Unfinished

/-- The character that a byte of more than seven bits begins.  The second byte is bounded so that no
character has two spellings and none is too large. -/
def begin? (b : Nat) : Option Unfinished :=
  if b < 0xc2 then none
  else if b ≤ 0xdf then some ⟨b - 0xc0, 1, 0x80, 0xbf⟩
  else if b ≤ 0xef then some ⟨b - 0xe0, 2, if b = 0xe0 then 0xa0 else 0x80, 0xbf⟩
  else if b ≤ 0xf4 then
    some ⟨b - 0xf0, 3, if b = 0xf0 then 0x90 else 0x80, if b = 0xf4 then 0x8f else 0xbf⟩
  else none

/-- Whether a value with one byte missing is that of a surrogate, which no byte can finish. -/
def isSurrogate (value : Nat) : Bool := 0x360 ≤ value && value ≤ 0x37f

/-- Read one byte: the character that it finishes, if any, and the position behind it. -/
def step (p : Position) (b : Nat) : Option (Option Char × Position) :=
  match p with
  | none =>
    if b < 0x80 then some (some (Char.ofNat b), none)
    else (begin? b).map fun u => (none, some u)
  | some u =>
    if b < u.low || u.high < b then none
    else
      let value := u.value * 64 + (b - 0x80)
      if u.missing ≤ 1 then some (some (Char.ofNat value), none)
      else some (none, some ⟨value, u.missing - 1, if isSurrogate value then 0x100 else 0x80, 0xbf⟩)

/-- Decode bytes from a position on: the characters, and the position behind them.  Nothing comes
back if the bytes are malformed. -/
def decodeFrom (p : Position) : List UInt8 → Option (List Char × Position)
  | [] => some ([], p)
  | b :: bs => do
    let (c?, p) ← step p b.toNat
    let (cs, p) ← decodeFrom p bs
    return (c?.toList ++ cs, p)

/-- Decode bytes.  Nothing comes back if they are malformed or end inside a character. -/
def decode (bytes : List UInt8) : Option (List Char) :=
  match decodeFrom none bytes with
  | some (cs, none) => some cs
  | _ => none

/-- The bytes of a text. -/
def encode (cs : List Char) : List UInt8 := (String.ofList cs).toUTF8.data.toList

/-! ## files -/

/-- The number of bytes that are decoded at a time. -/
def blockSize : Nat := 8192

/-- Cut bytes into blocks. -/
def blocks (bytes : List UInt8) : List (List UInt8) :=
  match bytes with
  | [] => []
  | b :: bs => (b :: bs.take (blockSize - 1)) :: blocks (bs.drop (blockSize - 1))
termination_by bytes.length
decreasing_by simp only [List.length_drop, List.length_cons]; omega

/-- The characters that can be read of blocks, and whether that is all of them. -/
def decodeBlocks (p : Position) : List (List UInt8) → List Char × Bool
  | [] => ([], p.isNone)
  | block :: rest =>
    match decodeFrom p block with
    | none => ([], false)
    | some (cs, p) =>
      let (more, whole) := decodeBlocks p rest
      (cs ++ more, whole)

/-- The text of a file with plain newlines, as far as it can be read, and whether that is all of it.
A return that a fault follows is never seen, for what comes after it decides what it is. -/
def readable (bytes : List UInt8) : List Char × Bool :=
  let (cs, whole) := decodeBlocks none (blocks bytes)
  let cs := if !whole && cs.getLast? = some '\r' then cs.dropLast else cs
  (plainNewlines cs, whole)

end Lalr.Text.Utf8
