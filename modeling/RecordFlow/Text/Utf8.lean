/-!
# UTF-8

Bytes are read as UTF-8 one character at a time. `decode` gives the characters, or the number of
bytes before the first sequence that is not the encoding of a character; `encode` is the way back.
-/

namespace RecordFlow.Text

/-- A continuation byte within bounds. -/
def isTail (low high : Nat) (b : UInt8) : Bool := low ≤ b.toNat && b.toNat ≤ high

/-- The six bits that a continuation byte carries. -/
def tailBits (b : UInt8) : Nat := b.toNat % 64

/-- The first character of a byte sequence and the bytes after it, if it starts with the encoding
of one. -/
def decodeChar? : List UInt8 → Option (Char × List UInt8)
  | [] => none
  | a :: rest =>
    let n := a.toNat
    if n < 0x80 then some (Char.ofNat n, rest)
    else if 0xC2 ≤ n && n ≤ 0xDF then
      match rest with
      | b :: rest =>
        if isTail 0x80 0xBF b then some (Char.ofNat (n % 32 * 64 + tailBits b), rest) else none
      | _ => none
    else if 0xE0 ≤ n && n ≤ 0xEF then
      let low := if n = 0xE0 then 0xA0 else 0x80
      let high := if n = 0xED then 0x9F else 0xBF
      match rest with
      | b :: c :: rest =>
        if isTail low high b && isTail 0x80 0xBF c then
          some (Char.ofNat ((n % 16 * 64 + tailBits b) * 64 + tailBits c), rest)
        else none
      | _ => none
    else if 0xF0 ≤ n && n ≤ 0xF4 then
      let low := if n = 0xF0 then 0x90 else 0x80
      let high := if n = 0xF4 then 0x8F else 0xBF
      match rest with
      | b :: c :: d :: rest =>
        if isTail low high b && isTail 0x80 0xBF c && isTail 0x80 0xBF d then
          some (Char.ofNat (((n % 8 * 64 + tailBits b) * 64 + tailBits c) * 64 + tailBits d), rest)
        else none
      | _ => none
    else none

/-- The characters of at most `fuel` sequences, and the bytes that were not read. -/
def decodeFrom : Nat → List UInt8 → List Char × List UInt8
  | 0, bytes => ([], bytes)
  | fuel + 1, bytes =>
    match decodeChar? bytes with
    | none => ([], bytes)
    | some (c, rest) =>
      let (chars, left) := decodeFrom fuel rest
      (c :: chars, left)

/-- The characters that bytes encode, or the number of bytes before the first fault. -/
def decode (bytes : List UInt8) : Except Nat (List Char) :=
  match decodeFrom bytes.length bytes with
  | (chars, []) => .ok chars
  | (_, left) => .error (bytes.length - left.length)

/-- The bytes that encode a character. -/
def encodeChar (c : Char) : List UInt8 :=
  let n := c.toNat
  let lead (mark bits : Nat) : UInt8 := UInt8.ofNat (mark + bits)
  let tail (bits : Nat) : UInt8 := UInt8.ofNat (0x80 + bits % 64)
  if n < 0x80 then [UInt8.ofNat n]
  else if n < 0x800 then [lead 0xC0 (n / 64), tail n]
  else if n < 0x10000 then [lead 0xE0 (n / 4096), tail (n / 64), tail n]
  else [lead 0xF0 (n / 262144), tail (n / 4096), tail (n / 64), tail n]

/-- The bytes that encode a text. -/
def encode (text : List Char) : List UInt8 := text.flatMap encodeChar

end RecordFlow.Text
