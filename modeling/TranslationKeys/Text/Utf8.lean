/-!
# UTF-8

Source positions count bytes of the UTF-8 encoding, so text is encoded before it is cut and the
pieces are decoded again. Bytes are kept as a list, which slices by `drop` and `take`. Decoding is
strict: overlong forms, surrogates and numbers past the last code point are refused.
-/

namespace TranslationKeys.Utf8

/-- The encoding of one character. -/
def encodeChar (c : Char) : List UInt8 :=
  let n := c.toNat
  if n < 0x80 then
    [UInt8.ofNat n]
  else if n < 0x800 then
    [UInt8.ofNat (0xC0 + n / 64), UInt8.ofNat (0x80 + n % 64)]
  else if n < 0x10000 then
    [UInt8.ofNat (0xE0 + n / 4096), UInt8.ofNat (0x80 + n / 64 % 64), UInt8.ofNat (0x80 + n % 64)]
  else
    [UInt8.ofNat (0xF0 + n / 262144), UInt8.ofNat (0x80 + n / 4096 % 64),
      UInt8.ofNat (0x80 + n / 64 % 64), UInt8.ofNat (0x80 + n % 64)]

/-- The encoding of a list of characters. -/
def encode (cs : List Char) : List UInt8 :=
  cs.flatMap encodeChar

/-- The encoding of a string. -/
def encodeString (s : String) : List UInt8 :=
  encode s.toList

/-- The six low bits of a byte that continues a character. -/
def continuation? (b : UInt8) : Option Nat :=
  if 0x80 ≤ b.toNat ∧ b.toNat < 0xC0 then some (b.toNat - 0x80) else none

/-- The character a number stands for, when `low` is the least number its encoded length may
carry. -/
def scalar? (low n : Nat) : Option Char :=
  if low ≤ n ∧ n.isValidChar then some (Char.ofNat n) else none

/-- The first character of a byte list and the bytes after it. -/
def decodeChar? : List UInt8 → Option (Char × List UInt8)
  | [] => none
  | a :: rest =>
    let n := a.toNat
    if n < 0x80 then
      some (Char.ofNat n, rest)
    else if n < 0xC0 then
      none
    else if n < 0xE0 then
      match rest with
      | b :: rest => do
        let x ← continuation? b
        let c ← scalar? 0x80 ((n - 0xC0) * 64 + x)
        return (c, rest)
      | _ => none
    else if n < 0xF0 then
      match rest with
      | b :: d :: rest => do
        let x ← continuation? b
        let y ← continuation? d
        let c ← scalar? 0x800 ((n - 0xE0) * 4096 + x * 64 + y)
        return (c, rest)
      | _ => none
    else if n < 0xF8 then
      match rest with
      | b :: d :: e :: rest => do
        let x ← continuation? b
        let y ← continuation? d
        let z ← continuation? e
        let c ← scalar? 0x10000 ((n - 0xF0) * 262144 + x * 4096 + y * 64 + z)
        return (c, rest)
      | _ => none
    else
      none

/-- Decoding takes at most as many characters as the fuel allows; each takes at least one byte,
so the length of the list is enough. -/
def decodeWithin : Nat → List UInt8 → Option (List Char)
  | _, [] => some []
  | 0, _ :: _ => none
  | fuel + 1, b :: bs => do
    let (c, rest) ← decodeChar? (b :: bs)
    let cs ← decodeWithin fuel rest
    return c :: cs

/-- The characters a byte list encodes, if it is well formed. -/
def decode? (bs : List UInt8) : Option (List Char) :=
  decodeWithin bs.length bs

/-- The bytes of a list from position `start` up to position `stop`. -/
def slice (bs : List UInt8) (start stop : Nat) : List UInt8 :=
  (bs.take stop).drop start

end TranslationKeys.Utf8
