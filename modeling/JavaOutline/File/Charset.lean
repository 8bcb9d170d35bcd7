import JavaOutline.Text.Words

/-! # Character encodings

    Turning bytes into text.  Where the bytes are no text of the encoding, the
    fault says which bytes are wrong and why: the first bytes that rule out
    every continuation, or those that the end of the file leaves incomplete. -/

namespace JavaOutline

/-- Why bytes are no text. -/
inductive DecodeReason where
  | startByte
  | continuationByte
  | endOfData
  | outOfRange
  | truncated
  | unpairedLow
  | unpairedHigh
  deriving DecidableEq, Repr

/-- The wording of a reason. -/
def DecodeReason.message : DecodeReason → String
  | .startByte => "invalid start byte"
  | .continuationByte => "invalid continuation byte"
  | .endOfData => "unexpected end of data"
  | .outOfRange => "ordinal not in range(128)"
  | .truncated => "truncated data"
  | .unpairedLow => "illegal encoding"
  | .unpairedHigh => "illegal UTF-16 surrogate"

/-- A stretch of bytes that is no text: positions `start` up to, and without,
    `stop`. -/
structure DecodeFault where
  codec : String
  /-- The byte at `start`. -/
  byte : UInt8
  start : Nat
  stop : Nat
  reason : DecodeReason
  deriving DecidableEq, Repr

/-- The wording of a decoding fault; a single byte is named. -/
def DecodeFault.message (f : DecodeFault) : String :=
  "'" ++ f.codec ++ "' codec can't decode "
    ++ (if f.stop ≤ f.start + 1 then
          "byte 0x" ++ String.ofList (Text.hexPadded 2 f.byte.toNat)
            ++ " in position " ++ toString f.start
        else
          "bytes in position " ++ toString f.start ++ "-"
            ++ toString (f.stop - 1))
    ++ ": " ++ f.reason.message

namespace Charset

/-! ## One byte per character -/

/-- Every byte is the character of its number. -/
def decodeLatin (bs : List UInt8) : List Char :=
  bs.map fun b => Char.ofNat b.toNat

/-- Bytes below 128 only; `pos` is the position of the first. -/
def decodeAscii (pos : Nat) : List UInt8 → Except DecodeFault (List Char)
  | [] => .ok []
  | b :: bs =>
    if b.toNat < 0x80 then
      (decodeAscii (pos + 1) bs).map (Char.ofNat b.toNat :: ·)
    else .error ⟨"ascii", b, pos, pos + 1, .outOfRange⟩

/-! ## Sequences of one to four bytes -/

/-- A range of byte values. -/
structure ByteRange where
  low : Nat
  high : Nat
  deriving DecidableEq, Repr

/-- Whether a byte is in a range. -/
def ByteRange.has (r : ByteRange) (b : UInt8) : Bool :=
  decide (r.low ≤ b.toNat ∧ b.toNat ≤ r.high)

/-- Any continuation byte. -/
def anyContinuation : ByteRange := ⟨0x80, 0xBF⟩

/-- A sequence that has begun. -/
structure Sequence where
  start : Nat
  /-- Its first byte. -/
  lead : UInt8
  /-- The bits so far. -/
  bits : Nat
  /-- What the next byte may be. -/
  next : ByteRange
  /-- How many bytes follow that one. -/
  more : Nat
  deriving DecidableEq, Repr

/-- The sequence that a lead byte begins.  The second byte is restricted so
    that no character has two forms, none is a surrogate, and none is beyond
    the last. -/
def Sequence.ofLead? (pos : Nat) (b : UInt8) : Option Sequence :=
  let n := b.toNat
  if 0xC2 ≤ n ∧ n ≤ 0xDF then some ⟨pos, b, n - 0xC0, anyContinuation, 0⟩
  else if n = 0xE0 then some ⟨pos, b, 0, ⟨0xA0, 0xBF⟩, 1⟩
  else if n = 0xED then some ⟨pos, b, n - 0xE0, ⟨0x80, 0x9F⟩, 1⟩
  else if 0xE1 ≤ n ∧ n ≤ 0xEF then
    some ⟨pos, b, n - 0xE0, anyContinuation, 1⟩
  else if n = 0xF0 then some ⟨pos, b, 0, ⟨0x90, 0xBF⟩, 2⟩
  else if 0xF1 ≤ n ∧ n ≤ 0xF3 then
    some ⟨pos, b, n - 0xF0, anyContinuation, 2⟩
  else if n = 0xF4 then some ⟨pos, b, n - 0xF0, ⟨0x80, 0x8F⟩, 2⟩
  else none

/-- A fault of the bytes of a sequence up to `stop`. -/
def Sequence.fault (s : Sequence) (stop : Nat) (r : DecodeReason) :
    DecodeFault :=
  ⟨"utf-8", s.lead, s.start, stop, r⟩

/-- Sequences of one to four bytes; `pos` is the position of the first byte
    and `begun` the sequence that it continues. -/
def decodeUtf8 (pos : Nat) (begun : Option Sequence) :
    List UInt8 → Except DecodeFault (List Char)
  | [] =>
    match begun with
    | none => .ok []
    | some s => .error (s.fault pos .endOfData)
  | b :: bs =>
    match begun with
    | none =>
      if b.toNat < 0x80 then
        (decodeUtf8 (pos + 1) none bs).map (Char.ofNat b.toNat :: ·)
      else
        match Sequence.ofLead? pos b with
        | some s => decodeUtf8 (pos + 1) (some s) bs
        | none => .error ⟨"utf-8", b, pos, pos + 1, .startByte⟩
    | some s =>
      if s.next.has b then
        let bits := s.bits * 64 + (b.toNat - 0x80)
        match s.more with
        | 0 => (decodeUtf8 (pos + 1) none bs).map (Char.ofNat bits :: ·)
        | k + 1 =>
          decodeUtf8 (pos + 1)
            (some { s with bits := bits, next := anyContinuation, more := k })
            bs
      else .error (s.fault pos .continuationByte)

/-- The mark that may stand at the start of a file. -/
def mark8 : List UInt8 := [0xEF, 0xBB, 0xBF]

/-- Text with an optional mark.  Positions count from after the mark, and a
    file that holds only a part of it is empty. -/
def decodeUtf8Marked (bs : List UInt8) : Except DecodeFault (List Char) :=
  if bs.length < 3 ∧ bs.isPrefixOf mark8 then .ok []
  else if mark8.isPrefixOf bs then decodeUtf8 0 none (bs.drop 3)
  else decodeUtf8 0 none bs

/-! ## Units of two bytes -/

/-- The order of the two bytes of a unit. -/
inductive ByteOrder where
  | little
  | big
  deriving DecidableEq, Repr

/-- The name of the encoding with a fixed byte order. -/
def ByteOrder.codec : ByteOrder → String
  | .little => "utf-16-le"
  | .big => "utf-16-be"

/-- The unit that two bytes make. -/
def ByteOrder.unit (o : ByteOrder) (a b : UInt8) : Nat :=
  match o with
  | .little => a.toNat + 256 * b.toNat
  | .big => 256 * a.toNat + b.toNat

/-- A unit that begins a pair. -/
def isHighUnit (n : Nat) : Bool := decide (0xD800 ≤ n ∧ n < 0xDC00)

/-- A unit that ends a pair. -/
def isLowUnit (n : Nat) : Bool := decide (0xDC00 ≤ n ∧ n < 0xE000)

/-- The character that a pair of units writes. -/
def ofPair (high low : Nat) : Char :=
  Char.ofNat (0x10000 + 0x400 * (high - 0xD800) + (low - 0xDC00))

/-- Units of two bytes, two of them for a character beyond the first 65536;
    `pos` is the position of the first byte. -/
def decodeUtf16 (o : ByteOrder) (pos : Nat) :
    List UInt8 → Except DecodeFault (List Char)
  | [] => .ok []
  | [a] => .error ⟨o.codec, a, pos, pos + 1, .truncated⟩
  | [a, b] =>
    let n := o.unit a b
    if isHighUnit n then .error ⟨o.codec, a, pos, pos + 2, .endOfData⟩
    else if isLowUnit n then .error ⟨o.codec, a, pos, pos + 2, .unpairedLow⟩
    else .ok [Char.ofNat n]
  | [a, b, c] =>
    let n := o.unit a b
    if isHighUnit n then .error ⟨o.codec, a, pos, pos + 3, .endOfData⟩
    else if isLowUnit n then .error ⟨o.codec, a, pos, pos + 2, .unpairedLow⟩
    else .error ⟨o.codec, c, pos + 2, pos + 3, .truncated⟩
  | a :: b :: c :: d :: bs =>
    let n := o.unit a b
    if isHighUnit n then
      let k := o.unit c d
      if isLowUnit k then
        (decodeUtf16 o (pos + 4) bs).map (ofPair n k :: ·)
      else .error ⟨o.codec, a, pos, pos + 2, .unpairedHigh⟩
    else if isLowUnit n then .error ⟨o.codec, a, pos, pos + 2, .unpairedLow⟩
    else (decodeUtf16 o (pos + 2) (c :: d :: bs)).map (Char.ofNat n :: ·)

/-- Units whose byte order a mark at the start gives; without one the order
    is taken to be little endian.  Positions count the mark. -/
def decodeUtf16Marked : List UInt8 → Except DecodeFault (List Char)
  | 0xFF :: 0xFE :: bs => decodeUtf16 .little 2 bs
  | 0xFE :: 0xFF :: bs => decodeUtf16 .big 2 bs
  | bs => decodeUtf16 .little 0 bs

end Charset

/-- The encodings that can be read. -/
inductive Charset where
  | utf8
  | utf8Marked
  | latin
  | ascii
  | utf16Marked
  | utf16 (order : Charset.ByteOrder)
  deriving DecidableEq, Repr

namespace Charset

/-- The text that bytes write. -/
def decode (c : Charset) (bs : List UInt8) : Except DecodeFault (List Char) :=
  match c with
  | .utf8 => decodeUtf8 0 none bs
  | .utf8Marked => decodeUtf8Marked bs
  | .latin => .ok (decodeLatin bs)
  | .ascii => decodeAscii 0 bs
  | .utf16Marked => decodeUtf16Marked bs
  | .utf16 order => decodeUtf16 order 0 bs

/-- Bytes that have to begin with a mark and do not.  Only no bytes at all
    need none. -/
def lacksMark : Charset → List UInt8 → Bool
  | .utf16Marked, [] => false
  | .utf16Marked, 0xFF :: 0xFE :: _ => false
  | .utf16Marked, 0xFE :: 0xFF :: _ => false
  | .utf16Marked, _ => true
  | _, _ => false

/-! ## Names -/

/-- A name in its plain form: lower case, and one underscore for every
    stretch of other characters between letters, digits and dots.  `gap` says
    that such a stretch has just been passed, `started` that something stands
    before it. -/
def plainName (started gap : Bool) : List Char → List Char
  | [] => []
  | c :: cs =>
    if c.isAlphanum || c == '.' then
      if gap && started then '_' :: c.toLower :: plainName true false cs
      else c.toLower :: plainName true false cs
    else plainName started true cs

/-- The names of each encoding, in plain form. -/
def names : List (Charset × List String) :=
  [(.utf8, ["utf_8", "utf8", "utf", "u8", "utf8_ucs2", "utf8_ucs4", "cp65001"]),
   (.utf8Marked, ["utf_8_sig"]),
   (.latin, ["latin_1", "latin1", "latin", "l1", "iso_8859_1", "iso8859_1",
     "iso8859", "iso_8859_1_1987", "iso_ir_100", "8859", "cp819", "ibm819",
     "csisolatin1"]),
   (.ascii, ["ascii", "us_ascii", "us", "646", "ansi_x3.4_1968",
     "ansi_x3_4_1968", "ansi_x3.4_1986", "cp367", "csascii", "ibm367",
     "iso646_us", "iso_646.irv_1991", "iso_ir_6"]),
   (.utf16Marked, ["utf_16", "utf16", "u16"]),
   (.utf16 .little, ["utf_16_le", "utf_16le", "unicodelittleunmarked"]),
   (.utf16 .big, ["utf_16_be", "utf_16be", "unicodebigunmarked"])]

/-- The encoding of a name. -/
def ofName? (name : String) : Option Charset :=
  let plain := String.ofList (plainName false false name.toList)
  (names.find? (fun e => e.2.contains plain)).map Prod.fst

end Charset

end JavaOutline
