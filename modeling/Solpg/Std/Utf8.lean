import Solpg.Std.Text

/-!
# Decoding UTF-8 in a stream

`TextDecoder` without options: the decoder goes from byte to byte, a malformed sequence becomes a
replacement character, and a byte order mark at the very start is left out. How the bytes are cut
into chunks does not change what is decoded.
-/

namespace Solpg.Std.Utf8

/-- A decoder between two bytes. -/
structure Decoder where
  /-- How many bytes of the character are to come. -/
  needed : Nat
  point : Nat
  lower : Nat
  upper : Nat
  /-- Nothing has been decoded yet. -/
  fresh : Bool
  deriving DecidableEq, Repr

/-- Between two characters. -/
def Decoder.between (decoder : Decoder) : Decoder :=
  { decoder with needed := 0, point := 0, lower := 0x80, upper := 0xbf }

/-- Nothing has been read yet. -/
def initial : Decoder := ⟨0, 0, 0x80, 0xbf, true⟩

/-- What stands for bytes that are no character. -/
def replacement : Char := '\ufffd'

/-- The mark that a decoder drops at the start. -/
def byteOrderMark : Char := '\ufeff'

/-- The character goes out, unless it is a byte order mark and the first one. -/
def Decoder.emit (decoder : Decoder) (char : Char) : Decoder × Text :=
  ({ decoder with fresh := false },
    if decoder.fresh && char = byteOrderMark then [] else [char])

/-- The first byte of a character. -/
def Decoder.start (decoder : Decoder) (byte : Nat) : Decoder × Text :=
  if byte ≤ 0x7f then decoder.emit (Char.ofNat byte)
  else if 0xc2 ≤ byte ∧ byte ≤ 0xdf then
    ({ decoder with needed := 1, point := byte % 0x20 }, [])
  else if 0xe0 ≤ byte ∧ byte ≤ 0xef then
    ({ decoder with
        needed := 2
        point := byte % 0x10
        lower := if byte = 0xe0 then 0xa0 else 0x80
        upper := if byte = 0xed then 0x9f else 0xbf }, [])
  else if 0xf0 ≤ byte ∧ byte ≤ 0xf4 then
    ({ decoder with
        needed := 3
        point := byte % 0x8
        lower := if byte = 0xf0 then 0x90 else 0x80
        upper := if byte = 0xf4 then 0x8f else 0xbf }, [])
  else decoder.emit replacement

/-- A byte that does not go on with the character begins another one. -/
def Decoder.step (decoder : Decoder) (byte : UInt8) : Decoder × Text :=
  if decoder.needed = 0 then decoder.start byte.toNat
  else if byte.toNat < decoder.lower ∨ decoder.upper < byte.toNat then
    let (decoder, broken) := decoder.between.emit replacement
    let (decoder, text) := decoder.start byte.toNat
    (decoder, broken ++ text)
  else
    let point := decoder.point * 0x40 + byte.toNat % 0x40
    if decoder.needed = 1 then decoder.between.emit (Char.ofNat point)
    else
      ({ decoder with needed := decoder.needed - 1, point, lower := 0x80, upper := 0xbf }, [])

/-- `decode` of a chunk, with `stream`. -/
def Decoder.feed : Decoder → List UInt8 → Decoder × Text
  | decoder, [] => (decoder, [])
  | decoder, byte :: rest =>
      let first := decoder.step byte
      let later := first.1.feed rest
      (later.1, first.2 ++ later.2)

/-- `decode` of nothing, without `stream`: a character that is not complete is malformed. -/
def Decoder.flush (decoder : Decoder) : Text :=
  if decoder.needed = 0 then [] else (decoder.emit replacement).2

/-- The texts of the chunks, and what is flushed. -/
def decodeChunks : Decoder → List (List UInt8) → List Text × Text
  | decoder, [] => ([], decoder.flush)
  | decoder, chunk :: rest =>
      let first := decoder.feed chunk
      let later := decodeChunks first.1 rest
      (first.2 :: later.1, later.2)

/-- The text of all bytes at once. -/
def decode (bytes : List UInt8) : Text :=
  (initial.feed bytes).2 ++ (initial.feed bytes).1.flush

/-- Bytes may be fed in two goes. -/
theorem feed_append (decoder : Decoder) (first second : List UInt8) :
    decoder.feed (first ++ second) = (((decoder.feed first).1.feed second).1,
      (decoder.feed first).2 ++ ((decoder.feed first).1.feed second).2) := by
  induction first generalizing decoder with
  | nil => rfl
  | cons byte rest ih =>
      simp only [List.cons_append, Decoder.feed, ih, List.append_assoc]

/-- Chunks are decoded like the bytes they make up. -/
theorem decodeChunks_flatten (decoder : Decoder) (chunks : List (List UInt8)) :
    (decodeChunks decoder chunks).1.flatten ++ (decodeChunks decoder chunks).2 =
      (decoder.feed chunks.flatten).2 ++ (decoder.feed chunks.flatten).1.flush := by
  induction chunks generalizing decoder with
  | nil => rfl
  | cons chunk rest ih =>
      simp only [decodeChunks, List.flatten_cons, List.append_assoc, ih, feed_append]

/-- Wherever the bytes are cut, the text is the same. -/
theorem decodeChunks_initial (chunks : List (List UInt8)) :
    (decodeChunks initial chunks).1.flatten ++ (decodeChunks initial chunks).2 =
      decode chunks.flatten := decodeChunks_flatten initial chunks

/-- Two bytes of one character in two chunks. -/
example : decodeChunks initial [[0x61, 0xc3], [0xa9]] = ([['a'], ['é']], []) := by decide

end Solpg.Std.Utf8
