/-!
# Text of the operating system

Arguments, paths and files are bytes, most of which are UTF-8. A `RawText` is a text, or bytes that
are none; `RawText.ofBytes` tells the two apart.
-/

namespace Bindery

namespace Text

/-- Reads the `k` bytes that are still due of a character; the first of them lies between `lo` and
`hi`. Returns the character, if it is complete, and how many bytes belong to it. -/
def decodeTail (acc read : Nat) : Nat → Nat → Nat → List UInt8 → Option Char × Nat
  | 0, _, _, _ => (some (Char.ofNat acc), read)
  | _ + 1, _, _, [] => (none, read)
  | k + 1, lo, hi, b :: bs =>
    if lo ≤ b.toNat ∧ b.toNat ≤ hi then
      decodeTail (acc * 64 + (b.toNat - 0x80)) (read + 1) k 0x80 0xBF bs
    else (none, read)

/-- The character that begins with the byte `b`, and how many more bytes belong to it. -/
def decodeChar (b : UInt8) (bs : List UInt8) : Option Char × Nat :=
  let n := b.toNat
  if n < 0x80 then (some (Char.ofNat n), 0)
  else if 0xC2 ≤ n ∧ n ≤ 0xDF then decodeTail (n - 0xC0) 0 1 0x80 0xBF bs
  else if n = 0xE0 then decodeTail 0 0 2 0xA0 0xBF bs
  else if n = 0xED then decodeTail 0xD 0 2 0x80 0x9F bs
  else if 0xE1 ≤ n ∧ n ≤ 0xEF then decodeTail (n - 0xE0) 0 2 0x80 0xBF bs
  else if n = 0xF0 then decodeTail 0 0 3 0x90 0xBF bs
  else if 0xF1 ≤ n ∧ n ≤ 0xF3 then decodeTail (n - 0xF0) 0 3 0x80 0xBF bs
  else if n = 0xF4 then decodeTail 4 0 3 0x80 0x8F bs
  else (none, 0)

/-- The characters of bytes, with `none` for each longest start of a character that is broken
off. -/
def decodeUtf8 : List UInt8 → List (Option Char)
  | [] => []
  | b :: bs =>
    let (c, n) := decodeChar b bs
    c :: decodeUtf8 (bs.drop n)
termination_by bs => bs.length
decreasing_by simp only [List.length_drop, List.length_cons]; omega

end Text

inductive RawText where
  | text (s : String)
  /-- Bytes that are not UTF-8. -/
  | bytes (bs : List UInt8)
  deriving DecidableEq, Inhabited

namespace RawText

def ofBytes (bs : List UInt8) : RawText :=
  match (Text.decodeUtf8 bs).mapM id with
  | some cs => .text (String.ofList cs)
  | none => .bytes bs

def toBytes : RawText → List UInt8
  | .text s => s.toUTF8.toList
  | .bytes bs => bs

def text? : RawText → Option String
  | .text s => some s
  | .bytes _ => none

/-- As a text, with a replacement character for whatever is none. -/
def shown : RawText → String
  | .text s => s
  | .bytes bs => String.ofList ((Text.decodeUtf8 bs).map (·.getD '\ufffd'))

def append : RawText → RawText → RawText
  | .text s, .text t => .text (s ++ t)
  | x, y => ofBytes (x.toBytes ++ y.toBytes)

instance : Append RawText := ⟨append⟩

instance : Coe String RawText := ⟨.text⟩

theorem text_append_text (s t : String) : RawText.text s ++ RawText.text t = .text (s ++ t) := rfl

end RawText

end Bindery
