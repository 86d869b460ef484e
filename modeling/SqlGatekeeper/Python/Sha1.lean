import SqlGatekeeper.Python.Text

/-!
# SHA-1

`hashlib.sha1(raw.encode("utf-8")).hexdigest()`.

* `sha1Pad`: the padded message; `sha1Schedule`: the words of a block.
* `sha1Block`: the compression of a block; `sha1Hex`: the digest in hexadecimal.
-/

namespace Py

/-- A word of SHA-1. -/
abbrev Word := BitVec 32

/-- `s.encode("utf-8")`, as numbers. -/
def utf8 (s : Str) : List Nat := s.flatMap fun c => (String.utf8EncodeChar c).map (·.toNat)

/-- A number in bytes, the most significant first. -/
def bigEndian : Nat → Nat → List Nat
  | 0, _ => []
  | bytes + 1, n => bigEndian bytes (n / 256) ++ [n % 256]

/-- The message with a one bit, zeros and its length in bits, in blocks of 64 bytes. -/
def sha1Pad (message : List Nat) : List Nat :=
  message ++ 0x80 :: List.replicate ((119 - message.length % 64) % 64) 0 ++
    bigEndian 8 (8 * message.length)

/-- The words of a text of bytes. -/
def wordsOf : List Nat → List Word
  | a :: b :: c :: d :: rest =>
      BitVec.ofNat 32 (((a * 256 + b) * 256 + c) * 256 + d) :: wordsOf rest
  | _ => []

/-- Extend the words of a block, the newest first. -/
def sha1Extend : Nat → List Word → List Word
  | 0, ws => ws
  | n + 1, ws =>
      sha1Extend n
        ((ws.getD 2 0 ^^^ ws.getD 7 0 ^^^ ws.getD 13 0 ^^^ ws.getD 15 0).rotateLeft 1 :: ws)

/-- The 80 words of a block. -/
def sha1Schedule (block : List Nat) : List Word := (sha1Extend 64 (wordsOf block).reverse).reverse

/-- The five words of the state. -/
structure Sha1State where
  a : Word
  b : Word
  c : Word
  d : Word
  e : Word

/-- The function and the constant of a round. -/
def sha1Round (t : Nat) (h : Sha1State) : Word × Word :=
  if t < 20 then ((h.b &&& h.c) ||| (~~~h.b &&& h.d), 0x5A827999)
  else if t < 40 then (h.b ^^^ h.c ^^^ h.d, 0x6ED9EBA1)
  else if t < 60 then ((h.b &&& h.c) ||| (h.b &&& h.d) ||| (h.c &&& h.d), 0x8F1BBCDC)
  else (h.b ^^^ h.c ^^^ h.d, 0xCA62C1D6)

/-- The rounds from one on, a word each. -/
def sha1Rounds : Nat → List Word → Sha1State → Sha1State
  | _, [], h => h
  | t, w :: ws, h =>
      let (f, k) := sha1Round t h
      sha1Rounds (t + 1) ws
        ⟨h.a.rotateLeft 5 + f + h.e + k + w, h.a, h.b.rotateLeft 30, h.c, h.d⟩

/-- The compression of a block. -/
def sha1Block (h : Sha1State) (block : List Nat) : Sha1State :=
  let r := sha1Rounds 0 (sha1Schedule block) h
  ⟨h.a + r.a, h.b + r.b, h.c + r.c, h.d + r.d, h.e + r.e⟩

/-- The blocks of a padded message, so many at most. -/
def sha1Blocks : Nat → Sha1State → List Nat → Sha1State
  | 0, h, _ => h
  | n + 1, h, bytes =>
      if bytes = [] then h else sha1Blocks n (sha1Block h (bytes.take 64)) (bytes.drop 64)

/-- A word in hexadecimal. -/
def hexWord (w : Word) : Str :=
  (bigEndian 4 w.toNat).flatMap fun n => [Nat.digitChar (n / 16), Nat.digitChar (n % 16)]

/-- `hashlib.sha1(raw.encode("utf-8")).hexdigest()`. -/
def sha1Hex (raw : Str) : Str :=
  let bytes := sha1Pad (utf8 raw)
  let h := sha1Blocks (bytes.length / 64)
    ⟨0x67452301, 0xEFCDAB89, 0x98BADCFE, 0x10325476, 0xC3D2E1F0⟩ bytes
  hexWord h.a ++ hexWord h.b ++ hexWord h.c ++ hexWord h.d ++ hexWord h.e

example : sha1Hex "abc" = "a9993e364706816aba3e25717850c26c9cd0d89d" := by decide +kernel

end Py
