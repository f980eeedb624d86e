import FileGuard.Store.Hex

namespace FileGuard.Store

namespace Sha256

def roundConstants : List UInt32 := [
  0x428a2f98, 0x71374491, 0xb5c0fbcf, 0xe9b5dba5, 0x3956c25b, 0x59f111f1, 0x923f82a4, 0xab1c5ed5,
  0xd807aa98, 0x12835b01, 0x243185be, 0x550c7dc3, 0x72be5d74, 0x80deb1fe, 0x9bdc06a7, 0xc19bf174,
  0xe49b69c1, 0xefbe4786, 0x0fc19dc6, 0x240ca1cc, 0x2de92c6f, 0x4a7484aa, 0x5cb0a9dc, 0x76f988da,
  0x983e5152, 0xa831c66d, 0xb00327c8, 0xbf597fc7, 0xc6e00bf3, 0xd5a79147, 0x06ca6351, 0x14292967,
  0x27b70a85, 0x2e1b2138, 0x4d2c6dfc, 0x53380d13, 0x650a7354, 0x766a0abb, 0x81c2c92e, 0x92722c85,
  0xa2bfe8a1, 0xa81a664b, 0xc24b8b70, 0xc76c51a3, 0xd192e819, 0xd6990624, 0xf40e3585, 0x106aa070,
  0x19a4c116, 0x1e376c08, 0x2748774c, 0x34b0bcb5, 0x391c0cb3, 0x4ed8aa4a, 0x5b9cca4f, 0x682e6ff3,
  0x748f82ee, 0x78a5636f, 0x84c87814, 0x8cc70208, 0x90befffa, 0xa4506ceb, 0xbef9a3f7, 0xc67178f2]

structure Words where
  (a b c d e f g h : UInt32)

def initial : Words :=
  ⟨0x6a09e667, 0xbb67ae85, 0x3c6ef372, 0xa54ff53a, 0x510e527f, 0x9b05688c, 0x1f83d9ab, 0x5be0cd19⟩

def rotateRight (x n : UInt32) : UInt32 := (x >>> n) ||| (x <<< (32 - n))

def smallSigma0 (x : UInt32) : UInt32 := rotateRight x 7 ^^^ rotateRight x 18 ^^^ (x >>> 3)

def smallSigma1 (x : UInt32) : UInt32 := rotateRight x 17 ^^^ rotateRight x 19 ^^^ (x >>> 10)

/-- The message schedule with its newest word first. -/
def extendSchedule : ℕ → List UInt32 → List UInt32
  | 0, w => w
  | n + 1, w =>
    let next := smallSigma1 (w.getD 1 0) + w.getD 6 0 + smallSigma0 (w.getD 14 0) + w.getD 15 0
    extendSchedule n (next :: w)

def round (s : Words) (kw : UInt32 × UInt32) : Words :=
  let sigma1 := rotateRight s.e 6 ^^^ rotateRight s.e 11 ^^^ rotateRight s.e 25
  let choice := (s.e &&& s.f) ^^^ (~~~s.e &&& s.g)
  let first := s.h + sigma1 + choice + kw.1 + kw.2
  let sigma0 := rotateRight s.a 2 ^^^ rotateRight s.a 13 ^^^ rotateRight s.a 22
  let majority := (s.a &&& s.b) ^^^ (s.a &&& s.c) ^^^ (s.b &&& s.c)
  ⟨first + (sigma0 + majority), s.a, s.b, s.c, s.d + first, s.e, s.f, s.g⟩

def compress (s : Words) (block : List UInt32) : Words :=
  let schedule := (extendSchedule 48 block.reverse).reverse
  let t := (roundConstants.zip schedule).foldl round s
  ⟨s.a + t.a, s.b + t.b, s.c + t.c, s.d + t.d, s.e + t.e, s.f + t.f, s.g + t.g, s.h + t.h⟩

def bigEndian (x : ℕ) : ℕ → Bytes
  | 0 => []
  | n + 1 => UInt8.ofNat (x >>> (8 * n)) :: bigEndian x n

def pad (message : Bytes) : Bytes :=
  message ++ [0x80] ++ List.replicate ((119 - message.length % 64) % 64) 0 ++
    bigEndian (8 * message.length) 8

def word : Bytes → UInt32
  | [a, b, c, d] =>
    (a.toUInt32 <<< 24) ||| (b.toUInt32 <<< 16) ||| (c.toUInt32 <<< 8) ||| d.toUInt32
  | _ => 0

def chunks (size : ℕ) : ℕ → Bytes → List Bytes
  | 0, _ => []
  | n + 1, b => b.take size :: chunks size n (b.drop size)

def digest (message : Bytes) : Bytes :=
  let padded := pad message
  let blocks := (chunks 64 (padded.length / 64) padded).map (fun b => (chunks 4 16 b).map word)
  let s := blocks.foldl compress initial
  [s.a, s.b, s.c, s.d, s.e, s.f, s.g, s.h].flatMap (fun x => bigEndian x.toNat 4)

theorem digest_length (message : Bytes) : (digest message).length = 32 := rfl

end Sha256

def sha256 (contents : Bytes) : String := hexEncode (Sha256.digest contents)

theorem hexDecode_sha256 (contents : Bytes) :
    hexDecode (sha256 contents) = .ok (Sha256.digest contents) := hexDecode_hexEncode _

theorem sha256_length (contents : Bytes) : (sha256 contents).length = 64 := by
  simp only [sha256, hexEncode, String.length_ofList, encodeChars_length, Sha256.digest_length]

end FileGuard.Store
