/-! SHA-256 (FIPS 180-4) on byte lists. The message is padded with a one bit, zeros and its
bit length to whole 64-byte blocks, and each block is mixed into eight words of state by
sixty-four rounds. -/

namespace PuzzleKit.Sha256

def roundConstants : Array UInt32 := #[
  0x428a2f98, 0x71374491, 0xb5c0fbcf, 0xe9b5dba5, 0x3956c25b, 0x59f111f1, 0x923f82a4, 0xab1c5ed5,
  0xd807aa98, 0x12835b01, 0x243185be, 0x550c7dc3, 0x72be5d74, 0x80deb1fe, 0x9bdc06a7, 0xc19bf174,
  0xe49b69c1, 0xefbe4786, 0x0fc19dc6, 0x240ca1cc, 0x2de92c6f, 0x4a7484aa, 0x5cb0a9dc, 0x76f988da,
  0x983e5152, 0xa831c66d, 0xb00327c8, 0xbf597fc7, 0xc6e00bf3, 0xd5a79147, 0x06ca6351, 0x14292967,
  0x27b70a85, 0x2e1b2138, 0x4d2c6dfc, 0x53380d13, 0x650a7354, 0x766a0abb, 0x81c2c92e, 0x92722c85,
  0xa2bfe8a1, 0xa81a664b, 0xc24b8b70, 0xc76c51a3, 0xd192e819, 0xd6990624, 0xf40e3585, 0x106aa070,
  0x19a4c116, 0x1e376c08, 0x2748774c, 0x34b0bcb5, 0x391c0cb3, 0x4ed8aa4a, 0x5b9cca4f, 0x682e6ff3,
  0x748f82ee, 0x78a5636f, 0x84c87814, 0x8cc70208, 0x90befffa, 0xa4506ceb, 0xbef9a3f7, 0xc67178f2]

def initial : Array UInt32 :=
  #[0x6a09e667, 0xbb67ae85, 0x3c6ef372, 0xa54ff53a, 0x510e527f, 0x9b05688c, 0x1f83d9ab, 0x5be0cd19]

/-- Rotation to the right within a word. -/
def rotr (x : UInt32) (n : UInt32) : UInt32 := (x >>> n) ||| (x <<< (32 - n))

/-- The message padded to whole blocks. -/
def pad (msg : List UInt8) : Array UInt8 :=
  let len := msg.length
  let zeros := (119 - len % 64) % 64
  let bits := 8 * len
  let lenBytes := (List.range 8).reverse.map fun k => UInt8.ofNat (bits / Nat.pow 2 (8 * k) % 256)
  (msg ++ [0x80] ++ List.replicate zeros 0 ++ lenBytes).toArray

/-- The big-endian word at byte `i`. -/
def wordAt (a : Array UInt8) (i : Nat) : UInt32 :=
  let b := fun k => (a.getD (i + k) 0).toUInt32
  (b 0 <<< 24) ||| (b 1 <<< 16) ||| (b 2 <<< 8) ||| b 3

/-- The sixty-four words that the rounds of the block at byte `off` read. -/
def schedule (a : Array UInt8) (off : Nat) : Array UInt32 :=
  let first := (List.range 16).foldl (fun w t => w.push (wordAt a (off + 4 * t))) #[]
  (List.range 48).foldl (fun w k =>
    let t := k + 16
    let w15 := w.getD (t - 15) 0
    let w2 := w.getD (t - 2) 0
    let s0 := rotr w15 7 ^^^ rotr w15 18 ^^^ (w15 >>> 3)
    let s1 := rotr w2 17 ^^^ rotr w2 19 ^^^ (w2 >>> 10)
    w.push (w.getD (t - 16) 0 + s0 + w.getD (t - 7) 0 + s1)) first

/-- One block mixed into the state. -/
def compress (h : Array UInt32) (a : Array UInt8) (off : Nat) : Array UInt32 :=
  let w := schedule a off
  let g := fun i => h.getD i 0
  let r := (List.range 64).foldl (fun (s : UInt32 × UInt32 × UInt32 × UInt32 × UInt32 × UInt32 × UInt32 × UInt32) t =>
    let (a', b, c, d, e, f, g', hh) := s
    let s1 := rotr e 6 ^^^ rotr e 11 ^^^ rotr e 25
    let ch := (e &&& f) ^^^ ((~~~ e) &&& g')
    let t1 := hh + s1 + ch + roundConstants.getD t 0 + w.getD t 0
    let s0 := rotr a' 2 ^^^ rotr a' 13 ^^^ rotr a' 22
    let maj := (a' &&& b) ^^^ (a' &&& c) ^^^ (b &&& c)
    let t2 := s0 + maj
    (t1 + t2, a', b, c, d + t1, e, f, g'))
    (g 0, g 1, g 2, g 3, g 4, g 5, g 6, g 7)
  let (a', b, c, d, e, f, g', hh) := r
  #[g 0 + a', g 1 + b, g 2 + c, g 3 + d, g 4 + e, g 5 + f, g 6 + g', g 7 + hh]

/-- The 32-byte digest of a message. -/
def hash (msg : List UInt8) : List UInt8 :=
  let a := pad msg
  let h := (List.range (a.size / 64)).foldl (fun h k => compress h a (64 * k)) initial
  h.toList.flatMap fun (x : UInt32) =>
    [(x >>> 24).toUInt8, (x >>> 16).toUInt8, (x >>> 8).toUInt8, x.toUInt8]

theorem size_compress (h : Array UInt32) (a : Array UInt8) (off : Nat) :
    (compress h a off).size = 8 := by
  simp only [compress]
  rfl

/-- Every digest is 32 bytes long: the state stays eight words through every block. -/
theorem length_hash (msg : List UInt8) : (hash msg).length = 32 := by
  have hsize : ∀ (ks : List Nat) (h : Array UInt32), h.size = 8 →
      (ks.foldl (fun h k => compress h (pad msg) (64 * k)) h).size = 8 := by
    intro ks
    induction ks with
    | nil => exact fun h hh => hh
    | cons k ks ih => exact fun h _ => ih _ (size_compress _ _ _)
  have h8 := hsize (List.range ((pad msg).size / 64)) initial rfl
  simp only [hash, List.length_flatMap, List.length_cons, List.length_nil]
  rw [List.map_const', Array.length_toList, h8]
  rfl

end PuzzleKit.Sha256
