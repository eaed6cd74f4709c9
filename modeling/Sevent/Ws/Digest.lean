import Sevent.Basic

-- SHA-1 (ws_sha1.c) and Base64 (ws_base64.c), as the accept value uses them.
namespace Sevent.Ws

structure Sha1State where
  h0 : UInt32
  h1 : UInt32
  h2 : UInt32
  h3 : UInt32
  h4 : UInt32
  deriving DecidableEq, Repr

def rotl (x : UInt32) (n : UInt32) : UInt32 := (x <<< n) ||| (x >>> (32 - n))

def word (a b c d : Byte) : UInt32 :=
  (a.toUInt32 <<< 24) ||| (b.toUInt32 <<< 16) ||| (c.toUInt32 <<< 8) ||| d.toUInt32

def words : Bytes → List UInt32
  | a :: b :: c :: d :: rest => word a b c d :: words rest
  | _ => []

-- The message schedule, newest word first.
def sha1Schedule : Nat → List UInt32 → List UInt32
  | 0, w => w
  | n + 1, w =>
      sha1Schedule n (rotl (w.getD 2 0 ^^^ w.getD 7 0 ^^^ w.getD 13 0 ^^^ w.getD 15 0) 1 :: w)

def sha1Mix (i : Nat) (b c d : UInt32) : UInt32 :=
  if i < 20 then (b &&& c) ||| (~~~b &&& d)
  else if i < 40 then b ^^^ c ^^^ d
  else if i < 60 then (b &&& c) ||| (b &&& d) ||| (c &&& d)
  else b ^^^ c ^^^ d

def sha1Constant (i : Nat) : UInt32 :=
  if i < 20 then 0x5A827999
  else if i < 40 then 0x6ED9EBA1
  else if i < 60 then 0x8F1BBCDC
  else 0xCA62C1D6

def sha1Rounds : Nat → Sha1State → List UInt32 → Sha1State
  | _, s, [] => s
  | i, ⟨a, b, c, d, e⟩, w :: rest =>
      let t := e + (rotl a 5 + sha1Mix i b c d + sha1Constant i + w)
      sha1Rounds (i + 1) ⟨t, a, rotl b 30, c, d⟩ rest

def sha1Transform (s : Sha1State) (block : Bytes) : Sha1State :=
  let w := (sha1Schedule 64 (words block).reverse).reverse
  let r := sha1Rounds 0 s w
  ⟨s.h0 + r.h0, s.h1 + r.h1, s.h2 + r.h2, s.h3 + r.h3, s.h4 + r.h4⟩

-- `buffer` is the part of the buffer that is in use.
structure Sha1Ctx where
  state : Sha1State
  count : Nat
  buffer : Bytes
  deriving DecidableEq, Repr

def sha1Init : Sha1Ctx :=
  ⟨⟨0x67452301, 0xEFCDAB89, 0x98BADCFE, 0x10325476, 0xC3D2E1F0⟩, 0, []⟩

def sha1Blocks : Nat → Sha1State → Bytes → Sha1State × Bytes
  | 0, s, p => (s, p)
  | fuel + 1, s, p =>
      if p.length ≥ 64 then sha1Blocks fuel (sha1Transform s (p.take 64)) (p.drop 64) else (s, p)

def sha1Update (ctx : Sha1Ctx) (data : Bytes) : Sha1Ctx :=
  let idx := ctx.count % 64
  let count := (ctx.count + data.length) % 18446744073709551616
  let buffered := ctx.buffer.take idx
  let (s, buffered, p) :=
    if idx > 0 ∧ idx + data.length ≥ 64 then
      (sha1Transform ctx.state (buffered ++ data.take (64 - idx)), [], data.drop (64 - idx))
    else (ctx.state, buffered, data)
  -- with bytes still buffered `p` is shorter than a block
  let (s, p) := sha1Blocks p.length s p
  ⟨s, count, buffered ++ p⟩

def bytes32 (x : UInt32) : Bytes :=
  [(x >>> 24).toUInt8, (x >>> 16).toUInt8, (x >>> 8).toUInt8, x.toUInt8]

def bytes64 (n : Nat) : Bytes := (List.range 8).map fun i => UInt8.ofNat (n >>> (56 - 8 * i))

def sha1Final (ctx : Sha1Ctx) : Bytes :=
  let bits := ctx.count * 8 % 18446744073709551616
  let idx := ctx.count % 64
  let pad := if idx < 56 then 56 - idx else 120 - idx
  let ctx := sha1Update ctx (0x80 :: List.replicate (pad - 1) 0)
  let ctx := sha1Update ctx (bytes64 bits)
  let s := ctx.state
  bytes32 s.h0 ++ bytes32 s.h1 ++ bytes32 s.h2 ++ bytes32 s.h3 ++ bytes32 s.h4

def sha1 (data : Bytes) : Bytes := sha1Final (sha1Update sha1Init data)

def b64Tab : Bytes := ascii "ABCDEFGHIJKLMNOPQRSTUVWXYZabcdefghijklmnopqrstuvwxyz0123456789+/"

def b64Quad (a b c : Byte) : Bytes :=
  let tab := fun i => b64Tab.getD i 0
  let a := a.toNat
  let b := b.toNat
  let c := c.toNat
  [tab (a / 4), tab (a % 4 * 16 + b / 16), tab (b % 16 * 4 + c / 64), tab (c % 64)]

-- The characters before the padding is written over them.
def b64Chars : Bytes → Bytes
  | [] => []
  | [a] => b64Quad a 0 0
  | [a, b] => b64Quad a b 0
  | a :: b :: c :: rest => b64Quad a b c ++ b64Chars rest

-- The string without its NUL; `none` when the destination is too small.
def base64Encode (raw : Bytes) (dstCap : Nat) : Option Bytes :=
  let outLen := (raw.length + 2) / 3 * 4
  if dstCap < outLen + 1 then none
  else
    let pad := 3 - raw.length % 3
    let chars := b64Chars raw
    some (if pad ≠ 3 then chars.take (outLen - pad) ++ List.replicate pad 61 else chars)

theorem sha1_length (data : Bytes) : (sha1 data).length = 20 := by
  simp [sha1, sha1Final, bytes32]

theorem b64Chars_length (raw : Bytes) : (b64Chars raw).length = (raw.length + 2) / 3 * 4 := by
  induction raw using b64Chars.induct with
  | case1 => rfl
  | case2 a => simp [b64Chars, b64Quad]
  | case3 a b => simp [b64Chars, b64Quad]
  | case4 a b c rest ih =>
      simp only [b64Chars, List.length_append, ih, b64Quad, List.length_cons, List.length_nil]
      omega

theorem base64Encode_length {raw out : Bytes} {cap : Nat} (h : base64Encode raw cap = some out) :
    out.length = (raw.length + 2) / 3 * 4 := by
  have hlen := b64Chars_length raw
  simp only [base64Encode] at h
  split at h
  · cases h
  · cases h
    split
    · simp only [List.length_append, List.length_take, List.length_replicate, hlen]
      omega
    · exact hlen

end Sevent.Ws
