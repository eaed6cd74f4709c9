import Mathlib.Data.List.Basic

-- SHA-1 as FIPS 180-4 defines it, for messages of whole bytes.
namespace Sevent.Fips

-- ---- functions and constants (4.1.1, 4.2.1) ----

def rotl (n : Nat) (x : UInt32) : UInt32 := ⟨x.toBitVec.rotateLeft n⟩

def ch (x y z : UInt32) : UInt32 := (x &&& y) ^^^ (~~~x &&& z)
def parity (x y z : UInt32) : UInt32 := x ^^^ y ^^^ z
def maj (x y z : UInt32) : UInt32 := (x &&& y) ^^^ (x &&& z) ^^^ (y &&& z)

def f (t : Nat) : UInt32 → UInt32 → UInt32 → UInt32 :=
  if t < 20 then ch else if t < 40 then parity else if t < 60 then maj else parity

def k (t : Nat) : UInt32 :=
  if t < 20 then 0x5A827999 else if t < 40 then 0x6ED9EBA1 else if t < 60 then 0x8F1BBCDC else 0xCA62C1D6

-- ---- the message (5.1.1, 5.2.1) ----

-- The number of zero bytes between the 0x80 and the length.
def zeros (n : Nat) : Nat := (119 - n % 64) % 64

theorem zeros_spec (n : Nat) : zeros n < 64 ∧ (n + 1 + zeros n) % 64 = 56 := by
  unfold zeros
  omega

def lengthBytes (bits : Nat) : List UInt8 :=
  (List.range 8).map fun i => UInt8.ofNat (bits >>> (8 * (7 - i)))

def pad (m : List UInt8) : List UInt8 :=
  m ++ 0x80 :: List.replicate (zeros m.length) 0 ++ lengthBytes (8 * m.length)

-- The i-th word, its most significant byte first.
def word (p : List UInt8) (i : Nat) : UInt32 :=
  ⟨(p.getD (4 * i) 0).toBitVec ++ (p.getD (4 * i + 1) 0).toBitVec ++
    (p.getD (4 * i + 2) 0).toBitVec ++ (p.getD (4 * i + 3) 0).toBitVec⟩

def block (p : List UInt8) (i : Nat) : List UInt8 := (p.drop (64 * i)).take 64

-- ---- the computation (5.3.1, 6.1.2) ----

structure Hash where
  a : UInt32
  b : UInt32
  c : UInt32
  d : UInt32
  e : UInt32
  deriving DecidableEq, Repr

def initial : Hash := ⟨0x67452301, 0xEFCDAB89, 0x98BADCFE, 0x10325476, 0xC3D2E1F0⟩

def schedule (m : List UInt8) (t : Nat) : UInt32 :=
  if t < 16 then word m t
  else rotl 1 (schedule m (t - 3) ^^^ schedule m (t - 8) ^^^ schedule m (t - 14) ^^^ schedule m (t - 16))

def round (m : List UInt8) (v : Hash) (t : Nat) : Hash :=
  ⟨rotl 5 v.a + f t v.b v.c v.d + v.e + k t + schedule m t, v.a, rotl 30 v.b, v.c, v.d⟩

def compress (h : Hash) (m : List UInt8) : Hash :=
  let v := (List.range 80).foldl (round m) h
  ⟨v.a + h.a, v.b + h.b, v.c + h.c, v.d + h.d, v.e + h.e⟩

def wordBytes (x : UInt32) : List UInt8 :=
  [(x >>> 24).toUInt8, (x >>> 16).toUInt8, (x >>> 8).toUInt8, x.toUInt8]

def hash (p : List UInt8) : Hash :=
  (List.range (p.length / 64)).foldl (fun h i => compress h (block p i)) initial

def sha1 (m : List UInt8) : List UInt8 :=
  let h := hash (pad m)
  wordBytes h.a ++ wordBytes h.b ++ wordBytes h.c ++ wordBytes h.d ++ wordBytes h.e

-- ---- the blocks of a message ----

theorem pad_length (m : List UInt8) : (pad m).length = m.length + 1 + zeros m.length + 8 := by
  simp only [pad, lengthBytes, List.length_append, List.length_cons, List.length_replicate,
    List.length_map, List.length_range]
  omega

theorem block_zero (p : List UInt8) : block p 0 = p.take 64 := rfl

theorem block_succ (p : List UInt8) (i : Nat) : block p (i + 1) = block (p.drop 64) i := by
  rw [block, block, List.drop_drop, Nat.mul_succ, Nat.add_comm]

-- What is done with each block in turn.
theorem foldl_blocks {α : Type} (step : α → List UInt8 → α) (p : List UInt8) (n : Nat) (h : α) :
    (List.range (n + 1)).foldl (fun h i => step h (block p i)) h =
      (List.range n).foldl (fun h i => step h (block (p.drop 64) i)) (step h (p.take 64)) := by
  rw [List.range_succ_eq_map, List.foldl_cons, List.foldl_map, block_zero]
  simp only [block_succ]

end Sevent.Fips
