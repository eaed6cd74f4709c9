import Sevent.Basic

-- The frame layer (ws_frame.c).
namespace Sevent.Ws

structure MaskKey where
  k0 : Byte
  k1 : Byte
  k2 : Byte
  k3 : Byte
  deriving DecidableEq, Repr

-- `mask_key[i & 3]`
def MaskKey.get (key : MaskKey) (i : Nat) : Byte :=
  match i % 4 with
  | 0 => key.k0
  | 1 => key.k1
  | 2 => key.k2
  | _ => key.k3

def MaskKey.bytes (key : MaskKey) : Bytes := [key.k0, key.k1, key.k2, key.k3]

namespace Opcode

def cont : Nat := 0
def text : Nat := 1
def binary : Nat := 2
def close : Nat := 8
def ping : Nat := 9
def pong : Nat := 10

-- `opcode & 0x08`
def isControl (opcode : Nat) : Bool := opcode.testBit 3

end Opcode

structure FrameHeader where
  fin : Bool
  rsv1 : Bool
  rsv2 : Bool
  rsv3 : Bool
  opcode : Nat
  mask : Bool
  payloadLen : Nat
  maskKey : MaskKey
  deriving DecidableEq, Repr

inductive HeaderResult where
  | error
  | more
  | complete (hdr : FrameHeader) (size : Nat)
  deriving DecidableEq, Repr

def bigEndian (b : Bytes) : Nat := b.foldl (fun n x => n * 256 + x.toNat) 0

-- The number of bytes of the extended length.
def extendedLen (len7 : Nat) : Nat := if len7 < 126 then 0 else if len7 = 126 then 2 else 8

def keyAt (buf : Bytes) (off : Nat) : MaskKey :=
  ⟨buf.getD off 0, buf.getD (off + 1) 0, buf.getD (off + 2) 0, buf.getD (off + 3) 0⟩

def parseHeader (buf : Bytes) : HeaderResult :=
  if buf.length < 2 then .more
  else
    let b0 := buf.getD 0 0
    let b1 := buf.getD 1 0
    let mask := b1 &&& 0x80 != 0
    let len7 := (b1 &&& 0x7F).toNat
    let off := 2 + extendedLen len7
    if buf.length < off then .more
    else if len7 = 127 ∧ buf.getD 2 0 &&& 0x80 ≠ 0 then .error
    else if mask ∧ buf.length < off + 4 then .more
    else
      .complete
        { fin := b0 &&& 0x80 != 0, rsv1 := b0 &&& 0x40 != 0, rsv2 := b0 &&& 0x20 != 0
          rsv3 := b0 &&& 0x10 != 0, opcode := (b0 &&& 0x0F).toNat, mask := mask
          payloadLen := if len7 < 126 then len7 else bigEndian ((buf.drop 2).take (extendedLen len7))
          maskKey := if mask then keyAt buf off else ⟨0, 0, 0, 0⟩ }
        (off + if mask then 4 else 0)

theorem extendedLen_le (len7 : Nat) : extendedLen len7 ≤ 8 := by
  unfold extendedLen
  split_ifs <;> omega

-- A header has at most 14 bytes, and they are in the buffer once it is complete.
theorem parseHeader_complete {buf : Bytes} {hdr : FrameHeader} {n : Nat}
    (h : parseHeader buf = .complete hdr n) : 2 ≤ n ∧ n ≤ 14 ∧ n ≤ buf.length := by
  have hext := extendedLen_le (buf.getD 1 0 &&& 0x7F).toNat
  unfold parseHeader at h
  split at h
  · cases h
  dsimp only at h
  generalize (buf.getD 1 0 &&& 0x80 != 0) = mask at h
  split at h
  · cases h
  split at h
  · cases h
  split at h
  · cases h
  · cases h
    cases mask <;> simp at * <;> omega

theorem parseHeader_more {buf : Bytes} (h : parseHeader buf = .more) : buf.length < 14 := by
  have hext := extendedLen_le (buf.getD 1 0 &&& 0x7F).toNat
  unfold parseHeader at h
  split at h
  · omega
  dsimp only at h
  split at h
  · omega
  split at h
  · cases h
  split at h
  · omega
  · cases h

def applyMaskOffset (key : MaskKey) : Nat → Bytes → Bytes
  | _, [] => []
  | off, b :: rest => (b ^^^ key.get off) :: applyMaskOffset key (off + 1) rest

def applyMask (key : MaskKey) (payload : Bytes) : Bytes := applyMaskOffset key 0 payload

def buildHeader (fin rsv1 : Bool) (opcode : Nat) (maskKey : Option MaskKey) (payloadLen : Nat) :
    Option Bytes :=
  if opcode > 15 then none
  else
    let b0 := (if fin then 0x80 else 0) ||| (if rsv1 then 0x40 else 0) ||| UInt8.ofNat opcode
    let maskBit : Byte := if maskKey.isSome then 0x80 else 0
    let len :=
      if payloadLen < 126 then [maskBit ||| UInt8.ofNat payloadLen]
      else if payloadLen ≤ 65535 then
        [maskBit ||| 126, UInt8.ofNat (payloadLen / 256), UInt8.ofNat payloadLen]
      else
        (maskBit ||| 127) ::
          (List.range 8).map fun i => UInt8.ofNat (payloadLen >>> (56 - 8 * i))
    some (b0 :: len ++ (maskKey.map MaskKey.bytes).getD [])

@[simp] theorem applyMaskOffset_length (key : MaskKey) (off : Nat) (payload : Bytes) :
    (applyMaskOffset key off payload).length = payload.length := by
  induction payload generalizing off with
  | nil => rfl
  | cons b rest ih => simp [applyMaskOffset, ih]

@[simp] theorem applyMask_length (key : MaskKey) (payload : Bytes) :
    (applyMask key payload).length = payload.length :=
  applyMaskOffset_length key 0 payload

theorem applyMaskOffset_append (key : MaskKey) (off : Nat) (a b : Bytes) :
    applyMaskOffset key off (a ++ b) =
      applyMaskOffset key off a ++ applyMaskOffset key (off + a.length) b := by
  induction a generalizing off with
  | nil => rfl
  | cons x rest ih => simp [applyMaskOffset, ih, Nat.add_comm, Nat.add_left_comm]

@[simp] theorem applyMaskOffset_self (key : MaskKey) (off : Nat) (payload : Bytes) :
    applyMaskOffset key off (applyMaskOffset key off payload) = payload := by
  induction payload generalizing off with
  | nil => rfl
  | cons b rest ih =>
      rw [applyMaskOffset, applyMaskOffset, ih, UInt8.xor_assoc, UInt8.xor_self, UInt8.xor_zero]

end Sevent.Ws
