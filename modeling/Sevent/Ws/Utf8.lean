import Sevent.Basic

namespace Sevent.Ws

def isTail (b : Byte) : Bool := b &&& 0xC0 == 0x80

-- ws_utf8_validate with SEVENT_WS_UTF8_CHECK on.
def utf8Validate : Bytes → Bool
  | [] => true
  | b :: rest =>
      if b ≤ 0x7F then utf8Validate rest
      else if 0xC2 ≤ b ∧ b ≤ 0xDF then
        match rest with
        | b1 :: rest => isTail b1 && utf8Validate rest
        | _ => false
      else if b = 0xE0 then
        match rest with
        | b1 :: b2 :: rest => isTail b1 && isTail b2 && 0xA0 ≤ b1 && utf8Validate rest
        | _ => false
      else if 0xE1 ≤ b ∧ b ≤ 0xEC then
        match rest with
        | b1 :: b2 :: rest => isTail b1 && isTail b2 && utf8Validate rest
        | _ => false
      else if b = 0xED then
        match rest with
        | b1 :: b2 :: rest => isTail b1 && isTail b2 && b1 ≤ 0x9F && utf8Validate rest
        | _ => false
      else if 0xEE ≤ b ∧ b ≤ 0xEF then
        match rest with
        | b1 :: b2 :: rest => isTail b1 && isTail b2 && utf8Validate rest
        | _ => false
      else if b = 0xF0 then
        match rest with
        | b1 :: b2 :: b3 :: rest =>
            isTail b1 && isTail b2 && isTail b3 && 0x90 ≤ b1 && utf8Validate rest
        | _ => false
      else if 0xF1 ≤ b ∧ b ≤ 0xF3 then
        match rest with
        | b1 :: b2 :: b3 :: rest => isTail b1 && isTail b2 && isTail b3 && utf8Validate rest
        | _ => false
      else if b = 0xF4 then
        match rest with
        | b1 :: b2 :: b3 :: rest =>
            isTail b1 && isTail b2 && isTail b3 && b1 ≤ 0x8F && utf8Validate rest
        | _ => false
      else false

end Sevent.Ws
