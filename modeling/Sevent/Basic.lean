import Mathlib.Data.List.Basic

namespace Sevent

abbrev Byte := UInt8
abbrev Bytes := List UInt8

-- The bytes of a C string literal, without the NUL.
def ascii (s : String) : Bytes := s.toList.map fun c => UInt8.ofNat c.toNat

-- The error codes of sevent.h and sevent_ws.h.
namespace Err

def success : Int := 0
def inval : Int := -1
def nomem : Int := -2
def connect : Int := -3
def handshake : Int := -4
def read : Int := -5
def write : Int := -6
def wsHandshake : Int := 0x3001
def wsProtocol : Int := 0x3002
def wsConnect : Int := 0x3004
def wsWrite : Int := 0x3005

end Err

end Sevent
