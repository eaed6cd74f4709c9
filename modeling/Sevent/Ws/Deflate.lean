import Sevent.Ws.Handshake

-- permessage-deflate (ws_deflate.c) over a zlib that is not part of the repository.
namespace Sevent.Ws

inductive Flush where
  | noFlush
  | syncFlush
  deriving DecidableEq, Repr

-- `error` is every code below zero other than Z_BUF_ERROR, and Z_NEED_DICT.
inductive ZResult where
  | ok
  | streamEnd
  | bufError
  | error
  deriving DecidableEq, Repr

structure InflateOut (σ : Type) where
  res : ZResult
  state : σ
  consumed : Nat
  out : Bytes

structure DeflateOut (δ : Type) where
  res : ZResult
  state : δ
  out : Bytes

-- The zlib calls in use, with what every call of inflate guarantees: it stays inside its
-- buffers, Z_OK means progress, and `backlog` bounds the output that a state still owes for
-- an input, so that no input yields output for ever.
structure Zlib (σ δ : Type) where
  inflateInit : Nat → Option σ
  inflate : σ → Bytes → Nat → Flush → InflateOut σ
  inflateReset : σ → σ
  deflateInit : Int → Nat → Option δ
  deflateBound : δ → Nat → Nat
  deflate : δ → Bytes → Nat → Flush → DeflateOut δ
  deflateReset : δ → δ
  backlog : σ → Bytes → Nat
  consumed_le : ∀ s inp n f, (inflate s inp n f).consumed ≤ inp.length
  out_le : ∀ s inp n f, (inflate s inp n f).out.length ≤ n
  progress : ∀ s inp n f, (inflate s inp n f).res = .ok →
    0 < (inflate s inp n f).consumed ∨ (inflate s inp n f).out ≠ []
  backlog_le : ∀ s inp n f, (inflate s inp n f).out.length +
    backlog (inflate s inp n f).state (inp.drop (inflate s inp n f).consumed) ≤ backlog s inp

variable {σ δ : Type}

structure Deflate (σ δ : Type) where
  deflate : δ
  inflate : σ
  serverNoContextTakeover : Bool
  clientNoContextTakeover : Bool
  serverWindowBits : Nat
  clientWindowBits : Nat

def levelNone : Nat := 10

def deflateLevelToZlib (level : Nat) : Int :=
  if level = levelNone then 0 else if 1 ≤ level ∧ level ≤ 9 then level else -1

def deflateCreate (z : Zlib σ δ) (alloc : Bool) (p : DeflateParams) : Option (Deflate σ δ) :=
  if !alloc then none
  else
    let cbw := if p.clientMaxWindowBits ≠ 0 then p.clientMaxWindowBits else 15
    let sbw := if p.serverMaxWindowBits ≠ 0 then p.serverMaxWindowBits else 15
    match z.deflateInit (deflateLevelToZlib p.compressionLevel) cbw with
    | none => none
    | some d =>
        match z.inflateInit sbw with
        | none => none
        | some i =>
            some
              { deflate := d, inflate := i
                serverNoContextTakeover := p.serverNoContextTakeover
                clientNoContextTakeover := p.clientNoContextTakeover
                serverWindowBits := sbw, clientWindowBits := cbw }

def uintMax : Nat := 4294967295

def compressMaxlen (z : Zlib σ δ) (df : Deflate σ δ) (len : Nat) : Nat :=
  if len > uintMax then 0 else z.deflateBound df.deflate len + 4

-- `none` stands for the NULL input.
def compress (z : Zlib σ δ) (df : Deflate σ δ) (input : Option Bytes) (outCap : Nat) :
    Option Bytes × Deflate σ δ :=
  match input with
  | none => (none, df)
  | some input =>
      if input.length > uintMax ∨ outCap > uintMax then (none, df)
      else
        let r := z.deflate df.deflate input outCap .syncFlush
        if r.res ≠ .ok ∨ r.out.length < 4 then
          (none, { df with deflate := z.deflateReset r.state })
        else
          (some (r.out.take (r.out.length - 4)),
            { df with
              deflate := if df.clientNoContextTakeover then z.deflateReset r.state else r.state })

end Sevent.Ws
